-- SUMMARY: What may happen to one HTTP/2 stream, as an automaton.
import Mathlib.Data.List.Basic
import Mathlib.Algebra.Ring.Nat

/-!
# The life of a stream

The purpose of the stream table, said of one stream at a time: a request is accepted or
refused, its body reader is made, fed, told of the end or of an error and destroyed, its
handler runs, and one response goes out. `Life.step` says which event may come next.
-/

open List

namespace Http2

/-- What happens to a stream. -/
inductive StreamEvent where
  | requested
  | accepted
  | submitted (status : Nat) (body : List UInt8)
  /-- The session reports a reset. -/
  | reset
  /-- The connection ends. -/
  | dropped
  | readerMade
  | readerData (data : List UInt8)
  | readerComplete
  | readerError
  | readerDestroyed
  | handled
deriving DecidableEq

namespace StreamEvent

def isSubmitted : StreamEvent → Bool
  | submitted _ _ => true
  | _ => false

/-- The events that end a stream. -/
def isEnd : StreamEvent → Bool
  | submitted _ _ | reset | dropped => true
  | _ => false

def isReader : StreamEvent → Bool
  | readerMade | readerData _ | readerComplete | readerError | readerDestroyed => true
  | _ => false

end StreamEvent

inductive Phase where
  | absent | requested | accepted | closed
deriving DecidableEq

inductive ReaderLife where
  | none
  | reading (given : Nat)
  | complete
  | failed
  | destroyed
deriving DecidableEq

structure Life where
  phase : Phase
  reader : ReaderLife
  handled : Bool
deriving DecidableEq

namespace Life

def start : Life := { phase := .absent, reader := .none, handled := false }

/-- The event that may come next, with `max` the most bytes a reader may get (0: any number). -/
inductive Step (max : Nat) : Life → StreamEvent → Life → Prop
  | requested {r : ReaderLife} {d : Bool} : Step max ⟨.absent, r, d⟩ .requested ⟨.requested, r, d⟩
  | accepted {r : ReaderLife} {d : Bool} : Step max ⟨.requested, r, d⟩ .accepted ⟨.accepted, r, d⟩
  | refused {status : Nat} {body : List UInt8} {r : ReaderLife} {d : Bool} :
      Step max ⟨.requested, r, d⟩ (.submitted status body) ⟨.closed, r, d⟩
  | answered {status : Nat} {body : List UInt8} {r : ReaderLife} {d : Bool} :
      Step max ⟨.accepted, r, d⟩ (.submitted status body) ⟨.closed, r, d⟩
  | reset {r : ReaderLife} {d : Bool} : Step max ⟨.accepted, r, d⟩ .reset ⟨.closed, r, d⟩
  /-- A reset of a stream that is not open changes nothing. -/
  | resetIdle {p : Phase} {r : ReaderLife} {d : Bool} (hp : p ≠ .accepted) :
    Step max ⟨p, r, d⟩ .reset ⟨p, r, d⟩
  | dropped {r : ReaderLife} {d : Bool} : Step max ⟨.accepted, r, d⟩ .dropped ⟨.closed, r, d⟩
  | readerMade {d : Bool} : Step max ⟨.accepted, .none, d⟩ .readerMade ⟨.accepted, .reading 0, d⟩
  | readerData {n : Nat} {d : Bool} {data : List UInt8} (hmax : max = 0 ∨ n + data.length ≤ max) :
      Step max ⟨.accepted, .reading n, d⟩ (.readerData data) ⟨.accepted,
        .reading (n + data.length), d⟩
  | readerComplete {p : Phase} {n : Nat} {d : Bool} :
    Step max ⟨p, .reading n, d⟩ .readerComplete ⟨p, .complete, d⟩
  | readerError {p : Phase} {n : Nat} {d : Bool} :
    Step max ⟨p, .reading n, d⟩ .readerError ⟨p, .failed, d⟩
  | readerDestroyed {r : ReaderLife} {d : Bool} (hmade : r ≠ .none) (honce : r ≠ .destroyed) :
      Step max ⟨.closed, r, d⟩ .readerDestroyed ⟨.closed, .destroyed, d⟩
  | handled {r : ReaderLife} (hready : r = .none ∨ r = .complete) :
    Step max ⟨.accepted, r, false⟩ .handled ⟨.accepted, r, true⟩

/-- The histories of a stream. -/
inductive History (max : Nat) : List StreamEvent → Life → Prop
  | nil : History max [] start
  | snoc {evs : List StreamEvent} {l l' : Life} {ev : StreamEvent} (h : History max evs l)
    (hstep : Step max l ev l') :
      History max (evs ++ [ev]) l'

variable {max : Nat} {l l' : Life} {evs evs' : List StreamEvent} {ev : StreamEvent}
  {post pre : List StreamEvent}

/-- A history up to an event. -/
theorem History.until (h : History max evs l)
    (heq : evs = pre ++ ev :: post) : ∃ m m', History max pre m ∧ Step max m ev m' := by
  induction h generalizing post with
  | nil => exact absurd heq.symm (append_ne_nil_of_right_ne_nil pre (cons_ne_nil ev post))
  | @snoc evs l l' last hist hstep ih =>
    rcases eq_nil_or_concat post with rfl | ⟨post', x, rfl⟩
    · obtain ⟨rfl, hlast⟩ := append_inj' heq rfl
      cases hlast
      exact ⟨l, l', hist, hstep⟩
    · have heq : evs ++ [last] = (pre ++ ev :: post') ++ [x] := by
        rw [heq, concat_eq_append]
        simp
      exact ih (append_inj' heq rfl).1

/-! ## What a history satisfies -/

theorem History.absent_iff (h : History max evs l) :
    l.phase = .absent ↔ StreamEvent.requested ∉ evs := by
  induction h with
  | nil => simp [start]
  | snoc hist hstep ih =>
    rw [mem_append, mem_singleton, not_or, ← ih]
    cases hstep <;> simp

theorem History.eq_start (h : History max evs l) (hp : l.phase = .absent) : l = start := by
  induction h with
  | nil => rfl
  | snoc hist hstep ih =>
    cases hstep with
    | resetIdle => exact ih hp
    | readerComplete => exact absurd (congrArg Life.reader (ih hp)) ReaderLife.noConfusion
    | readerError => exact absurd (congrArg Life.reader (ih hp)) ReaderLife.noConfusion
    | _ => cases hp

/-- A stream that is not closed has not been answered, and no stream is answered twice. -/
theorem History.submits (h : History max evs l) :
    evs.countP (·.isSubmitted) ≤ 1 ∧ (l.phase ≠ .closed → evs.countP (·.isSubmitted) = 0) := by
  induction h with
  | nil => exact ⟨Nat.zero_le _, fun _ => rfl⟩
  | snoc hist hstep ih =>
    cases hstep <;> simp_all [StreamEvent.isSubmitted]

/-- Accepted, and not ended since. -/
def Open (evs : List StreamEvent) : Prop :=
  ∃ pre post, evs = pre ++ .accepted :: post ∧ ∀ ev ∈ post, ev.isEnd = false

theorem open_concat : Open (evs ++ [ev]) ↔ ev = .accepted ∨ (ev.isEnd = false ∧ Open evs) := by
  constructor
  · rintro ⟨pre, post, heq, hpost⟩
    rcases eq_nil_or_concat post with rfl | ⟨post', x, rfl⟩
    · exact .inl (singleton_inj.mp (append_inj' heq rfl).2)
    rw [concat_eq_append] at heq hpost
    have heq : evs ++ [ev] = (pre ++ .accepted :: post') ++ [x] := by
      rw [heq]
      simp
    obtain ⟨hevs, hx⟩ := append_inj' heq rfl
    rw [singleton_inj.mp hx]
    refine .inr ⟨hpost x (by simp), pre, post', hevs, fun e he => hpost e (mem_append_left [x] he)⟩
  · rintro (rfl | ⟨hend, pre, post, rfl, hpost⟩)
    · exact ⟨evs, [], rfl, fun _ hmem => absurd hmem not_mem_nil⟩
    · refine ⟨pre, post ++ [ev], by simp, fun e he => ?_⟩
      rcases mem_append.mp he with hmem | hmem
      · exact hpost e hmem
      · rw [mem_singleton.mp hmem]
        exact hend

/-- What is open was accepted and has not ended since. -/
theorem History.accepted_iff (h : History max evs l) : l.phase = .accepted ↔ Open evs := by
  induction h with
  | nil =>
    refine ⟨Phase.noConfusion, ?_⟩
    rintro ⟨pre, post, heq, -⟩
    exact absurd heq.symm (append_ne_nil_of_right_ne_nil pre (cons_ne_nil _ post))
  | snoc hist hstep ih =>
    rw [open_concat, ← ih]
    cases hstep <;> simp_all [StreamEvent.isEnd]

/-- The use of a reader: it is made, fed and ended. -/
inductive Used (max : Nat) : ReaderLife → List StreamEvent → Prop
  | none : Used max .none []
  | reading (ds : List (List UInt8)) (hmax : max = 0 ∨ ds.flatten.length ≤ max) :
      Used max (.reading ds.flatten.length) (.readerMade :: ds.map .readerData)
  | complete (ds : List (List UInt8)) (hmax : max = 0 ∨ ds.flatten.length ≤ max) :
      Used max .complete (.readerMade :: (ds.map .readerData ++ [.readerComplete]))
  | failed (ds : List (List UInt8)) (hmax : max = 0 ∨ ds.flatten.length ≤ max) :
      Used max .failed (.readerMade :: (ds.map .readerData ++ [.readerError]))
  | destroyed (ds : List (List UInt8)) (last : List StreamEvent)
    (hmax : max = 0 ∨ ds.flatten.length ≤ max)
      (hlast : last = [] ∨ last = [.readerComplete] ∨ last = [.readerError]) :
      Used max .destroyed (.readerMade :: (ds.map .readerData ++ (last ++ [.readerDestroyed])))

theorem Used.data {n : Nat} {data : List UInt8} (h : Used max (.reading n) evs)
    (hmax : max = 0 ∨ n + data.length ≤ max) :
    Used max (.reading (n + data.length)) (evs ++ [.readerData data]) := by
  cases h with
  | reading ds _ =>
    have hlen : ds.flatten.length + data.length = (ds ++ [data]).flatten.length := by simp
    rw [hlen] at hmax ⊢
    have hevs : .readerMade :: ds.map StreamEvent.readerData ++ [.readerData data] =
        .readerMade :: (ds ++ [data]).map StreamEvent.readerData := by simp
    rw [hevs]
    exact .reading _ hmax

theorem Used.destroy {r : ReaderLife} (h : Used max r evs) (hmade : r ≠ .none)
    (honce : r ≠ .destroyed) : Used max .destroyed (evs ++ [.readerDestroyed]) := by
  cases h with
  | none => exact absurd rfl hmade
  | reading ds hmax => exact .destroyed ds [] hmax (.inl rfl)
  | complete ds hmax =>
    rw [cons_append, append_assoc]
    exact .destroyed ds _ hmax (.inr (.inl rfl))
  | failed ds hmax =>
    rw [cons_append, append_assoc]
    exact .destroyed ds _ hmax (.inr (.inr rfl))
  | destroyed => exact absurd rfl honce

theorem History.used (h : History max evs l) : Used max l.reader (evs.filter (·.isReader)) := by
  induction h with
  | nil => exact .none
  | @snoc evs l l' ev hist hstep ih =>
    rw [filter_append]
    cases hstep with
    | readerMade =>
      cases hf : evs.filter (·.isReader) with
      | nil => exact .reading [] (.inr (Nat.zero_le _))
      | cons a t =>
        rw [hf] at ih
        cases ih
    | readerData hmax => exact ih.data hmax
    | readerComplete =>
      generalize evs.filter (·.isReader) = used at ih
      cases ih with
      | reading ds hmax => exact .complete ds hmax
    | readerError =>
      generalize evs.filter (·.isReader) = used at ih
      cases ih with
      | reading ds hmax => exact .failed ds hmax
    | readerDestroyed hmade honce => exact ih.destroy hmade honce
    | _ => simpa [StreamEvent.isReader] using ih

theorem History.handles (h : History max evs l) : evs.count .handled = l.handled.toNat := by
  induction h with
  | nil => rfl
  | snoc hist hstep ih =>
    rw [count_append, ih]
    cases hstep <;> simp

/-- A handler runs when the reader, if there is one, has been told of the end. -/
theorem History.handled_after (h : History max evs l)
    (heq : evs = pre ++ .handled :: post) (hmade : .readerMade ∈ pre) : .readerComplete ∈ pre := by
  obtain ⟨m, m', hist, hstep⟩ := h.until heq
  have hused := hist.used
  have hmade : StreamEvent.readerMade ∈ pre.filter (·.isReader) := mem_filter.mpr ⟨hmade, rfl⟩
  suffices hmem : StreamEvent.readerComplete ∈ pre.filter (·.isReader) from (mem_filter.mp hmem).1
  cases hstep with
  | handled hready =>
    rcases hready with rfl | rfl
    · generalize pre.filter (·.isReader) = used at *
      cases hused
      exact absurd hmade not_mem_nil
    · generalize pre.filter (·.isReader) = used at *
      cases hused
      simp

end Life

end Http2
