-- SUMMARY: Every HTTP/2 stream lives its life, and the table holds the open ones.
import Keel.Http2.Server

/-!
# The stream table

`Sound` ties the table to the histories of the streams: each stream in the table is open, and
every other one is not started or over. A callback takes one stream aside (`Held`), adds events
to its history, and puts it back or releases it. At a flush nothing is held, so whatever the
session calls from inside it meets a sound table.
-/

open Message SwapRemove Reentrant List

namespace Http2

/-- The events of one stream. -/
def story (id : Nat) (log : List (Nat × StreamEvent)) : List StreamEvent :=
  (log.filter (·.1 = id)).map (·.2)

variable {max id : Nat} {log : List (Nat × StreamEvent)} {ev : StreamEvent} {l l' : Life}

@[simp] theorem story_same : story id (log ++ [(id, ev)]) = story id log ++ [ev] := by simp [story]

theorem story_other {id' : Nat} (h : id' ≠ id) : story id' (log ++ [(id, ev)]) = story id' log := by
  simp [story, h.symm]

theorem mem_story : ev ∈ story id log ↔ (id, ev) ∈ log := by simp [story]

/-! ## One stream and the others -/

/-- The stream has its reader exactly while the history says so. -/
def Tied (s : KlHttp2ServerStream) (l : Life) : Prop :=
  (s.bodyReader = false ∧ l.reader = .none) ∨ (s.bodyReader = true ∧ l.reader ≠ .none ∧
    l.reader ≠ .destroyed)

/-- A stream in the table. -/
structure Lives (max : Nat) (s : KlHttp2ServerStream) (l : Life) : Prop where
  phase : l.phase = .accepted
  handled : l.handled = false
  unanswered : s.responseSubmitted = false
  reader : (s.bodyReader = false ∧ l.reader = .none) ∨
    (s.bodyReader = true ∧ ∃ n, l.reader = .reading n ∧ (0 < max → n ≤ s.bodyReceived))
  room : 0 < max → s.bodyReceived ≤ max

/-- A stream that is not in the table. -/
structure Gone (l : Life) : Prop where
  phase : l.phase ≠ .accepted
  reader : l.reader = .none ∨ l.reader = .destroyed

structure Sound (max : Nat) (streams : List KlHttp2ServerStream) (log : List (Nat × StreamEvent)) :
    Prop where
  nodup : (streams.map (·.streamId)).Nodup
  live : ∀ s ∈ streams, ∃ l, Life.History max (story s.streamId log) l ∧ Lives max s l
  gone : ∀ id, id ∉ streams.map (·.streamId) → ∃ l, Life.History max (story id log) l ∧ Gone l

/-- The others are sound, and one stream is taken aside with its history. -/
structure Apart (max id : Nat) (rest : List KlHttp2ServerStream) (log : List (Nat × StreamEvent))
    (l : Life) : Prop where
  nodup : (id :: rest.map (·.streamId)).Nodup
  live : ∀ s ∈ rest, ∃ l, Life.History max (story s.streamId log) l ∧ Lives max s l
  gone : ∀ id', id' ∉ id :: rest.map (·.streamId) → ∃ l, Life.History max (story id' log) l ∧ Gone l
  history : Life.History max (story id log) l

variable {rest streams : List KlHttp2ServerStream} {s s' : KlHttp2ServerStream}

theorem Sound.perm (h : Sound max streams log) {streams' : List KlHttp2ServerStream}
    (hp : streams.Perm streams') : Sound max streams' log := by
  have hids := hp.map (·.streamId)
  refine ⟨hids.nodup_iff.mp h.nodup, fun s hs => h.live s (hp.mem_iff.mpr hs), fun id hid => ?_⟩
  exact h.gone id fun hmem => hid (hids.mem_iff.mp hmem)

theorem Sound.take (h : Sound max (s :: rest) log) :
    ∃ l, Apart max s.streamId rest log l ∧ Lives max s l := by
  obtain ⟨l, hist, hl⟩ := h.live s mem_cons_self
  exact ⟨l, ⟨h.nodup, fun t ht => h.live t (mem_cons_of_mem s ht), h.gone, hist⟩, hl⟩

theorem Sound.fresh (h : Sound max rest log) (hid : id ∉ rest.map (·.streamId)) :
    ∃ l, Apart max id rest log l ∧ Gone l := by
  obtain ⟨l, hist, hl⟩ := h.gone id hid
  exact ⟨l, ⟨nodup_cons.mpr ⟨hid, h.nodup⟩, h.live, fun id' hmem => h.gone id' fun hin =>
    hmem (mem_cons_of_mem id hin), hist⟩, hl⟩

theorem Apart.event (h : Apart max id rest log l) (hstep : Life.Step max l ev l') :
    Apart max id rest (log ++ [(id, ev)]) l' := by
  refine ⟨h.nodup, fun t ht => ?_, fun id' hid' => ?_, ?_⟩
  · have hne : t.streamId ≠ id := fun heq => (nodup_cons.mp h.nodup).1 (heq ▸ mem_map_of_mem ht)
    rw [story_other hne]
    exact h.live t ht
  · have hne : id' ≠ id := by
      rintro rfl
      exact hid' mem_cons_self
    rw [story_other hne]
    exact h.gone id' hid'
  · rw [story_same]
    exact h.history.snoc hstep

theorem Apart.keep (h : Apart max id rest log l) (hid : s.streamId = id) (hl : Lives max s l) :
    Sound max (s :: rest) log := by
  subst hid
  refine ⟨h.nodup, fun t ht => ?_, h.gone⟩
  rcases mem_cons.mp ht with rfl | ht
  · exact ⟨l, h.history, hl⟩
  · exact h.live t ht

theorem Apart.release (h : Apart max id rest log l) (hl : Gone l) : Sound max rest log := by
  refine ⟨(nodup_cons.mp h.nodup).2, h.live, fun id' hid' => ?_⟩
  by_cases heq : id' = id
  · subst heq
    exact ⟨l, h.history, hl⟩
  · exact h.gone id' fun hmem => (mem_cons.mp hmem).elim heq hid'

/-! ## One slot of the table -/

/-- What holds between the callbacks, for a connection with these limits. -/
structure Good (max cap : Nat) (h2c : KlHttp2ServerConn) : Prop where
  maxBodySize : h2c.maxBodySize = max
  maxStreams : h2c.maxStreams = cap
  bound : h2c.streams.length ≤ cap
  sound : Sound max h2c.streams h2c.log

/-- The stream in slot `i` is taken aside. -/
structure Held (max cap : Nat) (h2c : KlHttp2ServerConn) (i : Nat) (s : KlHttp2ServerStream)
    (rest : List KlHttp2ServerStream) (l : Life) : Prop where
  maxBodySize : h2c.maxBodySize = max
  maxStreams : h2c.maxStreams = cap
  bound : rest.length < cap
  slot : h2c.streams[i]? = some s
  others : ∀ b, (h2c.streams.set i b).Perm (b :: rest)
  apart : Apart max s.streamId rest h2c.log l

variable {cap i : Nat} {h2c : KlHttp2ServerConn} {ans : Answers}

section

variable (h : Held max cap h2c i s rest l)
include h

theorem Held.record (hstep : Life.Step max l ev l') :
    Held max cap (h2c.record s.streamId ev) i s rest l' :=
  ⟨h.maxBodySize, h.maxStreams, h.bound, h.slot, h.others, h.apart.event hstep⟩

theorem Held.write (hid : s'.streamId = s.streamId) :
    Held max cap (h2c.write i s') i s' rest l := by
  have hi := (List.getElem?_eq_some_iff.mp h.slot).1
  refine ⟨h.maxBodySize, h.maxStreams, h.bound, ?_, fun b => ?_, hid ▸ h.apart⟩
  · exact getElem?_set_self hi
  · show ((h2c.streams.set i s').set i b).Perm _
    rw [set_set]
    exact h.others b

theorem Held.perm : h2c.streams.Perm (s :: rest) := by
  obtain ⟨hi, hs⟩ := List.getElem?_eq_some_iff.mp h.slot
  have hset := h.others s
  rwa [← hs, set_getElem_self, hs] at hset

/-- The stream is put back. -/
theorem Held.keep (hl : Lives max s l) : Good max cap h2c := by
  refine ⟨h.maxBodySize, h.maxStreams, ?_, (h.apart.keep rfl hl).perm h.perm.symm⟩
  rw [h.perm.length_eq]
  exact h.bound

/-- The stream is released. -/
theorem Held.destroy (hphase : l.phase = .closed) (htied : Tied s l) :
    Good max cap (h2c.streamDestroy i) := by
  have hperm := swapRemove_perm h.slot h.others
  have hbound := Nat.le_of_lt h.bound
  obtain ⟨p, r, d⟩ := l
  cases hphase
  unfold KlHttp2ServerConn.streamDestroy
  rw [h.slot]
  rcases htied with ⟨hnone, hr⟩ | ⟨hmade, hr, hr'⟩
  · simp only [hnone]
    refine ⟨h.maxBodySize, h.maxStreams, ?_,
      (h.apart.release ⟨Phase.noConfusion, .inl hr⟩).perm hperm.symm⟩
    exact hperm.length_eq ▸ hbound
  · simp only [hmade]
    have hgone := (h.apart.event (.readerDestroyed hr hr')).release ⟨Phase.noConfusion, .inr rfl⟩
    exact ⟨h.maxBodySize, h.maxStreams, hperm.length_eq ▸ hbound, hgone.perm hperm.symm⟩

/-! ## Answers -/

section

variable (hphase : l.phase = .accepted) (hsub : s.responseSubmitted = false)
include hphase hsub

/-- One response goes out. -/
theorem Held.submit :
    Held max cap (h2c.submitResponse i s ans).1 i { s with responseSubmitted := true } rest
    { l with phase := .closed } := by
  have hwritten : Held max cap (h2c.write i { s with responseSubmitted := true }) i
      { s with responseSubmitted := true } rest l :=
    h.write rfl
  obtain ⟨p, r, d⟩ := l
  cases hphase
  have hanswer (status : Nat) (body : List UInt8) :
      Held max cap ((h2c.write i { s with responseSubmitted := true }).record s.streamId
        (.submitted status body)) i
        { s with responseSubmitted := true } rest ⟨.closed, r, d⟩ := hwritten.record .answered
  unfold KlHttp2ServerConn.submitResponse
  rw [hsub]
  simp only [Bool.false_eq_true, if_false]
  split
  · exact hanswer _ _
  · exact hanswer _ _
  · exact hanswer _ _
  split
  · exact hanswer _ _
  split
  · split
    · exact hanswer _ _
    · exact hanswer _ _
    · exact hanswer _ _
  · exact hanswer _ _

/-- `h2_answer_and_release` leaves a sound table, at the flush and behind it. -/
theorem Held.answer (htied : Tied s l) : Good max cap (h2c.answerAndRelease i s ans).state := by
  have hsubmitted : Held max cap (h2c.submitResponse i s ans).1 i
      { s with responseSubmitted := true } rest
      { l with phase := .closed } := h.submit hphase hsub
  have hdestroyed := hsubmitted.destroy rfl htied
  unfold KlHttp2ServerConn.answerAndRelease
  split
  · exact hdestroyed
  · exact hdestroyed

theorem Held.answerError
    (htied : Tied s l) (code : Nat) (message : String) :
    Good max cap (h2c.answerError i s code message ans).state := by
  let s' := { s with res := KlHttp2ServerConn.responseError s.res code message }
  have hwritten : Held max cap (h2c.write i s') i s' rest l := h.write rfl
  exact hwritten.answer hphase hsub htied

end

end

theorem Lives.tied (h : Lives max s l) : Tied s l := by
  rcases h.reader with hnone | ⟨hmade, n, hr, -⟩
  · exact .inl hnone
  · exact .inr ⟨hmade, by rw [hr]; exact ReaderLife.noConfusion,
      by rw [hr]; exact ReaderLife.noConfusion⟩

/-! ## Data -/

theorem Lives.step_error (h : Lives max s l) (hmade : s.bodyReader = true) :
    Life.Step max l .readerError { l with reader := .failed } := by
  rcases h.reader with ⟨hnone, -⟩ | ⟨-, n, hr, -⟩
  · exact absurd (hnone.symm.trans hmade) Bool.false_ne_true
  · obtain ⟨p, r, d⟩ := l
    cases hr
    exact .readerError

/-- A reader that was told of an error is destroyed with its stream. -/
theorem tied_failed (hmade : s.bodyReader = true) (hr : l.reader = .failed) : Tied s l :=
  .inr ⟨hmade, by rw [hr]; exact ReaderLife.noConfusion, by rw [hr]; exact ReaderLife.noConfusion⟩

/-- The stream that has counted `n` bytes against a limit. -/
def counted (max n : Nat) (s : KlHttp2ServerStream) : KlHttp2ServerStream :=
  if 0 < max then { s with bodyReceived := s.bodyReceived + n } else s

theorem counted_streamId (max n : Nat) (s : KlHttp2ServerStream) :
    (counted max n s).streamId = s.streamId := by
  unfold counted
  split <;> rfl

theorem counted_bodyReader (max n : Nat) (s : KlHttp2ServerStream) :
    (counted max n s).bodyReader = s.bodyReader := by
  unfold counted
  split <;> rfl

theorem counted_responseSubmitted (max n : Nat) (s : KlHttp2ServerStream) :
    (counted max n s).responseSubmitted = s.responseSubmitted := by
  unfold counted
  split <;> rfl

theorem counted_bodyReceived (n : Nat) (s : KlHttp2ServerStream) (hmax : 0 < max) :
    (counted max n s).bodyReceived = s.bodyReceived + n := by
  unfold counted
  rw [if_pos hmax]

theorem Held.takeData (h : Held max cap h2c i s rest l) (hl : Lives max s l) (data : List UInt8) :
    Good max cap (h2c.takeData i s data ans).state := by
  unfold KlHttp2ServerConn.takeData
  rw [h.maxBodySize]
  split
  · -- over the limit
    split
    · next hmade =>
        exact (h.record (hl.step_error hmade)).answerError hl.phase hl.unanswered
          (tied_failed hmade rfl) _ _
    · exact h.answerError hl.phase hl.unanswered hl.tied _ _
  rename_i hover
  let s' := counted max data.length s
  have hmade' : s'.bodyReader = s.bodyReader := counted_bodyReader _ _ s
  have hsub : s'.responseSubmitted = false := (counted_responseSubmitted _ _ s).trans hl.unanswered
  have hreceived (hmax : 0 < max) : s'.bodyReceived = s.bodyReceived + data.length :=
    counted_bodyReceived _ s hmax
  have hroom (hmax : 0 < max) : s.bodyReceived + data.length ≤ max := by
    have hle := hl.room hmax
    omega
  have hwritten : Held max cap (h2c.write i s') i s' rest l := h.write (counted_streamId _ _ s)
  show Good max cap (if s'.bodyReader = true then _ else _ : H2Out).state
  split
  · next hmade =>
    rw [hmade'] at hmade
    rcases hl.reader with ⟨hnone, -⟩ | ⟨-, n, hr, hn⟩
    · exact absurd (hnone.symm.trans hmade) Bool.false_ne_true
    obtain ⟨p, r, d⟩ := l
    obtain ⟨rfl, rfl, hsub', -, -⟩ := hl
    cases hr
    have hgiven : max = 0 ∨ n + data.length ≤ max := by
      rcases Nat.eq_zero_or_pos max with hzero | hmax
      · exact .inl hzero
      · have hle := hn hmax
        have hfits := hroom hmax
        omega
    have hdata := hwritten.record (.readerData hgiven)
    show Good max cap (if ans.takes = true then _ else _ : H2Out).state
    split
    · refine hdata.keep ⟨rfl, rfl, hsub, .inr ⟨hmade'.trans hmade, n + data.length, rfl, fun hmax =>
        ?_⟩, fun hmax => ?_⟩
      · rw [hreceived hmax]
        exact Nat.add_le_add_right (hn hmax) _
      · rw [hreceived hmax]
        exact hroom hmax
    · exact (hdata.record .readerError).answerError rfl hsub (tied_failed (hmade'.trans hmade) rfl)
        _ _
  · next hnot =>
    have hnone : l.reader = .none := by
      rcases hl.reader with ⟨-, hr⟩ | ⟨hmade, -⟩
      · exact hr
      · exact absurd (hmade'.trans hmade) hnot
    refine hwritten.keep ⟨hl.phase, hl.handled, hsub, .inl ⟨Bool.eq_false_iff.mpr hnot, hnone⟩,
      fun hmax => ?_⟩
    rw [hreceived hmax]
    exact hroom hmax

/-! ## Requests -/

theorem Held.prepareReader (h : Held max cap h2c i s rest l) (hl : Lives max s l)
    (hnone : s.bodyReader = false)
    (length : Option Nat) : Good max cap (h2c.prepareReader i s length ans).state := by
  have hr : l.reader = .none := by
    rcases hl.reader with ⟨-, hr⟩ | ⟨hmade, -⟩
    · exact hr
    · exact absurd (hnone.symm.trans hmade) Bool.false_ne_true
  unfold KlHttp2ServerConn.prepareReader
  split
  · have hlazy : Held max cap (h2c.write i { s with readerLazy := true }) i
        { s with readerLazy := true } rest l := h.write rfl
    exact hlazy.keep ⟨hl.phase, hl.handled, hl.unanswered, .inl ⟨hnone, hr⟩, hl.room⟩
  split_ifs
  · obtain ⟨p, r, d⟩ := l
    obtain ⟨rfl, rfl, hsub, -, hroom⟩ := hl
    cases hr
    let s' := { s with bodyReader := true }
    have hmade : Held max cap ((h2c.record s.streamId .readerMade).write i s') i s' rest ⟨.accepted,
        .reading 0, false⟩ :=
      (h.record .readerMade).write rfl
    exact hmade.keep ⟨rfl, rfl, hsub, .inr ⟨rfl, 0, rfl, fun _ => Nat.zero_le _⟩, hroom⟩
  · exact h.answerError hl.phase hl.unanswered hl.tied _ _
  · exact h.keep hl

/-- A stream whose request has just come in. -/
def asked : Life := ⟨.requested, .none, false⟩

/-- A request that cannot be served leaves no trace in the table. -/
theorem Held.undo (h : Held max cap h2c i s rest asked) (hnone : s.bodyReader = false) :
    Good max cap (h2c.streamDestroy i) := by
  have hperm := swapRemove_perm h.slot h.others
  unfold KlHttp2ServerConn.streamDestroy
  rw [h.slot]
  simp only [hnone]
  refine ⟨h.maxBodySize, h.maxStreams, ?_,
    (h.apart.release ⟨Phase.noConfusion, .inl rfl⟩).perm hperm.symm⟩
  exact hperm.length_eq ▸ Nat.le_of_lt h.bound

theorem Held.serveRequest {id : Nat}
    (h : Held max cap h2c i (KlHttp2ServerConn.blank id) rest asked)
    (r : KlHttp2ServerConn.Reported) : Good max cap (h2c.serveRequest i id r ans).state := by
  have hundo := h.undo rfl
  unfold KlHttp2ServerConn.serveRequest
  split
  · exact hundo
  split
  · exact hundo
  next length _ =>
  split
  · exact hundo
  split
  · exact hundo
  let s := h2c.accept id r (length.getD 0)
  have haccepted : Held max cap ((h2c.record id .accepted).write i s) i s rest ⟨.accepted, .none,
      false⟩ :=
    (h.record .accepted).write rfl
  have hl : Lives max s ⟨.accepted, .none, false⟩ :=
    ⟨rfl, rfl, rfl, .inl ⟨rfl, rfl⟩, fun _ => Nat.zero_le _⟩
  simp only
  split
  · exact haccepted.prepareReader hl rfl length
  let s' := { s with res := ans.middleware.2 }
  have hwritten : Held max cap (((h2c.record id .accepted).write i s).write i s') i s' rest
      ⟨.accepted, .none, false⟩ :=
    haccepted.write rfl
  have hl' : Lives max s' ⟨.accepted, .none, false⟩ :=
    ⟨rfl, rfl, rfl, .inl ⟨rfl, rfl⟩, fun _ => Nat.zero_le _⟩
  split
  · exact hwritten.answer rfl rfl hl'.tied
  · exact hwritten.prepareReader hl' rfl length

/-- A stream that has not been started is not in the table. -/
theorem Sound.unstarted (h : Sound max rest log) (hfresh : (id, StreamEvent.requested) ∉ log) :
    Apart max id rest log .start := by
  have hstory : StreamEvent.requested ∉ story id log := mt mem_story.mp hfresh
  have hid : id ∉ rest.map (·.streamId) := by
    intro hmem
    obtain ⟨s, hs, rfl⟩ := mem_map.mp hmem
    obtain ⟨l, hist, hl⟩ := h.live s hs
    have habsent := hist.absent_iff.mpr hstory
    rw [hl.phase] at habsent
    cases habsent
  obtain ⟨l, hapart, -⟩ := h.fresh hid
  have hstart := hapart.history.eq_start (hapart.history.absent_iff.mpr hstory)
  exact hstart ▸ hapart

/-- A slot behind the last one. -/
theorem held_create (h : Good max cap h2c) (hfull : ¬h2c.maxStreams ≤ h2c.streams.length)
    (hasked : Apart max s.streamId h2c.streams h2c.log l) :
    Held max cap { h2c with streams := h2c.streams ++ [s] } ((h2c.streams ++ [s]).length - 1) s
    h2c.streams l := by
  have hlast : (h2c.streams ++ [s]).length - 1 = h2c.streams.length := by
    rw [length_append]
    rfl
  rw [hlast]
  refine ⟨h.maxBodySize, h.maxStreams, h.maxStreams ▸ Nat.not_le.mp hfull, ?_, fun b => ?_, hasked⟩
  · exact getElem?_concat_length
  · show ((h2c.streams ++ [s]).set h2c.streams.length b).Perm _
    rw [set_append_right _ _ (Nat.le_refl _), Nat.sub_self]
    exact perm_append_singleton b h2c.streams

theorem Good.onRequest (h : Good max cap h2c) (hfresh : (id, StreamEvent.requested) ∉ h2c.log)
    (r : KlHttp2ServerConn.Reported) : Good max cap (h2c.onRequest id r ans).state := by
  have hasked : Apart max id h2c.streams (h2c.log ++ [(id, .requested)]) asked :=
    (h.sound.unstarted hfresh).event .requested
  have hrefused (status : Nat) (body : List UInt8) : Good max cap
      ((h2c.record id .requested).record id (.submitted status body)) :=
    ⟨h.maxBodySize, h.maxStreams, h.bound, (hasked.event .refused).release ⟨Phase.noConfusion,
      .inl rfl⟩⟩
  have hback : Good max cap (h2c.record id .requested) :=
    ⟨h.maxBodySize, h.maxStreams, h.bound, hasked.release ⟨Phase.noConfusion, .inl rfl⟩⟩
  unfold KlHttp2ServerConn.onRequest
  simp only
  split
  · exact hrefused _ _
  unfold KlHttp2ServerConn.streamCreate
  split
  · exact hrefused _ _
  next h2c' hcreate =>
  obtain ⟨hfull, heq⟩ := Option.ite_none_left_eq_some.mp hcreate
  cases heq
  exact (held_create hback hfull hasked).serveRequest r

/-! ## The other callbacks -/

/-- A stream that is found can be taken aside. -/
theorem Good.held (h : Good max cap h2c) (hslot : h2c.streams[i]? = some s) :
    ∃ rest l, Held max cap h2c i s rest l ∧ Lives max s l := by
  obtain ⟨rest, hperm, hset⟩ := exists_perm_cons hslot
  obtain ⟨l, hapart, hl⟩ := (h.sound.perm hperm).take
  refine ⟨rest, l, ⟨h.maxBodySize, h.maxStreams, ?_, hslot, hset, hapart⟩, hl⟩
  have hlen := hperm.length_eq ▸ h.bound
  exact hlen

theorem Good.onData (h : Good max cap h2c) (id : Nat) (data : List UInt8) :
    Good max cap (h2c.onData id data ans).state := by
  unfold KlHttp2ServerConn.onData
  split
  · exact h
  split
  · exact h
  next s hslot =>
  obtain ⟨rest, l, hheld, hl⟩ := h.held hslot
  split
  · next hlazy =>
    have hr : l.reader = .none := by
      rcases hl.reader with ⟨-, hr⟩ | ⟨hmade, -⟩
      · exact hr
      · exact absurd (hlazy.2.symm.trans hmade) Bool.false_ne_true
    have hwritten : Held max cap (h2c.write _ { s with readerLazy := false }) _
        { s with readerLazy := false } rest l := hheld.write rfl
    split
    · obtain ⟨p, r, d⟩ := l
      obtain ⟨rfl, rfl, hsub, -, hroom⟩ := hl
      cases hr
      have hmade : Held max cap _ _ { s with readerLazy := false, bodyReader := true } rest
          ⟨.accepted, .reading 0, false⟩ :=
        (hwritten.record .readerMade).write rfl
      exact hmade.takeData ⟨rfl, rfl, hsub, .inr ⟨rfl, 0, rfl, fun _ => Nat.zero_le _⟩, hroom⟩ data
    · exact hwritten.answerError hl.phase hl.unanswered (.inl ⟨hlazy.2, hr⟩) _ _
  · exact hheld.takeData hl data

/-- The reader is told of the end of the body. -/
theorem Held.complete (h : Held max cap h2c i s rest l) (hl : Lives max s l) :
    ∃ l', Held max cap
        (if s.bodyReader then h2c.record s.streamId .readerComplete else h2c) i s rest l' ∧
      l'.phase = .accepted ∧ l'.handled = false ∧ Tied s l' ∧
      (l'.reader = .none ∨ l'.reader = .complete) := by
  obtain ⟨p, r, d⟩ := l
  obtain ⟨rfl, rfl, hsub, hreader, hroom⟩ := hl
  rcases hreader with ⟨hnone, rfl⟩ | ⟨hmade, n, rfl, -⟩
  · rw [hnone]
    exact ⟨⟨.accepted, .none, false⟩, h, rfl, rfl, .inl ⟨hnone, rfl⟩, .inl rfl⟩
  · rw [hmade]
    exact ⟨⟨.accepted, .complete, false⟩, h.record .readerComplete, rfl, rfl,
      .inr ⟨hmade, ReaderLife.noConfusion, ReaderLife.noConfusion⟩, .inr rfl⟩

theorem Held.respond (h : Held max cap h2c i s rest l) (hphase : l.phase = .accepted)
    (hhandled : l.handled = false)
    (hsub : s.responseSubmitted = false) (htied : Tied s l)
    (hready : l.reader = .none ∨ l.reader = .complete) :
    Good max cap (h2c.respond i s ans).state := by
  unfold KlHttp2ServerConn.respond
  split
  · obtain ⟨p, r, d⟩ := l
    cases hphase
    cases hhandled
    have hran : Held max cap _ i { s with res := ans.handler } rest ⟨.accepted, r, true⟩ :=
      (h.record (.handled hready)).write rfl
    exact hran.answer rfl hsub htied
  split
  · exact h.answerError hphase hsub htied _ _
  · exact h.answerError hphase hsub htied _ _

theorem Good.onStreamEnd (h : Good max cap h2c) (id : Nat) :
    Good max cap (h2c.onStreamEnd id ans).state := by
  unfold KlHttp2ServerConn.onStreamEnd
  split
  · exact h
  split
  · exact h
  next s hslot =>
  obtain ⟨rest, l, hheld, hl⟩ := h.held hslot
  obtain ⟨l', hended, hphase, hhandled, htied, hready⟩ := hheld.complete hl
  have hwritten : Held max cap _ _ { s with res := ans.postMiddleware.2 } rest l' :=
    hended.write rfl
  simp only
  split
  · exact hwritten.answer hphase hl.unanswered htied
  · exact hwritten.respond hphase hhandled hl.unanswered htied hready

/-- The slot that is found is the stream's. -/
theorem streamFind_some (h : h2c.streamFind id = some i) :
    ∃ s, h2c.streams[i]? = some s ∧ s.streamId = id := by
  obtain ⟨hi, hid, -⟩ := findIdx?_eq_some_iff_getElem.mp h
  exact ⟨h2c.streams[i], getElem?_eq_getElem hi, of_decide_eq_true hid⟩

/-- A stream that is not found is not in the table. -/
theorem streamFind_none (h : h2c.streamFind id = none) : id ∉ h2c.streams.map (·.streamId) := by
  intro hmem
  obtain ⟨s, hs, hid⟩ := mem_map.mp hmem
  have hnot := findIdx?_eq_none_iff.mp h s hs
  exact absurd hid (of_decide_eq_false hnot)

/-- A reset of a stream that is not in the table. -/
theorem Good.idleReset (h : Good max cap h2c) (hid : id ∉ h2c.streams.map (·.streamId)) :
    Good max cap (h2c.record id .reset) := by
  obtain ⟨l, hapart, hgone⟩ := h.sound.fresh hid
  exact ⟨h.maxBodySize, h.maxStreams, h.bound,
    (hapart.event (.resetIdle hgone.phase)).release hgone⟩

theorem Good.onStreamReset (h : Good max cap h2c) (id : Nat) :
    Good max cap (h2c.onStreamReset id).state := by
  unfold KlHttp2ServerConn.onStreamReset
  have hfind : (h2c.record id .reset).streamFind id = h2c.streamFind id := rfl
  have hstreams : (h2c.record id .reset).streams = h2c.streams := rfl
  simp only [hfind, hstreams]
  cases hi : h2c.streamFind id with
  | none => exact h.idleReset (streamFind_none hi)
  | some i =>
    obtain ⟨s, hslot, rfl⟩ := streamFind_some hi
    obtain ⟨rest, l, hheld, hl⟩ := h.held hslot
    obtain ⟨p, r, d⟩ := l
    obtain ⟨rfl, rfl, hsub, hreader, hroom⟩ := hl
    have hreset := hheld.record .reset
    simp only [hslot]
    rcases hreader with ⟨hnone, rfl⟩ | ⟨hmade, n, rfl, -⟩
    · rw [hnone]
      exact hreset.destroy rfl (.inl ⟨hnone, rfl⟩)
    · rw [hmade]
      exact (hreset.record .readerError).destroy rfl (tied_failed hmade rfl)

theorem Good.dropAll (h : Good max cap h2c) (n : Nat) :
    Good max cap (KlHttp2ServerConn.dropAll n h2c) := by
  induction n generalizing h2c with
  | zero => exact h
  | succ n ih =>
    unfold KlHttp2ServerConn.dropAll
    split
    · exact h
    next s hlast =>
    refine ih ?_
    have hslot : h2c.streams[h2c.streams.length - 1]? = some s := by
      rw [← getLast?_eq_getElem?, hlast]
    obtain ⟨rest, l, hheld, hl⟩ := h.held hslot
    obtain ⟨p, r, d⟩ := l
    have htied := hl.tied
    cases hl.phase
    exact (hheld.record .dropped).destroy rfl htied

/-! ## Runs -/

instance (h2c : KlHttp2ServerConn) (op : H2Op) : Decidable (Fresh h2c op) := by
  unfold Fresh
  split <;> exact inferInstance

/-- Runs in which the session starts each stream at most once. -/
def Session : Config KlHttp2ServerConn H2Op H2Frame Unit Int → Act H2Op Unit → Prop :=
  Machine.Guarded Fresh fun _ _ _ => True

instance (c : Config KlHttp2ServerConn H2Op H2Frame Unit Int) (a : Act H2Op Unit) :
    Decidable (Session c a) :=
  inferInstanceAs (Decidable (Machine.Guarded Fresh (fun _ _ _ => True) c a))

theorem good_preserved : Machine.Preserves machine Session fun _ h2c _ => Good max cap h2c where
  enter tr h2c st op h hfresh := by
    cases op with
    | onRequest id r ans => exact h.onRequest hfresh r
    | onData id data ans => exact h.onData id data
    | onStreamEnd id ans => exact h.onStreamEnd id
    | onStreamReset id => exact h.onStreamReset id
    | setUpgrading on => exact ⟨h.maxBodySize, h.maxStreams, h.bound, h.sound⟩
    | cleanup => exact h.dropAll _
  resume tr h2c st f v h _ := by
    cases f with
    | flush rc => exact h

/-- A connection as it is opened. -/
structure Opened (h2c : KlHttp2ServerConn) : Prop where
  streams : h2c.streams = []
  log : h2c.log = []

theorem Opened.good (h : Opened h2c) : Good h2c.maxBodySize h2c.maxStreams h2c := by
  refine ⟨rfl, rfl, ?_, ?_⟩
  · rw [h.streams]
    exact Nat.zero_le _
  · rw [h.streams, h.log]
    refine ⟨nodup_nil, fun s hs => absurd hs not_mem_nil, fun id _ => ⟨.start, .nil, ?_⟩⟩
    exact ⟨Phase.noConfusion, .inl rfl⟩

/-- The story of every stream is a history, and the table says where it has come to. -/
theorem Good.history (h : Good max cap h2c) (id : Nat) :
    ∃ l, Life.History max (story id h2c.log) l ∧
      ((id ∈ h2c.streams.map (·.streamId) ∧ l.phase = .accepted ∧
        (l.reader = .none ∨ ∃ n, l.reader = .reading n)) ∨
        (id ∉ h2c.streams.map (·.streamId) ∧ Gone l)) := by
  by_cases hid : id ∈ h2c.streams.map (·.streamId)
  · obtain ⟨s, hs, rfl⟩ := mem_map.mp hid
    obtain ⟨l, hist, hl⟩ := h.sound.live s hs
    refine ⟨l, hist, .inl ⟨hid, hl.phase, ?_⟩⟩
    rcases hl.reader with ⟨-, hr⟩ | ⟨-, n, hr, -⟩
    · exact .inl hr
    · exact .inr ⟨n, hr⟩
  · obtain ⟨l, hist, hl⟩ := h.sound.gone id hid
    exact ⟨l, hist, .inr ⟨hid, hl⟩⟩

/-- In every run of the session callbacks, with resets (or any other callback) from inside a
flush, in which the session starts each stream at most once: the streams in the table have
different numbers, there are not more of them than the limit, and they are exactly those that
were accepted and have not been answered or reset since. Each stream gets at most one response.
Its body reader is made at most once, is fed not more than a limit that is not 0, hears of the
end or of an error at most once and after its last data, and is destroyed once, when the stream
leaves the table. Its handler runs at most once, and not before the reader heard of the end.
Data for a stream that is not in the table changes nothing. -/
theorem stream_table {h2c : KlHttp2ServerConn} (hopen : Opened h2c)
    {c : Config KlHttp2ServerConn H2Op H2Frame Unit Int} (hc : machine.Reach Session h2c c) :
    (c.state.streams.map (·.streamId)).Nodup ∧ c.state.streams.length ≤ h2c.maxStreams ∧
    (∀ id, id ∈ c.state.streams.map (·.streamId) ↔ Life.Open (story id c.state.log)) ∧
    (∀ id, (story id c.state.log).countP (·.isSubmitted) ≤ 1) ∧
    (∀ id, ∃ r, Life.Used h2c.maxBodySize r ((story id c.state.log).filter (·.isReader)) ∧
      ((id ∈ c.state.streams.map (·.streamId) ∧ (r = .none ∨ ∃ n, r = .reading n)) ∨
        (id ∉ c.state.streams.map (·.streamId) ∧ (r = .none ∨ r = .destroyed)))) ∧
    (∀ id, (story id c.state.log).count .handled ≤ 1) ∧
    (∀ id pre post, story id c.state.log = pre ++ .handled :: post → .readerMade ∈ pre →
      .readerComplete ∈ pre) ∧
    (∀ id data ans, ¬Life.Open (story id c.state.log) →
      machine.enter (.onData id data ans) c.state = .done c.state 0) := by
  have hgood : Good h2c.maxBodySize h2c.maxStreams c.state := hc.invariant hopen.good good_preserved
  have hopened (id : Nat) : id ∈ c.state.streams.map (·.streamId) ↔
      Life.Open (story id c.state.log) := by
    obtain ⟨l, hist, ⟨hid, hphase, -⟩ | ⟨hid, hgone⟩⟩ := hgood.history id
    · exact ⟨fun _ => hist.accepted_iff.mp hphase, fun _ => hid⟩
    · exact ⟨fun hmem => absurd hmem hid, fun hopen =>
        absurd (hist.accepted_iff.mpr hopen) hgone.phase⟩
  refine ⟨hgood.sound.nodup, hgood.bound, hopened, fun id => ?_, fun id => ?_, fun id => ?_,
    fun id pre post heq hmade => ?_, ?_⟩
  · obtain ⟨l, hist, -⟩ := hgood.history id
    exact hist.submits.1
  · obtain ⟨l, hist, ⟨hid, -, hr⟩ | ⟨hid, hgone⟩⟩ := hgood.history id
    · exact ⟨l.reader, hist.used, .inl ⟨hid, hr⟩⟩
    · exact ⟨l.reader, hist.used, .inr ⟨hid, hgone.reader⟩⟩
  · obtain ⟨l, hist, -⟩ := hgood.history id
    rw [hist.handles]
    cases l.handled <;> decide
  · obtain ⟨l, hist, -⟩ := hgood.history id
    exact hist.handled_after heq hmade
  intro id data ans hnot
  have hfind : c.state.streamFind id = none := by
    cases hi : c.state.streamFind id with
    | none => rfl
    | some i =>
      obtain ⟨s, hslot, rfl⟩ := streamFind_some hi
      exact absurd ((hopened s.streamId).mp (mem_map_of_mem (mem_of_getElem? hslot))) hnot
  show c.state.onData id data ans = _
  unfold KlHttp2ServerConn.onData
  rw [hfind]

/-- A connection for two streams of up to 8 bytes, and a router that takes every request. -/
def twoStreams : KlHttp2ServerConn :=
  { streams := [], maxStreams := 2, maxBodySize := 8, router := fun _ _ => (200, some ⟨true, true⟩),
    upgrading := false, log := [] }

/-- Everything goes well, and the session has something to write. -/
def smooth : Answers :=
  { storage := true, responseInit := true, carry := true,
    middleware := (false, ⟨200, .none, false⟩), reader := true, takes := true,
    postMiddleware := (false, ⟨200, .none, false⟩), handler := ⟨200, .buffer [111, 107], false⟩,
      file := .short, submit := true,
    wantWrite := true }

def post : KlHttp2ServerConn.Reported :=
  { method := ascii "POST", path := ascii "/a", authority := [], headers := [] }

/-- Two streams; the answer of the first moves the second one, which is reset from inside the
flush. -/
theorem stream_table_two : ∃ c, machine.Reach Session twoStreams c ∧ c.state.streams = [] ∧
    c.stack = [.flush 0] ∧
      (story 1 c.state.log).countP (·.isSubmitted) ≤ 1 ∧
      story 3 c.state.log = [.requested, .accepted, .readerMade, .readerData [2], .reset,
        .readerError, .readerDestroyed] := by
  refine Machine.exists_reach [.call (.onRequest 1 post smooth), .call (.onRequest 3 post smooth),
    .call (.onData 1 [1] smooth),
    .call (.onData 3 [2] smooth), .call (.onStreamEnd 1 smooth), .call (.onStreamReset 3)]
      ⟨_, rfl, fun hc => ?_⟩
  exact ⟨rfl, rfl, (stream_table ⟨rfl, rfl⟩ hc).2.2.2.1 1, by decide⟩

end Http2
