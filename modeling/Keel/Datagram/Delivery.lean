-- SUMMARY: Received datagrams are delivered at most once, in order and unchanged.
import Keel.Datagram.Receive

/-!
# The receive contract

One invariant serves the three ways of driving the machine. It is stated over the
hooks called so far, the state and the stack, and over two summaries of the past:
`Snap d` says that the slot held `d` when a datagram was put aside, and `Over` that
the receive side was stopped before.
-/

open Reentrant List

namespace KlDgramRecv

/-! ## What a receive yields -/

/-- A datagram that may be delivered: it has a peer, and a view has its payload. -/
def Arrival.Proper : Arrival → Prop
  | .datagram f _ => f.peer ≠ .unspec
  | .view v => v.peer ≠ .unspec ∧ (0 < v.len → v.data ≠ none)
  | .failed => False

/-- The arguments `d` of the deliver hook are this datagram, for a slot of capacity `cap`. -/
def Arrival.Yields (cap : Nat) : Arrival → Delivery → Prop
  | .datagram f reported, d =>
    d.data = some f.data ∧ d.peer = f.peer ∧ d.len = min reported cap ∧
    (d.flags.truncated = true ↔ cap < reported ∨ f.flags.truncated = true) ∧
    (d.flags.hasLocal = true ↔ f.flags.hasLocal = true ∧ f.localAddr ≠ .unspec) ∧
    d.localAddr = if d.flags.hasLocal then some f.localAddr else none
  | .view v, d =>
    d.data = v.data ∧ d.peer = v.peer ∧ d.len = v.len ∧ d.flags = v.flags ∧
    d.localAddr = if v.flags.hasLocal then some v.localAddr else none
  | .failed, _ => False

/-- What `recv_finalize` leaves in the slot is what `recv_present` has to show. -/
theorem canonical_yields (r : KlDgramRecv) (f : Fill) (n : Nat) :
    (Arrival.datagram f n).Yields r.inbound.cap ((r.accept f n).canonical n).presented := by
  refine ⟨rfl, rfl, canonicalSlot_len _ n, canonicalSlot_truncated _ n, canonicalSlot_hasLocal _ n,
    ?_⟩
  by_cases h : (canonicalSlot (r.accept f n).inbound n).flags.hasLocal = true
  · calc ((r.accept f n).canonical n).presented.localAddr
        = some (canonicalSlot (r.accept f n).inbound n).localAddr := if_pos h
      _ = some f.localAddr := congrArg some (canonicalSlot_localAddr h)
      _ = _ := (if_pos h).symm
  · exact (if_neg h).trans (if_neg h).symm

theorem presentedView_yields (r : KlDgramRecv) (v : KlDgramRxView) (cap : Nat) :
    (Arrival.view v).Yields cap (r.presentedView v) :=
  ⟨rfl, rfl, rfl, rfl, rfl⟩

/-! ## Frames and hooks -/

def Frame.isPull : Frame → Bool
  | .pull _ | .viewPull _ _ => true
  | _ => false

def Frame.delivery : Frame → Option Delivery
  | .deliver d _ => some d
  | _ => none

/-- The deliveries made so far, in order. -/
def deliveries (hk : List Frame) : List Delivery := hk.filterMap Frame.delivery

@[simp] theorem deliveries_concat (hk : List Frame) (f : Frame) :
    deliveries (hk ++ [f]) = deliveries hk ++ f.delivery.toList := by
  cases h : f.delivery <;> simp [h, deliveries]

/-- No frame is inside a pull hook. -/
def NoPull (st : List Frame) : Prop := ∀ f ∈ st, f.isPull = false

/-! ## The invariant -/

section

variable (Snap : Delivery → Prop) (Over : Prop) (cap : Nat)

/-- The parts that do not depend on which hook is running. -/
structure Core (hk : List Frame) (r : KlDgramRecv) (st : List Frame) : Prop where
  armed : r.arming = true ↔ Frame.arm ∈ st
  armedOnce : st.count .arm ≤ 1
  /-- While the arm hook runs, a datagram is put aside only by an inline completion. -/
  inline : r.arming = true → r.completedInline = false → r.held = false
  holding : r.held = true →
    r.paused = true ∧ r.stopped = false ∧ r.recvInflight = false ∧ r.completion = true
  /-- A datagram put aside is the last one received, is still in the slot as it was
  then, and was not delivered. -/
  aside : r.held = true → Snap r.presented ∧ r.current + 1 = r.received.length ∧
    (∀ d ∈ deliveries hk, d.id < r.current) ∧
    ∃ a, r.received[r.current]? = some a ∧ a.Yields cap r.presented
  serial : r.viewPull = true → r.completion = false
  readiness : ∀ d k, Frame.deliver d k ∈ st → k ≠ .rearm → r.completion = false
  capacity : r.inbound.cap = cap
  ordered : (deliveries hk).Pairwise (·.id < ·.id)
  earlier : ∀ d ∈ deliveries hk, d.id < r.received.length
  content : ∀ d ∈ deliveries hk, ∃ a, r.received[d.id]? = some a ∧ a.Proper ∧ a.Yields cap d
  improper : (∃ a ∈ r.received, ¬ a.Proper) → r.stopped = true
  failing : r.error = true → r.stopped = true
  finished : Over → r.stopped = true

/-- The whole invariant: only the innermost hook can be a pull, and then nothing has
paused or stopped the machine since the loop looked. -/
structure Inv (hk : List Frame) (r : KlDgramRecv) (st : List Frame) : Prop
    extends Core Snap Over cap hk r st where
  pulling : ∀ f rest, st = f :: rest → NoPull rest ∧
    (f.isPull = true → r.completion = false ∧ r.paused = false ∧ r.stopped = false)

/-- The invariant after a stretch that ends with `o`, above the frames `st`. -/
structure After (hk st : List Frame) (o : ROut) : Prop where
  inv : Inv Snap Over cap (hk ++ o.hook.toList) o.state (o.stack st)
  quiet : ∀ d k, o.hook = some (.deliver d k) → o.state.paused = false ∧ o.state.stopped = false

end

variable {Snap : Delivery → Prop} {Over : Prop} {cap : Nat} {hk st : List Frame} {r : KlDgramRecv}

/-- What the code between two hooks mostly leaves alone. -/
structure Alike (r r' : KlDgramRecv) : Prop where
  arming : r'.arming = r.arming
  completion : r'.completion = r.completion
  viewPull : r'.viewPull = r.viewPull
  capacity : r'.inbound.cap = r.inbound.cap

theorem NoPull.pulling (h : NoPull st) {f : Frame} {rest : List Frame} (hst : st = f :: rest) :
    NoPull rest ∧ (f.isPull = true → r.completion = false ∧ r.paused = false ∧
      r.stopped = false) := by
  subst hst
  refine ⟨fun g hg => h g (mem_cons_of_mem f hg), fun hf => ?_⟩
  rw [h f mem_cons_self] at hf
  cases hf

theorem After.done (h : Core Snap Over cap hk r st) (hp : NoPull st) (ret : Int) :
    After Snap Over cap hk st (.done r ret) where
  inv := { (by simpa using h : Core Snap Over cap (hk ++ _) r st) with
    pulling := fun _ _ hst => hp.pulling hst }
  quiet := by simp

/-! ## Updates that keep it -/

namespace Core

/-- The frame of a hook other than `arm` carries nothing. -/
theorem pop {f : Frame} (h : Core Snap Over cap hk r (f :: st)) (hf : f ≠ .arm) :
    Core Snap Over cap hk r st :=
  { h with
    armed := h.armed.trans (by simp [hf.symm])
    readiness := fun d k hd => h.readiness d k (mem_cons_of_mem f hd)
    armedOnce := Nat.le_trans count_le_count_cons h.armedOnce }

section

variable (h : Core Snap Over cap hk r st)
include h

/-- Neither does a hook that delivers nothing. -/
theorem push {f : Frame} (hf : f ≠ .arm) (hd : f.delivery = none) :
    Core Snap Over cap (hk ++ [f]) r (f :: st) := by
  have hdel : deliveries (hk ++ [f]) = deliveries hk := by simp [hd]
  exact { h with
    armed := h.armed.trans (by simp [hf.symm])
    readiness := fun d k hmem => by
      rcases mem_cons.mp hmem with rfl | hmem
      · cases hd
      · exact h.readiness d k hmem
    armedOnce := by simpa [count_cons, hf] using h.armedOnce
    aside := by rw [hdel]; exact h.aside
    ordered := by rw [hdel]; exact h.ordered
    earlier := by rw [hdel]; exact h.earlier
    content := by rw [hdel]; exact h.content }

theorem setStarted : Core Snap Over cap hk r.setStarted st := { h with }

/-- Only a completion machine puts a datagram aside. -/
theorem not_held (hc : r.completion = false) : r.held = false := by
  cases hh : r.held with
  | false => rfl
  | true => simpa [hc] using (h.holding hh).2.2.2

theorem deferArm : Core Snap Over cap hk r.deferArm st := { h with }

theorem retire : Core Snap Over cap hk r.retire st :=
  { h with holding := fun hh => ⟨(h.holding hh).1, (h.holding hh).2.1, rfl, (h.holding hh).2.2.2⟩ }

theorem pause : Core Snap Over cap hk (r.setPaused true) st :=
  { h with holding := fun hh => ⟨rfl, (h.holding hh).2⟩ }

/-- Nothing is put aside. -/
theorem unpause (hh : r.held = false) : Core Snap Over cap hk (r.setPaused false) st :=
  { h with holding := fun hh' => by simp [hh] at hh' }

theorem resetInbound (hh : r.held = false) : Core Snap Over cap hk r.resetInbound st :=
  { h with aside := fun hh' => by simp [hh] at hh' }

end

variable {r' : KlDgramRecv}

/-- The record grows at its end only. -/
theorem kept {l : List Arrival} (h : Core Snap Over cap hk r st)
    (hr : r'.received = r.received ++ l) (d : Delivery) (hd : d ∈ deliveries hk) :
    d.id < r'.received.length ∧ ∃ a, r'.received[d.id]? = some a ∧ a.Proper ∧ a.Yields cap d := by
  obtain ⟨a, ha, hp⟩ := h.content d hd
  have hlt := h.earlier d hd
  rw [hr, getElem?_append_left hlt, length_append]
  exact ⟨by omega, a, ha, hp⟩

/-- The receive side stops, after a receive that may have failed. -/
theorem stop (h : Core Snap Over cap hk r st) (hr' : Alike r r')
    (l : List Arrival) (hr : r'.received = r.received ++ l) (hh : r'.held = false)
    (hs : r'.stopped = true) : Core Snap Over cap hk r' st where
  armed := by rw [hr'.arming]; exact h.armed
  __ := h
  inline := fun _ _ => hh
  holding := fun hh' => by simp [hh] at hh'
  aside := fun hh' => by simp [hh] at hh'
  serial := by rw [hr'.viewPull, hr'.completion]; exact h.serial
  readiness := by rw [hr'.completion]; exact h.readiness
  capacity := by rw [hr'.capacity]; exact h.capacity
  earlier := fun d hd => (h.kept hr d hd).1
  content := fun d hd => (h.kept hr d hd).2
  improper := fun _ => hs
  failing := fun _ => hs
  finished := fun _ => hs

/-- One more datagram was received, and is not put aside. -/
theorem grow {a : Arrival} (h : Core Snap Over cap hk r st) (hr' : Alike r r')
    (hr : r'.received = r.received ++ [a]) (ha : a.Proper) (hh : r'.held = false)
    (hs : r'.stopped = r.stopped) (he : r'.error = r.error) : Core Snap Over cap hk r' st where
  armed := by rw [hr'.arming]; exact h.armed
  __ := h
  inline := fun _ _ => hh
  holding := fun hh' => by simp [hh] at hh'
  aside := fun hh' => by simp [hh] at hh'
  serial := by rw [hr'.viewPull, hr'.completion]; exact h.serial
  readiness := by rw [hr'.completion]; exact h.readiness
  capacity := by rw [hr'.capacity]; exact h.capacity
  earlier := fun d hd => (h.kept hr d hd).1
  content := fun d hd => (h.kept hr d hd).2
  improper := by
    rintro ⟨b, hb, hbad⟩
    rw [hr, mem_append, mem_singleton] at hb
    rcases hb with hb | rfl
    · exact hs.trans (h.improper ⟨b, hb, hbad⟩)
    · exact absurd ha hbad
  failing := by rw [hs, he]; exact h.failing
  finished := by rw [hs]; exact h.finished

end Core

/-! ## Hook calls -/

section

variable (h : Core Snap Over cap hk r st)
include h

/-- A hook other than `arm` and `deliver` is called. -/
theorem Core.call {f : Frame} (hp : NoPull st) (hf : f ≠ .arm) (hd : f.delivery = none)
    (hq : f.isPull = true → r.completion = false ∧ r.paused = false ∧ r.stopped = false) :
    After Snap Over cap hk st (.call r f) where
  inv := { h.push hf hd with
    pulling := fun g rest hst => by
      obtain ⟨rfl, rfl⟩ := cons.inj hst
      exact ⟨hp, hq⟩ }
  quiet := fun d k hdel => by
    cases hdel
    cases hd

/-- The arm hook is called, on a clean slot. -/
theorem Core.callArm (hp : NoPull st) (ha : r.arming = false)
    (hh : r.held = false) : After Snap Over cap hk st (.call r.beginArm .arm) := by
  have hno : Frame.arm ∉ st := fun hmem => by simp [h.armed.mpr hmem] at ha
  refine ⟨{ h.resetInbound hh with
    armed := by simp
    armedOnce := by simp [count_eq_zero_of_not_mem hno]
    readiness := by simpa using h.readiness
    inline := fun _ _ => hh
    holding := fun hh' => by simp [hh] at hh'
    aside := fun hh' => by simp [hh] at hh'
    ordered := by simpa [Frame.delivery] using h.ordered
    earlier := by simpa [Frame.delivery] using h.earlier
    content := by simpa [Frame.delivery] using h.content
    pulling := fun g rest hst => by
      obtain ⟨rfl, rfl⟩ := cons.inj hst
      exact ⟨hp, nofun⟩ }, nofun⟩

/-- The deliver hook is called with the datagram `a`, newer than all delivered before. -/
theorem Core.callDeliver {d : Delivery} {k : DeliverK} {a : Arrival} (hp : NoPull st)
    (hh : r.held = false)
    (hnew : ∀ e ∈ deliveries hk, e.id < d.id) (ha : r.received[d.id]? = some a)
    (hproper : a.Proper) (hy : a.Yields cap d) (hq : r.paused = false) (hs : r.stopped = false)
    (hk' : k ≠ .rearm → r.completion = false) :
    After Snap Over cap hk st (.call r (.deliver d k)) := by
  have hdel : deliveries (hk ++ [.deliver d k]) = deliveries hk ++ [d] := by simp [Frame.delivery]
  refine ⟨{ h with
    armed := h.armed.trans (by simp)
    armedOnce := by simpa [count_cons] using h.armedOnce
    readiness := fun d' k' hmem => by
      rcases mem_cons.mp hmem with heq | hmem
      · obtain ⟨rfl, rfl⟩ := Frame.deliver.inj heq
        exact hk'
      · exact h.readiness d' k' hmem
    aside := fun hh' => by simp [hh] at hh'
    ordered := ?_
    earlier := ?_
    content := ?_
    pulling := fun g rest hst => by
      obtain ⟨rfl, rfl⟩ := cons.inj hst
      exact ⟨hp, nofun⟩ }, fun _ _ _ => ⟨hq, hs⟩⟩
  · simp only [Out.hook_call, Option.toList_some, hdel, pairwise_append]
    exact ⟨h.ordered, by simp, by simpa using hnew⟩
  · simp only [Out.hook_call, Option.toList_some, hdel, forall_mem_append]
    refine ⟨h.earlier, ?_⟩
    simpa using (List.getElem?_eq_some_iff.mp ha).1
  · simp only [Out.hook_call, Option.toList_some, hdel, forall_mem_append]
    exact ⟨h.content, by simpa using ⟨a, ha, hproper, hy⟩⟩

/-! ## Functions -/

theorem Core.armLoop (hp : NoPull st) (ha : r.arming = false) :
    After Snap Over cap hk st r.armLoop := by
  unfold KlDgramRecv.armLoop
  split
  · exact .done h hp 0
  next hgo =>
    simp only [Bool.or_eq_true, not_or, Bool.not_eq_true] at hgo
    exact h.callArm hp ha hgo.2

theorem Core.recvArm (hp : NoPull st) : After Snap Over cap hk st r.recvArm := by
  unfold KlDgramRecv.recvArm
  split
  · exact .done h.deferArm hp 0
  next ha => exact h.armLoop hp (by simpa using ha)

end

theorem Core.armReturned (h : Core Snap Over cap hk r (.arm :: st)) (hp : NoPull st) (rc : Int) :
    After Snap Over cap hk st (r.armReturned rc) := by
  have harming : r.arming = true := h.armed.mpr mem_cons_self
  have hno : Frame.arm ∉ st := by
    have := h.armedOnce
    rw [count_cons_self] at this
    exact count_eq_zero.mp (by omega)
  have hend : Core Snap Over cap hk r.endArm st := { h with
    armed := by simpa using hno
    armedOnce := by simp [count_eq_zero_of_not_mem hno]
    readiness := fun d k hd => h.readiness d k (mem_cons_of_mem _ hd)
    inline := nofun }
  unfold KlDgramRecv.armReturned
  split
  · split
    · exact hend.armLoop hp rfl
    · exact .done hend hp 0
  next hinline =>
    split
    · have hheld := h.inline harming (by simpa using hinline)
      have hfailed : Core Snap Over cap hk r.armFailed st :=
        hend.stop ⟨rfl, rfl, rfl, rfl⟩ [] (by simp) hheld rfl
      exact .done hfailed hp (-1)
    · exact .done hend hp 0

theorem Core.continueAfter (h : Core Snap Over cap hk r st) (hp : NoPull st) :
    After Snap Over cap hk st r.continueAfter := by
  unfold KlDgramRecv.continueAfter
  split_ifs
  · exact .done h hp 0
  · exact .done h hp 0
  · exact h.recvArm hp

variable {r' : KlDgramRecv} {tr : List RStep}

section

variable (h : Core Snap Over cap hk r st)
include h

/-- `recv_fail` after a receive that is recorded as `l`. -/
theorem Core.recvFail (hp : NoPull st)
    (hr' : Alike r r') (l : List Arrival) (hr : r'.received = r.received ++ l) :
    After Snap Over cap hk st r'.recvFail := by
  have hfailed : Core Snap Over cap hk r'.failed st := h.stop { hr' with } l hr rfl rfl
  unfold KlDgramRecv.recvFail
  split
  · exact hfailed.call hp nofun rfl nofun
  · exact .done hfailed hp (-1)

theorem Core.readLoop (hp : NoPull st)
    (hc : r.completion = false) (budget : Nat) : After Snap Over cap hk st (r.readLoop budget) := by
  have hheld := h.not_held hc
  unfold KlDgramRecv.readLoop
  split
  next hgo =>
    simp only [Bool.and_eq_true, Bool.not_eq_true', decide_eq_true_eq] at hgo
    exact (h.resetInbound hheld).call hp nofun rfl (fun _ => ⟨hc, hgo.1.1.1, hgo.1.1.2⟩)
  · exact .done h hp 0

variable {f : Fill} {n : Nat}

/-- `recv_finalize` after the receive of `f`, whose length is reported as `n`. -/
theorem Core.finish {next : KlDgramRecv → ROut} (hp : NoPull st)
    (hr' : Alike r r') (hr : r'.received = r.received)
    (hnext : f.peer ≠ .unspec → After Snap Over cap hk st (next ((r'.accept f n).canonical n))) :
    After Snap Over cap hk st ((r'.accept f n).finish n next) := by
  unfold KlDgramRecv.finish finalize
  by_cases hpeer : f.peer = .unspec
  · simp only [accept, hpeer, if_true]
    exact h.recvFail hp { hr' with } [.datagram f n] (by simp [hr])
  · simp only [accept, hpeer, if_false]
    exact hnext hpeer

/-- The slot is delivered as soon as it is finalized. -/
theorem Core.present
    (hp : NoPull st) (hr' : Alike r r') (hr : r'.received = r.received) (hh : r'.held = false)
    (hs : r'.stopped = r.stopped) (he : r'.error = r.error) (hpeer : f.peer ≠ .unspec)
    (hq : r'.paused = false) (hrun : r.stopped = false) (k : DeliverK)
    (hk' : k ≠ .rearm → r.completion = false) :
    After Snap Over cap hk st (((r'.accept f n).canonical n).present k) := by
  have hgrow : Core Snap Over cap hk ((r'.accept f n).canonical n) st :=
    h.grow { hr' with } (show _ = r.received ++ [.datagram f n] by simp [hr]) hpeer hh hs he
  have hlast : (r'.received ++ [Arrival.datagram f n])[r'.received.length]? =
      some (.datagram f n) := by
    simp
  have hy := canonical_yields r' f n
  rw [hr'.capacity, h.capacity] at hy
  have hnew : ∀ d ∈ deliveries hk, d.id < r'.received.length := by
    rw [hr]
    exact h.earlier
  exact hgrow.callDeliver hp hh hnew hlast hpeer hy hq (hs.trans hrun)
    (fun hne => hr'.completion.trans (hk' hne))

/-- Or it is put aside. -/
theorem Core.hold (hr' : Alike r r') (hr : r'.received = r.received) (hs : r'.stopped = r.stopped)
    (he : r'.error = r.error) (hpeer : f.peer ≠ .unspec)
    (hinl : r'.arming = true → r'.completedInline = true)
    (hq : r'.paused = true) (hrun : r.stopped = false) (hin : r'.recvInflight = false)
    (hc : r.completion = true) (hsnap : ∀ d, Snap d) :
    Core Snap Over cap hk ((r'.accept f n).canonical n).hold st := by
  have hgrow : Core Snap Over cap hk (((r'.accept f n).canonical n).unhold) st :=
    h.grow { hr' with } (show _ = r.received ++ [.datagram f n] by simp [hr]) hpeer rfl hs he
  have hy := canonical_yields r' f n
  rw [hr'.capacity, h.capacity] at hy
  have hnew : ∀ d ∈ deliveries hk, d.id < r'.received.length := by
    rw [hr]
    exact h.earlier
  exact { hgrow with
    inline := fun ha hno => by simp [hinl ha] at hno
    holding := fun _ => ⟨hq, hs.trans hrun, hin, hr'.completion.trans hc⟩
    aside := fun _ => ⟨hsnap _, by simp, hnew, _, by simp, hy⟩ }

section

variable (hp : NoPull st)
include hp

theorem Core.pullReturned (hc : r.completion = false) (hq : r.paused = false)
    (hrun : r.stopped = false) (budget : Nat)
    (a : Answer) : After Snap Over cap hk st (r.pullReturned budget a) := by
  have hheld := h.not_held hc
  unfold KlDgramRecv.pullReturned
  split
  · exact .done h hp 0
  split
  · exact h.recvFail hp ⟨rfl, rfl, rfl, rfl⟩ [.failed] rfl
  · refine h.finish hp ⟨rfl, rfl, rfl, rfl⟩ rfl (fun hpeer => ?_)
    exact h.present hp ⟨rfl, rfl, rfl, rfl⟩ rfl hheld rfl rfl hpeer hq hrun _ (fun _ => hc)

theorem Core.viewDrained (allowRefill : Bool) :
    After Snap Over cap hk st (r.viewDrained allowRefill) := by
  unfold KlDgramRecv.viewDrained
  split
  · exact .done h hp 0
  split
  · exact h.recvArm hp
  · exact .done h hp 0

theorem Core.driveView (hc : r.completion = false) (budget : Nat) (allowRefill : Bool) :
    After Snap Over cap hk st (r.driveView budget allowRefill) := by
  unfold KlDgramRecv.driveView
  split
  next hgo =>
    simp only [Bool.and_eq_true, Bool.not_eq_true'] at hgo
    exact h.call hp nofun rfl (fun _ => ⟨hc, hgo⟩)
  · exact h.viewDrained hp allowRefill

theorem Core.presentView
    (hc : r.completion = false) (hq : r.paused = false) (hrun : r.stopped = false)
    (v : KlDgramRxView) (k : DeliverK) : After Snap Over cap hk st (r.presentView v k) := by
  unfold KlDgramRecv.presentView
  split
  · exact h.recvFail hp ⟨rfl, rfl, rfl, rfl⟩ [.view v] rfl
  next hpeer =>
    split
    · exact h.recvFail hp ⟨rfl, rfl, rfl, rfl⟩ [.view v] rfl
    next hdata =>
      have hproper : (Arrival.view v).Proper := ⟨hpeer, fun hlen hnone => hdata ⟨hlen, hnone⟩⟩
      have hgrow : Core Snap Over cap hk (r.acceptView v) st :=
        h.grow ⟨rfl, rfl, rfl, rfl⟩ rfl hproper (h.not_held hc) rfl rfl
      exact hgrow.callDeliver hp (h.not_held hc) h.earlier (by simp [presentedView]) hproper
        (presentedView_yields r v cap) hq hrun (fun _ => hc)

theorem Core.viewPullReturned (hc : r.completion = false) (hq : r.paused = false)
    (hrun : r.stopped = false) (budget : Nat) (allowRefill : Bool) (a : Answer) :
    After Snap Over cap hk st (r.viewPullReturned budget allowRefill a) := by
  unfold KlDgramRecv.viewPullReturned
  split
  · exact h.viewDrained hp allowRefill
  split
  · exact h.recvFail hp ⟨rfl, rfl, rfl, rfl⟩ [.failed] rfl
  · exact h.presentView hp hc hq hrun a.view _

/-! ## Entry points -/

theorem Core.start : After Snap Over cap hk st r.start := by
  unfold KlDgramRecv.start
  split
  · exact .done h.setStarted hp 0
  · exact h.setStarted.recvArm hp

/-- A completion finds nothing put aside, so that it may put its own datagram aside. -/
theorem Core.onComplete (hc : r.completion = true) (hsnap : r.held = false → ∀ d, Snap d) (f : Fill)
    (n : Nat) (ok : Bool) : After Snap Over cap hk st (r.onComplete f n ok) := by
  unfold KlDgramRecv.onComplete
  split
  · exact .done h hp 0
  next hin =>
    have hheld : r.held = false := by
      cases hh : r.held with
      | false => rfl
      | true => simp [(h.holding hh).2.2.1] at hin
    split
    next hs =>
      cases ok with
      | false =>
        have hlate : Core Snap Over cap hk (r.completed.arrive f n false) st :=
          h.stop ⟨rfl, rfl, rfl, rfl⟩ [.failed] rfl hheld hs
        exact .done hlate hp 0
      | true =>
        have hlate : Core Snap Over cap hk (r.completed.arrive f n true) st :=
          h.stop ⟨rfl, rfl, rfl, rfl⟩ [.datagram f n] rfl hheld hs
        exact .done hlate hp 0
    next hrun =>
      have hrun : r.stopped = false := by simpa using hrun
      split
      · exact h.recvFail hp ⟨rfl, rfl, rfl, rfl⟩ [.failed] rfl
      have hlike : Alike r r.completed := ⟨rfl, rfl, rfl, rfl⟩
      refine h.finish hp hlike rfl (fun hpeer => ?_)
      unfold holdOrDeliver
      split
      next hq =>
        exact .done (h.hold hlike rfl rfl rfl hpeer (fun ha => by simp_all) hq hrun rfl hc
          (hsnap hheld)) hp 0
      next hq => exact h.present hp hlike rfl hheld rfl rfl hpeer (by simpa using hq) hrun _ nofun

theorem Core.onReadable : After Snap Over cap hk st r.onReadable := by
  unfold KlDgramRecv.onReadable
  split
  · exact .done h hp (-1)
  next hc =>
    have hc : r.completion = false := by simpa using hc
    split
    · exact .done h hp 0
    split
    · exact h.driveView hp hc budget true
    · exact h.readLoop hp hc budget

theorem Core.pauseOp : After Snap Over cap hk st (KlDgramRecv.pause r) := by
  unfold KlDgramRecv.pause
  split
  · exact .done h hp 0
  split
  · exact h.pause.call hp nofun rfl nofun
  · exact .done h.pause hp 0

/-- The datagram put aside goes out first. -/
theorem Core.resumeHeld (hh : r.held = true) :
    After Snap Over cap hk st ((r.setPaused false).unhold.present .rearm) := by
  obtain ⟨-, hlen, hnew, a, ha, hy⟩ := h.aside hh
  obtain ⟨-, hrun, -, -⟩ := h.holding hh
  have hproper : a.Proper := by
    by_contra hbad
    have := h.improper ⟨a, mem_of_getElem? ha, hbad⟩
    simp [hrun] at this
  have hfree : Core Snap Over cap hk (r.setPaused false).unhold st :=
    { h with inline := fun _ _ => rfl, holding := nofun, aside := nofun }
  exact hfree.callDeliver hp rfl hnew ha hproper hy rfl hrun nofun

theorem Core.resumeOp : After Snap Over cap hk st (KlDgramRecv.resume r) := by
  unfold resume
  split
  · exact .done h hp 0
  split
  next hs =>
    have hheld : r.held = false := by
      cases hh : r.held with
      | false => rfl
      | true => simp [(h.holding hh).2.1] at hs
    exact .done (h.unpause hheld) hp 0
  split
  next hv =>
    have hc := h.serial hv
    exact (h.unpause (h.not_held hc)).driveView hp hc budget false
  split
  next hh => exact h.resumeHeld hp hh
  next hh =>
    have hun := h.unpause (by simpa using hh)
    split
    · exact .done hun hp 0
    · exact hun.recvArm hp

theorem Core.stopOp : After Snap Over cap hk st (KlDgramRecv.stop r) := by
  have hstop : Core Snap Over cap hk r.setStopped st :=
    h.stop ⟨rfl, rfl, rfl, rfl⟩ [] (by simp) rfl rfl
  unfold KlDgramRecv.stop
  split
  · exact .done h hp 0
  split_ifs
  · exact hstop.call hp nofun rfl nofun
  · exact .done hstop.retire hp 0
  · exact .done hstop hp 0

theorem Core.delivered (k : DeliverK) (hc : k ≠ .rearm → r.completion = false) :
    After Snap Over cap hk st (r.delivered k) := by
  cases k with
  | rearm => exact h.continueAfter hp
  | readable b => exact h.readLoop hp (hc nofun) b
  | view b refill => exact h.driveView hp (hc nofun) b refill

end

end

/-! ## Runs -/

/-- A completion arrives only where receives are posted. -/
def Op.isComplete : Op → Bool
  | .onComplete _ _ _ => true
  | _ => false

/-- How the machine may be driven: every hook and callback may call it, except that a
pull hook only hands over a datagram, and completions are for the completion model. -/
def Driven (c : RConfig) : RAct → Prop
  | .call op =>
    (∀ f ∈ c.stack.head?, f.isPull = false) ∧ (op.isComplete = true → c.state.completion = true)
  | .ret _ => True

instance (c : RConfig) (a : RAct) : Decidable (Driven c a) := by
  unfold Driven
  split <;> exact inferInstance

/-- A datagram was put aside when the slot showed `d`. -/
def Snapped (tr : List RStep) (d : Delivery) : Prop :=
  ∃ x ∈ tr, x.pre.held = false ∧ x.out.state.held = true ∧ x.out.state.presented = d

/-- The receive side was stopped, or was found stopped or failed after a stretch. -/
def Ended (tr : List RStep) : Prop :=
  ∃ x ∈ tr, x.cause = .enter .stop ∨ x.out.state.stopped = true ∨ x.out.state.error = true

/-- Deliveries are made only while the machine is neither paused nor stopped. -/
def Quiet (tr : List RStep) : Prop :=
  ∀ x ∈ tr, ∀ d k, x.out.hook = some (.deliver d k) →
    x.out.state.paused = false ∧ x.out.state.stopped = false

/-- The invariant of whole runs. -/
def RunInv (cap : Nat) (tr : List RStep) (r : KlDgramRecv) (st : List Frame) : Prop :=
  Inv (Snapped tr) (Ended tr) cap (hooks tr) r st ∧ Quiet tr

/-- What is known of the past when the next stretch starts in `r`. -/
def snapOr (tr : List RStep) (r : KlDgramRecv) (d : Delivery) : Prop :=
  Snapped tr d ∨ r.held = false

theorem Core.weaken (h : Core (Snapped tr) Over cap hk r st) :
    Core (snapOr tr r) Over cap hk r st :=
  { h with aside := fun hh => ⟨.inl (h.aside hh).1, (h.aside hh).2⟩ }

/-- A stretch becomes part of the past. -/
theorem After.extend {o : ROut} {cause : Cause Op Frame Answer}
    (h : After (snapOr tr r) (Ended tr) cap (hooks tr) st o) (hquiet : Quiet tr)
    (hstop : cause = .enter .stop → o.state.stopped = true) :
    RunInv cap (tr ++ [⟨r, cause, o⟩]) o.state (o.stack st) := by
  refine ⟨?_, ?_⟩
  · rw [hooks_append]
    refine { h.inv with aside := fun hh => ⟨?_, (h.inv.aside hh).2⟩, finished := ?_ }
    · rcases (h.inv.aside hh).1 with ⟨x, hx, hsnap⟩ | hfree
      · exact ⟨x, mem_append_left _ hx, hsnap⟩
      · exact ⟨_, mem_append_right _ mem_cons_self, hfree, hh, rfl⟩
    · rintro ⟨x, hx, hend⟩
      rcases mem_append.mp hx with hx | hx
      · exact h.inv.finished ⟨x, hx, hend⟩
      rw [mem_singleton.mp hx] at hend
      rcases hend with hend | hend | hend
      · exact hstop hend
      · exact hend
      · exact h.inv.failing hend
  · intro x hx
    rcases mem_append.mp hx with hx | hx
    · exact hquiet x hx
    · rw [mem_singleton.mp hx]
      exact h.quiet

theorem Inv.enter (h : Inv (Snapped tr) (Ended tr) cap (hooks tr) r st) (op : Op)
    (hd : Driven ⟨r, st, tr⟩ (.call op)) :
    After (snapOr tr r) (Ended tr) cap (hooks tr) st (machine.enter op r) := by
  have hc := h.toCore.weaken
  have hp : NoPull st := by
    intro f hf
    cases st with
    | nil => cases hf
    | cons g rest =>
      rcases mem_cons.mp hf with rfl | hf
      · exact hd.1 f (by simp)
      · exact (h.pulling g rest rfl).1 f hf
  cases op with
  | start => exact hc.start hp
  | onComplete f n ok => exact hc.onComplete hp (hd.2 rfl) (fun hh d => .inr hh) f n ok
  | onReadable => exact hc.onReadable hp
  | pause => exact hc.pauseOp hp
  | resume => exact hc.resumeOp hp
  | stop => exact hc.stopOp hp

theorem Inv.afterHook {f : Frame}
    (h : Inv (Snapped tr) (Ended tr) cap (hooks tr) r (f :: st)) (a : Answer) :
    After (snapOr tr r) (Ended tr) cap (hooks tr) st (machine.resume f a r) := by
  have hc := h.toCore.weaken
  obtain ⟨hp, hq⟩ := h.pulling f st rfl
  cases f with
  | arm => exact hc.armReturned hp a.r
  | disarm ret => exact .done (hc.pop nofun).retire hp ret
  | pull b =>
    obtain ⟨hcompl, hpaused, hrun⟩ := hq rfl
    exact (hc.pop nofun).pullReturned hp hcompl hpaused hrun b a
  | viewPull b refill =>
    obtain ⟨hcompl, hpaused, hrun⟩ := hq rfl
    exact (hc.pop nofun).viewPullReturned hp hcompl hpaused hrun b refill a
  | deliver d k => exact (hc.pop nofun).delivered hp k (hc.readiness d k mem_cons_self)

theorem runInv_preserves (cap : Nat) : Machine.Preserves machine Driven (RunInv cap) where
  enter tr r st op h hd := (h.1.enter op hd).extend h.2 fun heq => by
    cases heq
    exact stop_stopped r
  resume tr r st f a h _ := (h.1.afterHook a).extend h.2 nofun

/-- The three ways of driving the machine. -/
inductive Mode where
  | completion
  | serial
  | view
deriving DecidableEq, Repr

/-- The machine as it is wired before its first receive. -/
def setup (slot : KlDgramSlot) : Mode → Option KlDgramRecv
  | .completion => init slot true
  | .serial => init slot false
  | .view => (init slot false).map setViewPull

theorem setup_inv {slot : KlDgramSlot} {m : Mode} {r₀ : KlDgramRecv} (h : setup slot m = some r₀) :
    RunInv slot.cap [] r₀ [] := by
  have hr : r₀ = { inbound := slot, completion := m == .completion, viewPull := m == .view } := by
    cases m <;> simp only [setup, init] at h <;> split at h <;> cases h <;> rfl
  subst hr
  exact ⟨{
    armed := by simp
    armedOnce := by simp
    inline := nofun
    holding := nofun
    aside := nofun
    serial := by cases m <;> simp
    readiness := by simp
    capacity := rfl
    ordered := .nil
    earlier := nofun
    content := nofun
    improper := by rintro ⟨a, ha, -⟩; cases ha
    failing := nofun
    finished := by rintro ⟨x, hx, -⟩; cases hx
    pulling := by simp }, by simp [Quiet]⟩

/-- The receive contract. Deliveries follow the order of arrival and none is repeated.
Each shows a received datagram as it came in, with its length cut to the slot and marked
when it was cut. At a delivery the machine is not paused, was never stopped and never
failed. A datagram that is put aside is the next one delivered by a resume, with the
arguments the slot showed when it was put aside. -/
theorem receive_contract {slot : KlDgramSlot} {m : Mode} {r₀ : KlDgramRecv} {c : RConfig}
    (hinit : setup slot m = some r₀) (hc : machine.Reach Driven r₀ c) :
    (deliveries (hooks c.trace)).Pairwise (·.id < ·.id) ∧
    (∀ d ∈ deliveries (hooks c.trace),
      ∃ a, c.state.received[d.id]? = some a ∧ a.Proper ∧ a.Yields slot.cap d) ∧
    (∀ d k, c.calling = some (.deliver d k) → c.state.paused = false ∧
      (∀ x ∈ c.trace, x.cause ≠ .enter .stop ∧ x.out.state.stopped = false ∧
        x.out.state.error = false) ∧
      (∀ a ∈ c.state.received, a.Proper)) ∧
    (c.state.held = true → ∃ r d, machine.enter .resume c.state = .call r (.deliver d .rearm) ∧
      (∀ e ∈ deliveries (hooks c.trace), e.id < d.id) ∧
      (∃ a, c.state.received[d.id]? = some a ∧ a.Yields slot.cap d) ∧
      ∃ x ∈ c.trace, x.pre.held = false ∧ x.out.state.held = true ∧ x.out.state.presented = d) := by
  obtain ⟨hinv, hquiet⟩ := hc.invariant (setup_inv hinit) (runInv_preserves slot.cap)
  refine ⟨hinv.ordered, hinv.content, ?_, ?_⟩
  · intro d k hcall
    obtain ⟨x, hx, hdel⟩ := Option.bind_eq_some_iff.mp hcall
    have hxmem := mem_of_getLast? hx
    obtain ⟨hpaused, hrun⟩ := hquiet x hxmem d k hdel
    rw [← hc.state_of_last hx] at hpaused hrun
    refine ⟨hpaused, fun y hy => ?_, fun a ha => ?_⟩
    · have hnot : ¬ Ended c.trace := fun hend => by simp [hinv.finished hend] at hrun
      simp only [Ended, not_exists, not_and, not_or, Bool.not_eq_true] at hnot
      exact hnot y hy
    · by_contra hbad
      simp [hinv.improper ⟨a, ha, hbad⟩] at hrun
  intro hh
  obtain ⟨hsnap, -, hnew, hcontent⟩ := hinv.aside hh
  obtain ⟨hpaused, hrun, -, hcompl⟩ := hinv.holding hh
  have hview : c.state.viewPull = false := by
    cases hv : c.state.viewPull with
    | false => rfl
    | true => simpa [hcompl] using hinv.serial hv
  have hresume : machine.enter .resume c.state =
      .call (c.state.setPaused false).unhold (.deliver c.state.presented .rearm) := by
    simp [machine, enter, resume, hpaused, hrun, hview, hh, present, presented]
  exact ⟨_, _, hresume, hnew, hcontent, hsnap⟩

/-- Two datagrams from a posted receive: the first is delivered and its callback pauses,
the second completes after a resume and another pause. -/
theorem receive_contract_held : ∃ r₀ c, setup { cap := 4 } .completion = some r₀ ∧
      machine.run Driven (Machine.start r₀)
        [.call .start, .ret {}, .call (.onComplete { peer := .inet 1 } 6 true), .call .pause,
          .ret {},
          .call .resume, .ret {}, .call .pause, .call (.onComplete { peer := .inet 2 } 3 true)] =
        some c ∧
      c.state.held = true ∧ (deliveries (hooks c.trace)).map (·.len) = [4] ∧
      ∃ r d, machine.enter .resume c.state = .call r (.deliver d .rearm) ∧
        ∀ e ∈ deliveries (hooks c.trace), e.id < d.id := by
  have hinit : setup { cap := 4 } .completion = some { inbound := { cap := 4 },
                                                       completion := true } :=
    rfl
  have hrun : machine.run Driven (Machine.start { inbound := { cap := 4 }, completion := true })
      [.call .start, .ret {}, .call (.onComplete { peer := .inet 1 } 6 true), .call .pause, .ret {},
        .call .resume, .ret {}, .call .pause, .call (.onComplete { peer := .inet 2 } 3 true)] =
      some _ := rfl
  obtain ⟨-, -, -, hheld⟩ := receive_contract hinit (Machine.Reach.run .start hrun)
  obtain ⟨r, d, hresume, hnew, -⟩ := hheld rfl
  exact ⟨_, _, hinit, hrun, rfl, rfl, r, d, hresume, hnew⟩

end KlDgramRecv
