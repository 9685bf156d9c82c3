-- SUMMARY: What the deliver callback was given stays until it returns.
import Keel.Datagram.Delivery

/-!
# Stable delivery arguments

The deliver hook gets pointers into the inbound slot. They stay good as long as
nothing arms the next receive while the callback runs: arming clears the slot.
-/

open Reentrant List

namespace KlDgramRecv

/-! ## Hooks of the inbound-slot modes -/

def DeliverK.isView : DeliverK → Bool
  | .view _ _ => true
  | _ => false

/-- The hook belongs to a loop over borrowed views. -/
def Frame.isView : Frame → Bool
  | .viewPull _ _ => true
  | .deliver _ k => k.isView
  | _ => false

/-- The hook belongs to the inbound-slot modes, and a delivery shows the slot of `r`. -/
def Frame.FromSlot (r : KlDgramRecv) : Frame → Prop
  | .deliver d k => r.presented = d ∧ k.isView = false
  | .viewPull _ _ => False
  | _ => True

/-- A stretch of code in an inbound-slot mode. -/
structure Slotted (o : ROut) : Prop where
  mode : o.state.viewPull = false
  hook : ∀ f, o.hook = some f → f.FromSlot o.state

variable {r : KlDgramRecv}

theorem Slotted.done (r : KlDgramRecv) (ret : Int) (h : r.viewPull = false) :
    Slotted (.done r ret) where
  mode := h
  hook f hf := by cases hf

variable {f : Frame} {o : ROut}

theorem Slotted.call (h : r.viewPull = false) (hf : f.FromSlot r) : Slotted (.call r f) :=
  ⟨h, fun g hg => by cases hg; exact hf⟩

theorem slotted_present (r : KlDgramRecv) (k : DeliverK) (h : r.viewPull = false)
    (hk : k.isView = false) : Slotted (r.present k) :=
  .call h ⟨rfl, hk⟩

section

variable (h : r.viewPull = false)
include h

theorem slotted_armLoop : Slotted r.armLoop := by
  unfold armLoop
  split
  · exact .done _ _ h
  · exact .call h trivial

theorem slotted_recvArm : Slotted r.recvArm := by
  unfold recvArm
  split
  · exact .done _ _ h
  · exact slotted_armLoop h

theorem slotted_recvFail : Slotted r.recvFail := by
  unfold recvFail
  split
  · exact .call h trivial
  · exact .done _ _ h

theorem slotted_finish {n : Nat} {next : KlDgramRecv → ROut}
    (hnext : Slotted (next (r.canonical n))) : Slotted (r.finish n next) := by
  unfold finish finalize
  by_cases hp : r.inbound.peer = .unspec
  · simp only [hp, if_true]
    exact slotted_recvFail h
  · simp only [hp, if_false]
    exact hnext

theorem slotted_readLoop (b : Nat) : Slotted (r.readLoop b) := by
  unfold readLoop
  split
  · exact .call h trivial
  · exact .done _ _ h

theorem slotted_enter (op : Op) : Slotted (enter op r) := by
  cases op with
  | start =>
    simp only [enter, start]
    split
    · exact .done _ _ h
    · exact slotted_recvArm h
  | onComplete f n ok =>
    simp only [enter, onComplete]
    split
    · exact .done _ _ h
    split
    · cases ok <;> exact .done _ _ h
    split
    · exact slotted_recvFail h
    refine slotted_finish (r := r.completed.accept f n) h ?_
    unfold holdOrDeliver
    split
    · exact .done _ _ h
    · exact slotted_present _ _ h rfl
  | onReadable =>
    simp only [enter, onReadable, h]
    split
    · exact .done _ _ h
    split
    · exact .done _ _ h
    · exact slotted_readLoop h _
  | pause =>
    simp only [enter, pause]
    split
    · exact .done _ _ h
    split
    · exact .call h trivial
    · exact .done _ _ h
  | resume =>
    simp only [enter, resume, h]
    split
    · exact .done _ _ h
    split
    · exact .done _ _ h
    simp only [Bool.false_eq_true, if_false]
    split
    · exact slotted_present _ _ h rfl
    split
    · exact .done _ _ h
    · exact slotted_recvArm h
  | stop =>
    simp only [enter, stop]
    split
    · exact .done _ _ h
    split_ifs
    · exact .call h trivial
    · exact .done _ _ h
    · exact .done _ _ h

theorem slotted_delivered {k : DeliverK} (hk : k.isView = false) : Slotted (r.delivered k) := by
  cases k with
  | rearm =>
    simp only [delivered, continueAfter]
    split
    · exact .done _ _ h
    split
    · exact .done _ _ h
    · exact slotted_recvArm h
  | readable b => exact slotted_readLoop h b
  | view b refill => cases hk

theorem slotted_afterHook {f : Frame} (hf : f.isView = false) (a : Answer) :
    Slotted (afterHook f a r) := by
  cases f with
  | arm =>
    simp only [afterHook, armReturned]
    split
    · split
      · exact slotted_armLoop h
      · exact .done _ _ h
    split
    · exact .done _ _ h
    · exact .done _ _ h
  | disarm ret => exact .done _ _ h
  | pull b =>
    simp only [afterHook, pullReturned]
    split
    · exact .done _ _ h
    split
    · exact slotted_recvFail h
    · exact slotted_finish (r := r.accept a.fill a.len) h (slotted_present _ _ h rfl)
  | viewPull b refill => cases hf
  | deliver d k => exact slotted_delivered h hf

end

/-! ## The callback in progress -/

/-- No callback is running. -/
def Idle (st : List Frame) : Prop := ∀ f ∈ st, f.delivery = none

/-- At most one callback is running. It was given what the slot shows, and it is inside
nothing but disarm hooks of its own. -/
inductive Shown (r : KlDgramRecv) : List Frame → Prop where
  | idle {st : List Frame} : Idle st → Shown r st
  | running {d : Delivery} {k : DeliverK} {st : List Frame} :
      r.presented = d → r.held = false → Idle st → Shown r (.deliver d k :: st)
  | disarm {ret : Int} {st : List Frame} : Shown r st → Shown r (.disarm ret :: st)

variable {st : List Frame}

theorem Shown.presented (h : Shown r st) {d : Delivery} {k : DeliverK}
    (hd : Frame.deliver d k ∈ st) : r.presented = d := by
  induction h with
  | idle hidle => simpa [Frame.delivery] using hidle _ hd
  | running hshow _ hidle =>
    rcases mem_cons.mp hd with heq | hd
    · cases heq
      exact hshow
    · simpa [Frame.delivery] using hidle _ hd
  | disarm _ ih => exact ih (by simpa using hd)

/-- Neither what the slot shows nor the datagram put aside depends on the other flags. -/
theorem Shown.congr {r' : KlDgramRecv} (h : Shown r st) (hp : r'.presented = r.presented)
    (hh : r.held = false → r'.held = false) : Shown r' st := by
  induction h with
  | idle hidle => exact .idle hidle
  | running hshow hheld hidle => exact .running (hp.trans hshow) (hh hheld) hidle
  | disarm _ ih => exact .disarm ih

theorem Shown.pop_disarm {ret : Int} (h : Shown r (.disarm ret :: st)) : Shown r st := by
  cases h with
  | idle hidle => exact .idle fun f hf => hidle f (mem_cons_of_mem _ hf)
  | disarm h => exact h

/-- Below any other hook nothing is delivered. -/
theorem Shown.idle_below (h : Shown r (f :: st)) (hf : ∀ ret, f ≠ .disarm ret) : Idle st := by
  cases h with
  | idle hidle => exact fun g hg => hidle g (mem_cons_of_mem f hg)
  | running _ _ hidle => exact hidle
  | @disarm ret => exact absurd rfl (hf ret)

theorem Shown.not_held (h : Shown r st) (hd : ¬ Idle st) : r.held = false := by
  induction h with
  | idle hidle => exact absurd hidle hd
  | running _ hheld _ => exact hheld
  | disarm _ ih =>
    refine ih fun hidle => hd fun f hf => ?_
    rcases mem_cons.mp hf with rfl | hf
    · rfl
    · exact hidle f hf

/-- Outside a callback the machine may do anything. -/
theorem Shown.of_slotted (hidle : Idle st) (ho : Slotted o)
    (hheld : ∀ d k, o.hook = some (.deliver d k) → o.state.held = false) :
    Shown o.state (o.stack st) := by
  cases o with
  | done r ret => exact .idle hidle
  | call r f =>
    cases f with
    | deliver d k => exact .running (ho.hook _ rfl).1 (hheld d k rfl) hidle
    | _ =>
      refine .idle fun g hg => ?_
      rcases mem_cons.mp hg with rfl | hg
      · rfl
      · exact hidle g hg

/-! ## What the callback may call -/

/-- The operation makes the machine arm, in the state `r`. -/
def Rearms (r : KlDgramRecv) : Op → Prop
  | .resume => r.paused = true ∧ r.stopped = false ∧ r.recvInflight = false ∧ r.arming = false
  | .start =>
    r.paused = false ∧ r.stopped = false ∧ r.recvInflight = false ∧ r.held = false ∧
    r.arming = false
  | _ => False

/-- What a deliver callback calls. -/
def Op.control : Op → Bool
  | .start | .pause | .resume | .stop => true
  | _ => false

/-- A callback is running. -/
def Delivering (st : List Frame) : Prop := ∃ f ∈ st, f.delivery.isSome = true

/-- A driven run in which a deliver callback calls pause, resume, start and stop only. -/
def Controlled (c : RConfig) (a : RAct) : Prop :=
  Driven c a ∧ match a with
    | .call op => Delivering c.stack → op.control = true
    | .ret _ => True

/-- While a callback is running, nothing is called where it makes the machine arm. -/
def Spared (c : RConfig) : RAct → Prop
  | .call op => Delivering c.stack → ¬ Rearms c.state op
  | .ret _ => True

instance (st : List Frame) : Decidable (Delivering st) := by
  unfold Delivering
  exact inferInstance

instance (r : KlDgramRecv) (op : Op) : Decidable (Rearms r op) := by
  unfold Rearms
  split <;> exact inferInstance

instance (c : RConfig) : ∀ a, Decidable (Controlled c a)
  | .call op => inferInstanceAs
      (Decidable (Driven c (.call op) ∧ (Delivering c.stack → op.control = true)))
  | .ret v => inferInstanceAs (Decidable (Driven c (.ret v) ∧ True))

instance (c : RConfig) : ∀ a, Decidable (Spared c a)
  | .call op => inferInstanceAs (Decidable (Delivering c.stack → ¬ Rearms c.state op))
  | .ret _ => inferInstanceAs (Decidable True)

/-- A call from inside the callback leaves the slot alone, and calls at most the disarm
hook. -/
theorem Shown.enter (h : Shown r st) (hv : r.viewPull = false) (hh : r.held = false) {op : Op}
    (hop : op.control = true) (hno : ¬ Rearms r op) :
    Shown (enter op r).state ((enter op r).stack st) := by
  have hset : ∀ b, Shown (r.setPaused b) st := fun b => h.congr rfl id
  cases op with
  | start =>
    simp only [KlDgramRecv.enter, start]
    split
    · exact h.congr rfl id
    next hgo =>
      simp only [Bool.or_eq_true, not_or, Bool.not_eq_true] at hgo
      have harm : r.arming = true := by
        by_contra hne
        exact hno ⟨hgo.1.1.1, hgo.1.1.2, hgo.1.2, hgo.2, by simpa using hne⟩
      simp only [recvArm, setStarted, harm, if_true]
      exact h.congr rfl id
  | pause =>
    simp only [KlDgramRecv.enter, pause]
    split
    · exact h
    split
    · exact .disarm (hset true)
    · exact hset true
  | resume =>
    simp only [KlDgramRecv.enter, resume, hv, hh]
    split
    · exact h
    next hpaused =>
      split
      · exact hset false
      next hrun =>
        simp only [Bool.false_eq_true, if_false]
        split
        · exact hset false
        next hin =>
          have harm : r.arming = true := by
            by_contra hne
            exact hno ⟨by simpa using hpaused, by simpa using hrun, by simpa using hin,
              by simpa using hne⟩
          simp only [recvArm, setPaused, harm, if_true]
          exact h.congr rfl id
  | stop =>
    have hstop : Shown r.setStopped st := h.congr rfl fun _ => rfl
    simp only [KlDgramRecv.enter, stop]
    split
    · exact h
    split_ifs
    · exact .disarm hstop
    · exact hstop.congr rfl id
    · exact hstop
  | onComplete f n ok => cases hop
  | onReadable => cases hop

/-! ## Runs -/

/-- The invariant of runs in an inbound-slot mode. -/
structure SlotInv (r : KlDgramRecv) (st : List Frame) : Prop where
  shown : Shown r st
  mode : r.viewPull = false
  frames : ∀ f ∈ st, f.isView = false

theorem isView_of_fromSlot (h : f.FromSlot r) : f.isView = false := by
  cases f with
  | viewPull b refill => cases h
  | deliver d k => exact h.2
  | _ => rfl

theorem SlotInv.of_slotted (hframes : ∀ f ∈ st, f.isView = false) (ho : Slotted o)
    (hshown : Shown o.state (o.stack st)) : SlotInv o.state (o.stack st) := by
  refine ⟨hshown, ho.mode, fun f hf => ?_⟩
  rw [Out.stack_eq, mem_append, Option.mem_toList] at hf
  rcases hf with hf | hf
  · exact isView_of_fromSlot (ho.hook f hf)
  · exact hframes f hf

/-- A delivery finds nothing put aside. -/
theorem RunInv.not_held {cap : Nat} {tr : List RStep} {cause : Cause Op Frame Answer}
    (h : RunInv cap (tr ++ [⟨r, cause, o⟩]) o.state (o.stack st)) (d : Delivery) (k : DeliverK)
    (hd : o.hook = some (.deliver d k)) : o.state.held = false := by
  have hquiet := (h.2 _ (mem_append_right _ mem_cons_self) d k hd).1
  cases hh : o.state.held with
  | false => rfl
  | true => simpa [hquiet] using (h.1.holding hh).1

theorem slotInv_preserves (cap : Nat) :
    Machine.Preserves machine (fun c a => Controlled c a ∧ Spared c a)
      (fun tr r st => RunInv cap tr r st ∧ SlotInv r st) := by
  have hrun : Machine.Preserves machine (fun c a => Controlled c a ∧ Spared c a) (RunInv cap) :=
    ⟨fun tr r st op h hp => (runInv_preserves cap).enter tr r st op h hp.1.1,
      fun tr r st f a h hp => (runInv_preserves cap).resume tr r st f a h hp.1.1⟩
  refine hrun.strengthen ?_ ?_
  · intro tr r st op hr h hp
    have hslot := slotted_enter h.mode op
    refine .of_slotted h.frames hslot ?_
    by_cases hidle : Idle st
    · exact .of_slotted hidle hslot fun d k => (hrun.enter tr r st op hr hp).not_held d k
    -- A callback is running, so the call is one of those it may make.
    have hsome : Delivering st := by
      simpa [Delivering, Idle, Option.isSome_iff_ne_none] using hidle
    exact h.shown.enter h.mode (h.shown.not_held hidle) (hp.1.2 hsome) (hp.2 hsome)
  · intro tr r st f a hr h hp
    have hview := h.frames f mem_cons_self
    have hslot := slotted_afterHook h.mode hview a
    refine .of_slotted (fun g hg => h.frames g (mem_cons_of_mem f hg)) hslot ?_
    cases f with
    | disarm ret => exact h.shown.pop_disarm.congr rfl id
    | _ =>
      exact .of_slotted (h.shown.idle_below nofun) hslot fun d k =>
        (hrun.resume tr r st _ a hr hp).not_held d k

/-- As long as the callback does not make the machine arm, the slot shows what the
callback was given until it returns, and no receive is armed meanwhile. -/
theorem delivery_stable {slot : KlDgramSlot} {m : Mode} {r₀ : KlDgramRecv} {c : RConfig}
    (hm : m ≠ .view) (hinit : setup slot m = some r₀)
    (hc : machine.Reach (fun c a => Controlled c a ∧ Spared c a) r₀ c) {d : Delivery} {k : DeliverK}
    (hd : Frame.deliver d k ∈ c.stack) :
    some c.state.inbound.data = d.data ∧ c.state.inbound.len = d.len ∧
    c.state.inbound.peer = d.peer ∧ c.state.inbound.flags = d.flags ∧
    (∀ l, d.localAddr = some l → c.state.inbound.localAddr = l) ∧ c.state.arms = d.arms := by
  have hmode : r₀.viewPull = false := by
    cases m with
    | view => exact absurd rfl hm
    | _ => simp only [setup, init] at hinit; split at hinit <;> cases hinit; rfl
  have h₀ : SlotInv r₀ [] := ⟨.idle fun f hf => absurd hf not_mem_nil, hmode,
    fun f hf => absurd hf not_mem_nil⟩
  have hinv := (hc.invariant ⟨setup_inv hinit, h₀⟩ (slotInv_preserves slot.cap)).2
  rw [← hinv.shown.presented hd]
  refine ⟨rfl, rfl, rfl, rfl, fun l hl => ?_, rfl⟩
  simp only [presented] at hl
  split at hl
  · exact Option.some.inj hl
  · cases hl

/-- A callback that pauses and stops, on a readiness socket. -/
theorem delivery_stable_pause : ∃ r₀ c, setup { cap := 4 } .serial = some r₀ ∧
      machine.run (fun c a => Controlled c a ∧ Spared c a) (Machine.start r₀)
        [.call .start, .ret {}, .call .onReadable,
          .ret { r := 1, fill := { peer := .inet 1 }, len := 2 }, .call .pause, .ret {},
          .call .stop] = some c ∧
      ∃ d k, Frame.deliver d k ∈ c.stack ∧ d.peer = .inet 1 ∧ c.state.inbound.peer = d.peer := by
  refine Machine.exists_built ⟨_, _, rfl, rfl, fun hinit hc => ?_⟩
  have hslot : Mode.serial ≠ .view := by decide
  have hstable := delivery_stable hslot hinit hc mem_cons_self
  exact ⟨_, _, mem_cons_self, rfl, hstable.2.2.1⟩

/-- A callback that pauses and resumes: the resume clears the slot and arms the next
receive into it while the callback still has its pointers. -/
theorem resume_in_callback : ∃ r₀ c, setup { cap := 4 } .completion = some r₀ ∧
      machine.run Controlled (Machine.start r₀)
        [.call .start, .ret {}, .call (.onComplete { peer := .inet 1 } 2 true), .call .pause,
          .call .resume] = some c ∧
      ∃ d k, Frame.deliver d k ∈ c.stack ∧ c.calling = some .arm ∧ c.state.arms = d.arms + 1 ∧
        d.peer = .inet 1 ∧ c.state.inbound.peer = .unspec ∧ d.len = 2 ∧ c.state.inbound.len = 0 :=
  ⟨_, _, rfl, rfl, _, _, mem_cons_of_mem _ mem_cons_self, rfl, rfl, rfl, rfl, rfl, rfl⟩

end KlDgramRecv
