-- SUMMARY: A stream that reads has a receive outstanding, unless a resume was lost.
import Keel.Stream.Delivery

/-!
# Arming

A re-arm that is asked for while `read_arm` is on the stack is left to the trampoline,
which looks at the request only if the receive completed inline. A receive can also
end by a pause: `read_disarm` drops it. A resume before the arm that posted it has
returned, or before the disarm has, then arms nothing. `NoStranding` excludes these
two places, and in every other run the stream keeps reading.
-/

open Reentrant

/-- A delivery after which the stream arms again. -/
def Frame.continues : Frame → Bool
  | .deliver _ ok _ => ok
  | _ => false

def Frame.isPauseDisarm : Frame → Bool
  | .pauseDisarm => true
  | _ => false

def Frame.isCloseDisarm : Frame → Bool
  | .closeDisarm _ => true
  | _ => false

def KlStreamRead.blocked (r : KlStreamRead) : Bool := r.readPaused || r.readClosed

namespace KlStream

/-! ## The condition -/

/-- A resume would be lost: the receive of the arm that is still running was dropped
by a pause, or is being dropped. -/
def stranding (s : KlStream) (st : List Frame) : Bool :=
  s.r.readPaused && !s.r.readClosed &&
    ((s.r.arming && !s.r.completedInline && !s.r.recvInflight) || st.any Frame.isPauseDisarm)

def NoStranding (c : SConfig) (a : SAct) : Prop :=
  match a with
  | .call .resume => stranding c.state c.stack = false
  | _ => True

instance (c : SConfig) (a : SAct) : Decidable (NoStranding c a) := by
  unfold NoStranding
  split
  · exact inferInstance
  · exact inferInstance

/-! ## The invariant -/

/-- A disarm belongs to a pause or to a close that is still in force. -/
structure Disarms (r : KlStreamRead) (fs : List Frame) : Prop where
  pausing : fs.any Frame.isPauseDisarm = true → r.blocked = true
  closing : fs.any Frame.isCloseDisarm = true → r.readClosed = true

/-- Once reading was started (`on`), a stream that could read and has no receive
outstanding is about to arm: after a delivery, or in the trampoline. -/
structure Arming (on : Prop) (r : KlStreamRead) (fs : List Frame) : Prop extends Disarms r fs where
  live : on → r.blocked = false → r.recvInflight = false → fs.any Frame.continues = true ∨
      r.arming = true ∧ r.completedInline = true ∧ r.rearmPending = true
  dropped : r.arming = true → r.completedInline = false → r.recvInflight = false → r.blocked = true

section

variable {on : Prop} {r : KlStreamRead} {fs : List Frame} {f : Frame}

theorem Disarms.cons (h : Disarms r fs) (hp : f.isPauseDisarm = false)
    (hc : f.isCloseDisarm = false) : Disarms r (f :: fs) where
  pausing := by simpa [hp] using h.pausing
  closing := by simpa [hc] using h.closing

theorem Disarms.tail (h : Disarms r (f :: fs)) : Disarms r fs where
  pausing hf := h.pausing (by simp [hf])
  closing hf := h.closing (by simp [hf])

/-- A stream that is blocked stays blocked. -/
theorem Disarms.keep {r' : KlStreamRead} (h : Disarms r fs)
    (hb : r.blocked = true → r'.blocked = true)
    (hcl : r.readClosed = true → r'.readClosed = true) : Disarms r' fs :=
  ⟨fun hf => hb (h.pausing hf), fun hf => hcl (h.closing hf)⟩

/-- Nothing is due while the stream is blocked. -/
theorem Arming.of_blocked (h : Disarms r fs) (hb : r.blocked = true) : Arming on r fs := { h with
    live := fun _ hb' => by simp [hb] at hb'
    dropped := fun _ _ _ => hb }

theorem Arming.of_closed (hcl : r.readClosed = true) : Arming on r fs :=
  have hb : r.blocked = true := by simp [KlStreamRead.blocked, hcl]
  .of_blocked ⟨fun _ => hb, fun _ => hcl⟩ hb

theorem Arming.of_inflight (h : Disarms r fs) (hi : r.recvInflight = true) : Arming on r fs :=
  { h with
    live := fun _ _ hi' => by simp [hi] at hi'
    dropped := fun _ _ hi' => by simp [hi] at hi' }

theorem Arming.mono {on' : Prop} (h : Arming on r fs) (ho : on' → on) : Arming on' r fs :=
  { h with live := fun hon => h.live (ho hon) }

/-- An arm that could read has completed inline. -/
theorem Arming.completed (h : Arming on r fs) (hb : r.blocked = false) (hi : r.recvInflight = false)
    (ha : r.arming = true) : r.completedInline = true := by
  refine Bool.of_not_eq_false fun hin => ?_
  rw [h.dropped ha hin hi] at hb
  cases hb

theorem Arming.start (u : Setup) : Arming False u.stream.r [] := by
  rw [Setup.stream_eq]
  exact
    { pausing := nofun
      closing := nofun
      live := fun h => h.elim
      dropped := nofun }

end

/-! ## The read functions -/

section

variable {on : Prop} {s : KlStream} {st : List Frame} {k : ArmK} {len : Nat} {ok : Bool}

/-- The loop of `stream_arm` posts a receive, or the stream is blocked. -/
theorem Arming.armLoop (h : Disarms s.r (readFrames st)) (ha : s.r.arming = false)
    (hheld : s.r.recvHeld = true → s.r.readPaused = true) :
    AfterRead (Arming on) st (s.armLoop k) := by
  unfold KlStream.armLoop
  split
  · next hbusy =>
    refine .armRet { h with live := fun _ hb hi => ?_, dropped := fun ha' => by simp [ha] at ha' }
    simp only [KlStreamRead.blocked, Bool.or_eq_false_iff] at hb
    cases hh : s.r.recvHeld with
    | true => simp [hheld hh] at hb
    | false => simp [hb.1, hb.2, hi, hh] at hbusy
  · refine .call rfl ?_
    have hpost : Disarms s.r.post (readFrames st) := h.keep (fun hb => hb) (fun hcl => hcl)
    exact .of_inflight (hpost.cons rfl rfl) rfl

/-- `stream_arm`: the nested re-arm is noticed, as the arm below completed inline. -/
theorem Arming.streamArm (h : Disarms s.r (readFrames st))
    (hin : s.r.arming = true → s.r.completedInline = true)
    (hheld : s.r.recvHeld = true → s.r.readPaused = true) :
    AfterRead (Arming on) st (s.streamArm k) := by
  unfold KlStream.streamArm
  split
  · next ha =>
    refine .armRet ?_
    exact
      { pausing := h.pausing
        closing := h.closing
        live := fun _ _ _ => .inr ⟨ha, hin ha, rfl⟩
        dropped := fun _ hin' _ => by simp [hin ha] at hin' }
  · next ha => exact armLoop h (by simpa using ha) hheld

theorem Arming.armed {rc : Int} (h : Arming on s.r (.arm k :: readFrames st))
    (hr : ReadInv s.r (.arm k :: readFrames st)) : AfterRead (Arming on) st (s.armed rc k) := by
  obtain ⟨harming, -⟩ := hr.armReturned
  have hd : Disarms s.r.armReturned (readFrames st) :=
    h.toDisarms.tail.keep (fun hb => hb) (fun hcl => hcl)
  unfold KlStream.armed
  split
  · next hin =>
    split
    · exact armLoop hd rfl fun hh => (hr.held hh).1
    next hpend =>
    -- no re-arm was asked for: the delivery that will ask is still running
    refine .armRet { hd with live := fun hon hb hi => ?_, dropped := nofun }
    rcases h.live hon hb hi with hc | ⟨-, -, hp⟩
    · exact .inl (by simpa [Frame.continues] using hc)
    · exact absurd hp hpend
  · next hin =>
    have hin : s.r.completedInline = false := by simpa using hin
    split
    · exact .armRet (.of_closed rfl)
    -- posted: the receive is outstanding, or a pause dropped it
    refine .armRet { hd with live := fun _ hb hi => ?_, dropped := nofun }
    have hb' : s.r.blocked = true := h.dropped harming hin hi
    rw [show s.r.armReturned.blocked = s.r.blocked from rfl, hb'] at hb
    cases hb

theorem Arming.deliverAndContinue
    (h : Disarms s.r (readFrames st)) (hin : s.r.arming = true → s.r.completedInline = true) :
    AfterRead (Arming on) st (s.deliverAndContinue len ok k) := by
  unfold KlStream.deliverAndContinue
  cases ok with
  | false => exact .call rfl (.of_closed rfl)
  | true =>
    refine .call rfl { h.cons rfl rfl with live := fun _ _ _ => .inl ?_, dropped := ?_ }
    · simp [Frame.continues]
    · intro ha hin'
      simp [hin ha] at hin'

theorem Arming.delivered
    (h : Arming on s.r (.deliver len ok k :: readFrames st)) (hr : ReadInv s.r (readFrames st)) :
    AfterRead (Arming on) st (s.delivered ok k) := by
  have hd : Disarms s.r (readFrames st) := h.toDisarms.tail
  unfold KlStream.delivered
  split
  · next hok =>
    have hok : ok = false := by simpa using hok
    refine .armRet { hd with live := fun hon hb hi => ?_, dropped := h.dropped }
    simpa [Frame.continues, hok] using h.live hon hb hi
  split
  · next hb =>
    exact .armRet (.of_blocked hd (by simpa [KlStreamRead.blocked, Bool.or_comm] using hb))
  next hb =>
  have hb : s.r.blocked = false := by
    simpa [KlStreamRead.blocked, Bool.or_comm, and_comm] using hb
  split
  · next hi => exact .armRet (.of_inflight hd hi)
  · next hi =>
    exact streamArm hd (h.completed hb (by simpa using hi)) fun hh => (hr.held hh).1

section

variable (h : Arming on s.r (readFrames st))
include h

/-- `kl_stream_read_start`: from here on the stream reads. -/
theorem Arming.readStart {on' : Prop}
    (hr : ReadInv s.r (readFrames st)) : AfterRead (Arming on') st s.readStart := by
  have hheld : s.r.recvHeld = true → s.r.readPaused = true := fun hh => (hr.held hh).1
  unfold KlStream.readStart
  rw [if_neg (by simp [hr.inited])]
  split
  · next hbusy =>
    show Arming on' s.r (readFrames st)
    cases hb : s.r.blocked with
    | true => exact .of_blocked h.toDisarms hb
    | false =>
      refine .of_inflight h.toDisarms (Bool.of_not_eq_false fun hi => ?_)
      simp only [KlStreamRead.blocked, Bool.or_eq_false_iff] at hb
      cases hh : s.r.recvHeld with
      | true => simp [hheld hh] at hb
      | false => simp [hb.1, hb.2, hi, hh] at hbusy
  · next hfree =>
    simp only [Bool.or_eq_true, not_or, Bool.not_eq_true] at hfree
    have hb : s.r.blocked = false := by simp [KlStreamRead.blocked, hfree.1.1.1, hfree.1.1.2]
    exact streamArm h.toDisarms (h.completed hb hfree.1.2) hheld

theorem Arming.onRecv (len : Nat) (ok : Bool) : AfterRead (Arming on) st (s.onRecv len ok) := by
  have hd : Disarms s.r.complete (readFrames st) := h.toDisarms.keep (fun hb => hb) (fun hcl => hcl)
  unfold KlStream.onRecv
  split
  · exact h
  split
  · exact h
  split
  · next hcl => exact .onRetire (.of_closed hcl)
  split
  · exact .onRetire (.of_closed rfl)
  split
  · next hp =>
    refine .onRetire ?_
    refine .of_blocked (hd.keep (fun hb => hb) (fun hcl => hcl)) ?_
    simpa [KlStreamRead.blocked] using .inl hp
  · -- a completion inside the arm is an inline one
    refine deliverAndContinue hd fun ha => ?_
    have ha : s.r.arming = true := ha
    simp [ha]

theorem Arming.pause : AfterRead (Arming on) st s.pause := by
  have hb : (s.r.setPaused true).blocked = true := by simp [KlStreamRead.blocked]
  unfold KlStream.pause
  split
  · exact h
  split
  · refine .call rfl (.of_blocked ⟨fun _ => hb, ?_⟩ hb)
    simpa [Frame.isCloseDisarm] using h.closing
  · exact .of_blocked (h.toDisarms.keep (fun _ => hb) (fun hcl => hcl)) hb

/-- A resume that is not lost. -/
theorem Arming.resume (hr : ReadInv s.r (readFrames st))
    (hs : stranding s st = false) : AfterRead (Arming on) st s.resume := by
  unfold KlStream.resume
  split
  · exact h
  rename_i hp
  have hp : s.r.readPaused = true := by
    simp only [hr.inited] at hp
    simpa using hp
  split
  · next hcl => exact .of_closed hcl
  rename_i hcl
  simp only [stranding, hp, hcl, Bool.not_false, Bool.and_self, Bool.true_and,
    Bool.or_eq_false_iff] at hs
  have hd : Disarms (s.r.setPaused false) (readFrames st) := by
    refine ⟨fun hf => ?_, h.closing⟩
    obtain ⟨f, hf, hpd⟩ := List.any_eq_true.mp hf
    rw [List.any_eq_true.mpr ⟨f, List.mem_of_mem_filter hf, hpd⟩] at hs
    cases hs.2
  have hin (hi : s.r.recvInflight = false) : s.r.arming = true → s.r.completedInline = true := by
    intro ha
    simpa [ha, hi] using hs.1
  split
  · next hh =>
    refine deliverAndContinue ?_ (hin (hr.held hh).2.2)
    exact hd.keep (fun hb => hb) (fun hcl => hcl)
  · next hh =>
    split
    · next hi => exact .of_inflight hd hi
    · next hi =>
      exact streamArm hd (hin (by simpa using hi)) fun hh' => absurd hh' hh

theorem Arming.readClose {k : CloseK} {o : SOut}
    (ho : ReadCloseOut s k o) : AfterRead (Arming on) st o :=
  .readCloseOut ho h (fun _ => .of_closed rfl) (fun _ _ => .of_closed rfl)
    (fun _ _ => .of_closed rfl)

theorem Arming.enter {op : Op} (hr : ReadInv s.r (readFrames st))
    (hop : op ≠ .readStart) (hs : op = .resume → stranding s st = false) :
    AfterRead (Arming on) st (enter op s) := by
  cases op with
  | readStart => exact absurd rfl hop
  | onRecv len ok => exact h.onRecv len ok
  | pause => exact h.pause
  | resume => exact h.resume hr (hs rfl)
  | readClose => exact h.readClose (.readClose .readClose rfl rfl)
  | _ => exact .enter_other (by rintro ⟨⟩) h h.readClose

end

theorem Arming.afterHook {f : Frame} {v : Int} (h : Arming on s.r (readFrames (f :: st)))
    (hr : ReadInv s.r (readFrames (f :: st))) : AfterRead (Arming on) st (afterHook f v s) := by
  cases f with
  | arm k =>
    exact h.armed hr
  | deliver len ok k =>
    exact h.delivered (hr.pop rfl)
  | pauseDisarm =>
    have hd : Disarms s.r (.pauseDisarm :: readFrames st) := h.toDisarms
    exact .of_blocked (hd.tail.keep (fun hb => hb) (fun hcl => hcl)) (hd.pausing rfl)
  | closeDisarm k =>
    have hd : Disarms s.r (.closeDisarm k :: readFrames st) := h.toDisarms
    exact .closeOnly (.readCloseRet rfl rfl) (.of_closed (hd.closing rfl))
  | _ => exact .afterHook_other (by rintro ⟨⟩) h

end

/-! ## Whole runs -/

/-- `kl_stream_read_start` was called. -/
def Started (tr : List SStep) : Prop := ∃ x ∈ tr, x.cause = .enter .readStart

theorem Started.of_append {tr : List SStep} {x : SStep} (h : Started (tr ++ [x]))
    (hx : x.cause ≠ .enter .readStart) : Started tr := by
  obtain ⟨y, hy, hc⟩ := h
  rcases List.mem_append.mp hy with hy | hy
  · exact ⟨y, hy, hc⟩
  · rw [List.mem_singleton.mp hy] at hc
    exact absurd hc hx

/-- The read side of a run in which no resume is lost. -/
def ArmingRun (tr : List SStep) (s : KlStream) (st : List Frame) : Prop :=
  ReadInv s.r (readFrames st) ∧ Arming (Started tr) s.r (readFrames st)

theorem ArmingRun.preserves : machine.Preserves NoStranding ArmingRun := by
  refine (ReadInv.preserves NoStranding).strengthen ?_ ?_
  · intro tr s st op hr h hp
    by_cases hop : op = .readStart
    · rw [hop]
      exact h.readStart hr
    refine Arming.mono (h.enter hr hop ?_) fun hs => hs.of_append ?_
    · rintro rfl
      exact hp
    · intro hc
      cases hc
      exact hop rfl
  · intro tr s st f v hr h _
    exact Arming.mono (h.afterHook hr) fun hs => hs.of_append nofun

/-- What a receive brings is handed to the owner. -/
theorem onRecv_delivers {s : KlStream} {fs : List Frame} (h : ReadInv s.r fs)
    (hi : s.r.recvInflight = true) (hcl : s.r.readClosed = false) (hp : s.r.readPaused = false)
    {len : Nat} {ok : Bool} (hlen : ok = true → len ≤ s.r.readCap) :
    deliveredBy (s.onRecv len ok) = [⟨if !ok then 0 else len, ok⟩] := by
  have hfit : (ok && decide (s.r.readCap < len)) = false := by
    cases ok with
    | false => rfl
    | true => simpa using hlen rfl
  unfold KlStream.onRecv
  rw [if_neg (by simp [h.inited]), if_neg (by simp [hi]), if_neg (by simp [hcl]),
    if_neg (by simp [hfit]), if_neg (by simp [hp])]
  cases ok with
  | false => rfl
  | true => rfl

/-- Reading never stalls, in every run in which no resume is called where it would be
lost: whenever the outermost call has returned after `kl_stream_read_start` and the
read side is neither closed nor paused, a receive is outstanding, and what it brings
is delivered. -/
theorem reading_armed (u : Setup) (c : SConfig) (hc : machine.Reach NoStranding u.stream c)
    (hs : Started c.trace) (hst : c.stack = []) (hcl : c.state.r.readClosed = false)
    (hp : c.state.r.readPaused = false) :
    c.state.r.recvInflight = true ∧
    ∀ len ok, (ok = true → len ≤ u.readCap) →
      deliveredBy (enter (.onRecv len ok) c.state) = [⟨if !ok then 0 else len, ok⟩] := by
  have hcap := (Base.of_reach hc).readConfig.1
  have hstart : ArmingRun [] u.stream [] :=
    ⟨.start u, (Arming.start u).mono fun hs => by simp [Started] at hs⟩
  obtain ⟨hr, h⟩ := hc.invariant hstart ArmingRun.preserves
  rw [hst] at hr h
  have hi : c.state.r.recvInflight = true := by
    refine Bool.of_not_eq_false fun hi => ?_
    have hb : c.state.r.blocked = false := by simp [KlStreamRead.blocked, hcl, hp]
    rcases h.live hs hb hi with hf | ⟨ha, -⟩
    · cases hf
    · have := hr.arms
      simp [ha] at this
  exact ⟨hi, fun len ok hlen => onRecv_delivers hr hi hcl hp (hcap ▸ hlen)⟩

/-- A delivery that pauses and resumes. -/
theorem reading_armed_delivery : ∃ c, machine.run NoStranding (Machine.start mixedSetup.stream)
        [.call .readStart, .ret 0, .call (.onRecv 3 true), .call .pause, .call .resume, .ret 0,
          .ret 0] = some c ∧
      Started c.trace ∧ c.stack = [] ∧ c.state.r.readClosed = false ∧
      c.state.r.readPaused = false ∧ c.state.r.recvInflight = true := by
  refine Machine.exists_run ⟨_, rfl, fun hc => ⟨⟨_, List.mem_cons_self, rfl⟩, by decide, by decide,
    by decide, ?_⟩⟩
  exact (reading_armed mixedSetup _ hc ⟨_, List.mem_cons_self, rfl⟩ (by decide) (by decide)
    (by decide)).1

/-- A readiness stream. -/
def readinessSetup : Setup := { mixedSetup with
    completionMode := false
    disarm := true
    disarm_of_readiness := fun _ => rfl }

/-- Its arm hook pauses, which drops the receive, resumes and returns 0: the stream is
neither paused nor closed, and no receive is outstanding. -/
theorem resume_lost : ∃ c, machine.run Machine.Any (Machine.start readinessSetup.stream)
        [.call .readStart, .call .pause, .ret 0, .call .resume, .ret 0] = some c ∧
      Started c.trace ∧ c.stack = [] ∧ c.state.r.readClosed = false ∧
      c.state.r.readPaused = false ∧ c.state.r.recvInflight = false :=
  ⟨_, rfl, ⟨_, List.mem_cons_self, rfl⟩, by decide, by decide, by decide, by decide⟩

end KlStream
