-- SUMMARY: The loops, deferred callbacks and drops of the send machine.
import Keel.Datagram.SendUpdates

/-!
# The loops of the send machine

First the conditions under which the facets of the invariant are kept, each on the
state before a stretch and on what starts it. Then one lemma for each function, in the
order of `Keel.Datagram.Send`, up to the drops.
-/

open Reentrant List

namespace KlDgramSend

/-! ## Conditions on the surrounding code -/

variable (s : KlDgramSend)

/-- The datagram at the head of the queue. -/
def headId : Option Nat := s.entries.head?.map (·.id)

/-- The head came from a batch. -/
def headRecoverable : Bool := s.entries.head?.any (·.recoverable)

/-- On a completion machine a group is enqueued to be sent segment by segment. -/
def PermittedCall : Op → Prop
  | .enqueueGso g => s.completion = true → g.fallback = true
  | _ => True

/-- The provider of a readiness machine leaves nothing in flight. -/
def Permitted : Frame → Answer → Prop
  | .direct _, a | .submit _ _, a => s.completion = false → a.r ≠ .inflight
  | _, _ => True

/-- What was submitted is still at the head of the queue, if the answer decides its
fate. -/
def Undisturbed : Frame → Answer → Prop
  | .submit x _, a => s.submitRetired = false → a.r ≠ .inflight →
      s.inflightN = 1 ∧ s.headId = some x.id
  | .gso _ _ ids _, a => a.r ≠ .wouldblock → a.r ≠ .unsupported → s.groupIds = ids
  | .batch xs _, a => a.br ≠ .wouldblock → xs.map (·.id) <+: s.entries.map (·.id)
  | .isolate x _, a => a.r ≠ .wouldblock → s.headId = some x.id
  | _, _ => True

/-- No send in flight fails that did not come from a batch. -/
def InTurnCall : Op → Prop
  | .onComplete .failed => s.inflightN ≠ 0 → s.headRecoverable = true
  | _ => True

/-- A direct send was not overtaken, and the rest of a group that is dropped is still
at the head. -/
def InTurn : Frame → Answer → Prop
  | .direct _, a => a.r = .done → s.count = 0
  | .drop (.group last rest _), _ => last = false → s.count ≠ 0 → s.groupIds = rest
  | _, _ => True

/-- The pump retires its head and goes on to the next one. -/
def goesOn : KlDgramSubmitResult → Bool
  | .done => true
  | .dropped => !s.onDrop
  | .error | .unsupported => s.headRecoverable && !s.onDrop
  | .inflight | .wouldblock => false

/-- No loop that runs on has anything left to submit once the error is set. -/
def Halting : Frame → Answer → Prop
  | .submit _ _, a => s.err = true →
      if s.submitRetired then a.r = .error ∨ s.count = 0 else s.goesOn a.r = true → s.count ≤ 1
  | .drop (.pump _), _ => s.err = true → s.inflightN ≠ 0 ∨ s.count = 0
  | .drop (.group true _ (.pump _)), _ => s.err = true → s.inflightN ≠ 0 ∨ s.count = 0
  | .gso _ _ _ (.pump _), a => s.err = true → a.r = .wouldblock ∨ s.inflightN ≠ 0 ∨
      a.r ≠ .unsupported ∧ (s.groupIds.length = s.count ∨ a.r ≠ .done ∧ s.onDrop = true)
  | .batch _ _, a => s.err = true → a.br ≠ .error
  | _, _ => True

/-- A submission that was under way when the queue was discarded does not end with its
datagram back on the queue. -/
def Finished : Frame → Answer → Prop
  | .submit _ _, a => s.aborted = true → s.submitRetired = false → s.count ≠ 0 →
      a.r ≠ .wouldblock ∧ (a.r = .error ∨ a.r = .unsupported → s.headRecoverable = true)
  | _, _ => True

instance (s : KlDgramSend) (op : Op) : Decidable (s.PermittedCall op) := by
  unfold PermittedCall
  split <;> exact inferInstance

instance (s : KlDgramSend) (f : Frame) (a : Answer) : Decidable (s.Permitted f a) := by
  unfold Permitted
  split <;> exact inferInstance

instance (s : KlDgramSend) (f : Frame) (a : Answer) : Decidable (s.Undisturbed f a) := by
  unfold Undisturbed
  split <;> exact inferInstance

instance (s : KlDgramSend) (op : Op) : Decidable (s.InTurnCall op) := by
  unfold InTurnCall
  split <;> exact inferInstance

instance (s : KlDgramSend) (f : Frame) (a : Answer) : Decidable (s.InTurn f a) := by
  unfold InTurn
  split <;> exact inferInstance

instance (s : KlDgramSend) (f : Frame) (a : Answer) : Decidable (s.Halting f a) := by
  unfold Halting
  split <;> exact inferInstance

instance (s : KlDgramSend) (f : Frame) (a : Answer) : Decidable (s.Finished f a) := by
  unfold Finished
  split <;> exact inferInstance

/-- A call meets the conditions of `P`. -/
structure CallMet (P : Scope) (s : KlDgramSend) (op : Op) : Prop where
  contract : P.contract → s.PermittedCall op
  fifo : P.fifo → s.InTurnCall op

/-- The return of a hook meets the conditions of `P`. -/
structure RetMet (P : Scope) (s : KlDgramSend) (f : Frame) (a : Answer) : Prop where
  contract : P.contract → s.Permitted f a
  steady : P.steady → s.Undisturbed f a
  fifo : P.fifo → s.InTurn f a
  sticky : P.sticky → s.Halting f a
  abort : P.abort → s.Finished f a

variable {P : Scope} {q : List KlDgramSlot} {s s' : KlDgramSend} {st : List Frame} {i : Nat}

/-! ## Deferred callbacks -/

theorem After.done (s : KlDgramSend) (ret : Ret) (h : Kept P s.entries s) (hs : Stacked P s 0 st)
    (hret : ret.granted = true ∨ P.calm ret s) : After P st (.done s ret) where
  kept := h
  stacked := hs
  calls := fun f hf => by cases hf
  result := fun r hr => by
    cases hr
    exact hret

theorem After.call (s : KlDgramSend) (f : Frame) (h : Kept P s.entries s)
    (hs : Stacked P s 0 (f :: st)) (hf : CallOk P s f) : After P st (.call s f) where
  kept := h
  stacked := hs
  calls := fun g hg => by
    cases hg
    exact hf
  result := fun r hr => by cases hr

/-- A hook that is no provider may always be called. -/
theorem callOk_of_callback {f : Frame} (hf : f.provider = false) (hitems : f.items = [])
    (hempty : ∀ ret, f = .drain ret → s.count = 0) : CallOk P s f where
  sticky := fun _ hp => by simp [hf] at hp
  abort := fun _ hp => by simp [hf] at hp
  empty := hempty
  own := fun _ x hx => by
    rw [hitems] at hx
    cases hx
  drained := fun hp => by simp [hf] at hp

/-- A null read needs a run in which submitted datagrams were taken off the queue. -/
theorem fault_after (h : Kept P q s) (hs : Stacked P s 1 st) (hp : ¬ P.steady) :
    After P st s.fault := by
  refine .call _ _ (h.requeue (fun hf => hp (P.steady_of_fifo hf)) _)
    (hs.call rfl ?_ ?_ hs.outer) ?_
  · exact ⟨nofun, fun _ _ => rfl, fun hsteady => absurd hsteady hp, nofun, rfl⟩
  · exact fun _ _ _ => trivial
  · exact callOk_of_callback rfl rfl nofun

section

variable (h : Kept P s.entries s)
include h

section

variable (hs : Stacked P s 1 st)
include hs

variable {ret : Ret}

/-- The drain callback, or the return. -/
theorem drainTail_after (hlast : s.inDispatch ≤ 1) (hnone : s.pendWritable = false)
    (hret : ret.granted = true) : After P st (s.drainTail ret) := by
  have hst : dispatches st = 0 := by
    have hdepth := hs.depth
    omega
  have hleft : Stacked P s.lastLeave 0 st := hs.leave hst.symm rfl rfl rfl rfl
  unfold drainTail
  split
  next hdrain =>
    simp only [Bool.and_eq_true, beq_iff_eq] at hdrain
    refine .call _ _ (h.lastLeave hnone) ⟨?_, ?_, ?_, hleft.outer⟩ ?_
    · rw [dispatches_cons, hst]
      rfl
    · refine forall_mem_cons.mpr ⟨?_, hleft.frames⟩
      exact ⟨nofun, fun _ _ => rfl, fun _ => rfl, nofun, hret⟩
    · -- a submission that is in progress is inside the brackets
      intro hp hc hf
      have hpos := dispatches_pos (hleft.pending hp hc hf)
      omega
    · exact callOk_of_callback rfl rfl fun _ _ => hdrain.1.2
  next => exact .done _ _ (h.lastLeave hnone) hleft (.inl hret)

/-- The end of the outermost dispatch. -/
theorem leaveLoop_after (hlast : s.inDispatch ≤ 1) (hret : ret.granted = true) :
    After P st (s.leaveLoop ret) := by
  unfold leaveLoop
  split
  next =>
    split
    next =>
      have hfire : Stacked P s.fireWritable 1 st := hs.mono rfl rfl rfl id fun _ => id
      have hst : dispatches st = 0 := by
        have hdepth := hs.depth
        omega
      refine .call _ _ h.fireWritable (hfire.call rfl ?_ ?_ ⟨hst, hs.outer⟩)
        (callOk_of_callback rfl rfl nofun)
      · exact ⟨nofun, fun _ _ => rfl, fun _ => rfl, nofun, hret⟩
      · intro hp hc hf
        have hpos := dispatches_pos (hs.pending hp hc hf)
        omega
    next hcb =>
      have hnone : s.onWritable = false := by simpa using hcb
      have htake : Kept P s.takeWritable.entries s.takeWritable := h.takeWritable hnone
      exact drainTail_after htake (hs.mono rfl rfl rfl id fun _ => id) hlast rfl hret
  next hpend => exact drainTail_after h hs hlast (by simpa using hpend) hret

theorem dispatchLeave_after (hret : ret.granted = true) : After P st (s.dispatchLeave ret) := by
  unfold dispatchLeave
  split
  next hnested =>
    refine .done _ _ (h.nestedLeave hnested) (hs.leave ?_ rfl rfl rfl rfl) (.inl hret)
    show s.inDispatch - 1 = dispatches st
    rw [hs.depth, Nat.add_sub_cancel]
  next hlast => exact leaveLoop_after h hs (by omega) hret

theorem pumpDone_after (k : PumpK) : After P st (s.pumpDone k) :=
  dispatchLeave_after h hs (by cases k <;> rfl)

theorem batchDone_after : After P st s.batchDone := dispatchLeave_after h hs rfl

theorem loopDone_after (k : LoopK) : After P st (s.loopDone k) := by
  cases k with
  | pump k => exact pumpDone_after h hs k
  | batch cap => exact batchDone_after h hs

end

end

/-! ## The loops -/

/-- A group is the front of the queue. -/
theorem groupAt_front (es : List KlDgramSlot) : groupAt es <+: es := by
  induction es with
  | nil => exact prefix_rfl
  | cons e es ih =>
    simp only [groupAt]
    split
    · exact ⟨es, rfl⟩
    · exact (prefix_cons_inj e).mpr ih

variable {es : List KlDgramSlot} {k : LoopK}

theorem groupAt_ne_nil (h : es ≠ []) : groupAt es ≠ [] := by
  cases es with
  | nil => exact absurd rfl h
  | cons e es =>
    simp only [groupAt]
    split <;> simp

theorem Kept.entries_ne_nil (h : Kept P q s) (hi : s.ring.get 0 = some i) : s.entries ≠ [] := by
  rw [h.acct.entries_cons hi]
  simp

theorem Kept.not_drained (h : Kept P q s) (hi : s.ring.get 0 = some i) : ¬ P.drained := by
  intro hp
  have hpos := h.count_pos hi
  rw [(h.drained hp).2.1] at hpos
  cases hpos

section

variable (h : Kept P s.entries s) (hs : Stacked P s 1 st)
include h hs

/-- A group is handed to the provider as a whole. -/
theorem gso_after {k : LoopK}
    (hi : s.ring.get 0 = some i) (hwhole : (s.slots.out i).gsoWhole = true)
    (hgso : s.submitGso = true) (hk : P.steady → k.sound = true)
    (hidle : P.contract → s.inflightN = 0)
    (herr : P.sticky → s.err = false) (habort : P.abort → s.aborted = false) :
    After P st (.call s (.gso i (gsoCall (s.slots.out i)) s.groupIds k)) := by
  have hcons := h.acct.entries_cons hi
  refine .call _ _ h (hs.call rfl ?_ (fun hp _ hf => absurd (hidle hp) hf) hs.outer) ?_
  · refine ⟨nofun, fun hp hc => ?_, fun hp => ?_, nofun, rfl⟩
    · have hmode := h.modes hp hc (s.slots.out i) (hcons ▸ mem_cons_self)
      simp [hwhole] at hmode
    · have hne : s.groupIds ≠ [] := by
        rw [groupIds, ne_eq, map_eq_nil_iff]
        exact groupAt_ne_nil (h.entries_ne_nil hi)
      simp [Frame.sound, hk hp, hne]
  refine ⟨fun hp _ => herr hp, fun hp _ => habort hp, nofun, fun hp x hx => ?_,
    fun _ => h.not_drained hi⟩
  obtain ⟨j, hj, rfl⟩ := mem_mapIdx.mp hx
  obtain ⟨e, he⟩ : ∃ e, (groupAt s.entries)[j]? = some e :=
    ⟨_, getElem?_eq_getElem (by simpa [groupIds] using hj)⟩
  have hid : s.groupIds[j] = e.id := by
    have hmap : s.groupIds[j]? = some e.id := by
      rw [groupIds, getElem?_map, he]
      rfl
    rwa [getElem?_eq_getElem hj, Option.some.injEq] at hmap
  have hown := (h.books hp).content e ((groupAt_front s.entries).subset (mem_of_getElem? he))
  have hgroups := h.groups hp hgso
  rw [hcons] at hgroups he
  rw [hid, hown, (hgroups.1 hwhole).2 j e he]

/-- The head is submitted by the pump. -/
theorem submit_after (k : PumpK)
    (hi : s.ring.get 0 = some i) (halone : s.submitGso = true → (s.slots.out i).gsoWhole = false)
    (herr : P.sticky → s.err = false) (habort : P.abort → s.aborted = false) :
    After P st (.call (s.arm (s.slots.out i).id) (.submit (item (s.slots.out i)) k)) := by
  have hmem : s.slots.out i ∈ s.entries := h.acct.entries_cons hi ▸ mem_cons_self
  refine .call _ _ (h.arm hi halone habort) ⟨?_, ?_, fun _ _ _ => trivial, hs.outer⟩ ?_
  · rw [dispatches_cons_of rfl]
    exact hs.depth
  · refine forall_mem_cons.mpr ⟨⟨nofun, fun _ _ => rfl, fun _ => rfl, nofun, rfl⟩, fun f hf => ?_⟩
    exact (hs.frames f hf).mono rfl rfl fun _ => id
  · refine ⟨fun hp _ => herr hp, fun hp _ => habort hp, nofun, fun hp x hx => ?_,
      fun _ => h.not_drained hi⟩
    rw [mem_singleton.mp hx]
    exact (h.books hp).content _ hmem

/-- The pump submits the head, or ends. -/
theorem pumpLoop_after (k : PumpK)
    (hstick : P.sticky → s.err = true → s.inflightN ≠ 0 ∨ s.count = 0) :
    After P st (s.pumpLoop k) := by
  unfold pumpLoop
  split
  next hgo =>
    obtain ⟨i, hi⟩ := h.acct.get_of_pos hgo.2
    have herr : P.sticky → s.err = false := by
      intro hp
      by_contra herr
      have hstop := hstick hp (by simpa using herr)
      omega
    have habort : P.abort → s.aborted = false := by
      intro hp
      by_contra ha
      have hle := (h.abort hp (by simpa using ha)).2
      omega
    simp only [hi, gsoOr]
    split
    next hgso =>
      rw [Bool.and_eq_true] at hgso
      exact gso_after h hs hi hgso.1 hgso.2 (fun _ => rfl) (fun _ => hgo.1) herr habort
    next hgso =>
      refine submit_after h hs k hi (fun hon => ?_) herr habort
      simpa [hon] using hgso
  next => exact pumpDone_after h hs k

/-- The pump, unless it is running already. -/
theorem pump_after (k : PumpK) : After P st (s.pump k) := by
  unfold pump
  split
  · exact pumpDone_after h hs k
  next herr => exact pumpLoop_after h hs k fun _ he => absurd he herr

end

theorem headRun_subset {e : KlDgramSlot} (h : e ∈ headRun es) : e ∈ es := by
  cases es with
  | nil => exact h
  | cons x es =>
    rcases mem_cons.mp h with rfl | h
    · exact mem_cons_self
    · exact mem_cons_of_mem x ((takeWhile_sublist _).subset h)

/-- Where a loop may be entered again. -/
def Resumable (P : Scope) (s : KlDgramSend) : LoopK → Prop
  | .pump _ => P.sticky → s.err = true → s.inflightN ≠ 0 ∨ s.count = 0
  | .batch cap => (P.contract → s.inflightN = 0 ∧ s.completion = false) ∧ (P.steady → 0 < cap)

/-- The loop of a batch, up to its next hook. -/
theorem batchLoop_after (h : Kept P s.entries s) (hs : Stacked P s 1 st) {cap : Nat}
    (hr : Resumable P s (.batch cap)) : After P st (s.batchLoop cap) := by
  obtain ⟨hready, hcap⟩ := hr
  unfold batchLoop
  split
  next hgo =>
    rw [Bool.and_eq_true, Bool.not_eq_true', decide_eq_true_eq] at hgo
    obtain ⟨i, hi⟩ := h.acct.get_of_pos hgo.2
    have hidle : P.contract → s.inflightN = 0 := fun hp => (hready hp).1
    have habort : P.abort → s.aborted = false := by
      intro hp
      by_contra ha
      have hle := (h.abort hp (by simpa using ha)).2
      have hzero := hidle (P.contract_of_abort hp)
      omega
    simp only [hi, gsoOr]
    split
    next hgso =>
      rw [Bool.and_eq_true] at hgso
      exact gso_after h hs hi hgso.1 hgso.2 (fun hp => decide_eq_true (hcap hp)) hidle
        (fun _ => hgo.1) habort
    next hgso =>
      have hle : min s.count cap ≤ s.ring.toList.length := by
        rw [← h.acct.ring.count]
        exact Nat.min_le_left _ _
      rw [h.acct.ring.mapM_get hle]
      have hrun : ∀ e ∈ headRun ((s.ring.toList.take (min s.count cap)).map s.slots.out),
          e ∈ s.entries := by
        intro e he
        have hmem := headRun_subset he
        rw [map_take] at hmem
        exact mem_of_mem_take hmem
      refine .call _ _ h (hs.call rfl ?_ (fun hp _ hf => absurd (hidle hp) hf) hs.outer) ?_
      · refine ⟨nofun, fun hp hc => ?_, fun hp => ?_, nofun, rfl⟩
        · simp [(hready hp).2] at hc
        · have hpos : 0 < min s.count cap := by
            have := hcap hp
            omega
          obtain ⟨rest, hlist, -⟩ := h.acct.head hi
          obtain ⟨n, hn⟩ : ∃ n, min s.count cap = n + 1 := ⟨_, (Nat.succ_pred_eq_of_pos hpos).symm⟩
          simp [Frame.sound, hcap hp, hlist, hn, headRun]
      · refine ⟨fun _ _ => hgo.1, fun hp _ => habort hp, nofun, fun hp x hx => ?_,
          fun _ => h.not_drained hi⟩
        obtain ⟨e, he, rfl⟩ := mem_map.mp hx
        exact (h.books hp).content e (hrun e he)
  next => exact batchDone_after h hs

/-- The loop that a hook interrupted goes on. -/
theorem loop_after (h : Kept P s.entries s) (hs : Stacked P s 1 st)
    (hr : Resumable P s k) : After P st (s.loop k) := by
  cases k with
  | pump k => exact pumpLoop_after h hs k hr
  | batch cap => exact batchLoop_after h hs hr

/-! ## Retirement -/

theorem Alike.trans {s₁ s₂ s₃ : KlDgramSend} (h : Alike s₁ s₂) (h' : Alike s₂ s₃) :
    Alike s₁ s₃ where
  depth := h'.depth.trans h.depth
  drop := h'.drop.trans h.drop
  mode := h'.mode.trans h.mode
  flight := h'.flight.trans h.flight
  refused := h'.refused.trans h.refused
  err := h'.err.trans h.err

theorem alike_popHead (s : KlDgramSend) (i : Nat) : Alike s (s.popHead i false) :=
  ⟨rfl, rfl, rfl, rfl, rfl, rfl⟩

section

variable (h : Kept P q s) (hin : 0 < s.inDispatch) (hidle : P.contract → s.inflightN = 0)
include h hin hidle

/-- The head is sent and leaves its slot. -/
theorem Kept.retired {i : Nat} (hi : s.ring.get 0 = some i) : Kept P q (s.popHead i false) :=
  h.popHead hi hin fun hp => .inr (hidle hp)

variable {n : Nat}

/-- `send_retire_gso_group`, when it comes to its end. -/
theorem Kept.retireGroup (hr : retireGroup n s = some s') :
    Kept P q s' ∧ Alike s s' ∧ s'.entries = s.entries.drop (groupAt s.entries).length := by
  induction n generalizing s with
  | zero => cases hr
  | succ n ih =>
    unfold KlDgramSend.retireGroup at hr
    cases hi : s.ring.get 0 with
    | none => simp [hi] at hr
    | some i =>
      simp only [hi] at hr
      have hkept := h.retired hin hidle hi
      have htail := (h.acct.popHead hi false).2
      have hcons := h.acct.entries_cons hi
      split at hr
      next hend =>
        cases hr
        refine ⟨hkept, alike_popHead s i, ?_⟩
        -- the group ends here, because it is marked or because the queue does
        have hone : (groupAt s.entries).length = 1 := by
          rw [hcons]
          simp only [groupAt]
          split
          · rfl
          next hlast =>
            have hzero : (s.popHead i false).count = 0 := by simpa [hlast] using hend
            rw [hkept.acct.count_eq, htail, length_eq_zero_iff] at hzero
            rw [hzero]
            rfl
        rw [htail, hone, drop_one]
      next hmore =>
        simp only [Bool.or_eq_true, not_or] at hmore
        obtain ⟨hkept', halike, hentries⟩ := ih hkept hin hidle hr
        refine ⟨hkept', (alike_popHead s i).trans halike, ?_⟩
        rw [hentries, htail, hcons, tail_cons]
        simp only [groupAt, hmore.1]
        rfl

/-- A group at the head can be retired. -/
theorem retireGroup_ne_none (hne : s.entries ≠ []) (hn : s.entries.length ≤ n) :
    retireGroup n s ≠ none := by
  induction n generalizing s with
  | zero => exact absurd (length_eq_zero_iff.mp (Nat.le_zero.mp hn)) hne
  | succ n ih =>
    unfold retireGroup
    cases hi : s.ring.get 0 with
    | none => exact absurd (h.acct.no_head hi) hne
    | some i =>
      have hkept := h.retired hin hidle hi
      have htail := (h.acct.popHead hi false).2
      simp only
      split
      · simp
      next hmore =>
        simp only [Bool.or_eq_true, not_or, beq_iff_eq] at hmore
        refine ih hkept hin hidle (fun hnil => ?_) ?_
        · rw [hkept.acct.count_eq, hnil] at hmore
          exact hmore.2 rfl
        · rw [htail, length_tail]
          omega

/-- The head is retired `n` times. -/
theorem Kept.retireHeads (hr : retireHeads n s = some s') :
    Kept P q s' ∧ Alike s s' ∧ s'.entries = s.entries.drop n := by
  induction n generalizing s with
  | zero =>
    cases hr
    exact ⟨h, ⟨rfl, rfl, rfl, rfl, rfl, rfl⟩, rfl⟩
  | succ n ih =>
    unfold KlDgramSend.retireHeads KlDgramSend.retireHead at hr
    cases hi : s.ring.get 0 with
    | none => simp [hi] at hr
    | some i =>
      simp only [hi, Option.map_some, Option.bind_some] at hr
      have hkept := h.retired hin hidle hi
      obtain ⟨hkept', halike, hentries⟩ := ih hkept hin hidle hr
      refine ⟨hkept', (alike_popHead s i).trans halike, ?_⟩
      rw [hentries, (h.acct.popHead hi false).2, drop_tail]

theorem retireHeads_ne_none (hn : n ≤ s.entries.length) : retireHeads n s ≠ none := by
  induction n generalizing s with
  | zero => simp [retireHeads]
  | succ n ih =>
    unfold retireHeads retireHead
    cases hi : s.ring.get 0 with
    | none =>
      rw [h.acct.no_head hi] at hn
      cases hn
    | some i =>
      have hkept := h.retired hin hidle hi
      refine ih hkept hin hidle ?_
      rw [(h.acct.popHead hi false).2, length_tail]
      omega

end

/-! ## Drops -/

/-- The head is dropped and counted. -/
theorem Kept.dropHead (h : Kept P s.entries s) (hi : s.ring.get 0 = some i) (hin : 0 < s.inDispatch)
    {b : Bool} (hb : P.contract → b = true ∨ s.inflightN = 0)
    (hblame : P.fifo → (s.slots.out i).id ∈ s.refused) :
    Kept P ((s.popHead i b).countDrop (s.slots.out i).id).entries
      ((s.popHead i b).countDrop (s.slots.out i).id) := by
  have hkept : Kept P s.entries (s.popHead i b) := h.popHead hi hin hb
  rw [h.acct.entries_cons hi] at hkept
  have hentries : ((s.popHead i b).countDrop (s.slots.out i).id).entries = s.entries.tail :=
    (h.acct.popHead hi b).2
  rw [hentries]
  exact hkept.countDrop hblame

/-- Where the loop of a drop may be entered again. -/
def DropK.Resumable (P : Scope) (s : KlDgramSend) : DropK → Prop
  | .pump k => s.onDrop = false → KlDgramSend.Resumable P s (.pump k)
  | .batch cap => KlDgramSend.Resumable P s (.batch cap)
  | .group _ _ _ => False
  | .complete => True

theorem completeTail_after (h : Kept P s.entries s) (hs : Stacked P s 1 st) :
    After P st s.completeTail := by
  unfold completeTail
  split
  · exact pump_after h hs .complete
  · exact pumpDone_after h hs .complete

/-- A drop is reported where a callback is installed. -/
theorem reportDrop_after (h : Kept P s.entries s) (hs : Stacked P s 1 st) {k : DropK}
    (hidle : P.contract → s.inflightN = 0) (hr : k.Resumable P s) :
    After P st (s.reportDrop k) := by
  unfold reportDrop
  split
  next hon =>
    refine .call _ _ h (hs.call rfl ?_ (fun hp _ hf => absurd (hidle hp) hf) hs.outer)
      (callOk_of_callback rfl rfl nofun)
    cases k with
    | pump k => exact ⟨fun _ _ => hon, fun _ _ => rfl, fun _ => rfl, nofun, rfl⟩
    | batch cap =>
      refine ⟨fun _ _ => hon, fun hp hc => ?_, fun hp => decide_eq_true (hr.2 hp), nofun, rfl⟩
      simp [(hr.1 hp).2] at hc
    | group last rest k => exact absurd hr id
    | complete => exact ⟨fun _ _ => hon, fun _ _ => rfl, fun _ => rfl, nofun, rfl⟩
  next hoff =>
    cases k with
    | pump k => exact pumpLoop_after h hs k (hr (by simpa using hoff))
    | batch cap => exact batchLoop_after h hs hr
    | group last rest k => exact absurd hr id
    | complete => exact completeTail_after h hs

/-- Until its last slot is gone, the rest of a group is at the head. -/
theorem groupIds_dropHead (h : Kept P q s) (hi : s.ring.get 0 = some i) :
    s.groupIds = (s.slots.out i).id :: if (s.slots.out i).gsoLast then []
      else ((s.popHead i false).countDrop (s.slots.out i).id).groupIds := by
  have hentries : ((s.popHead i false).countDrop (s.slots.out i).id).entries = s.entries.tail :=
    (h.acct.popHead hi false).2
  rw [groupIds, groupIds, hentries, h.acct.entries_cons hi, tail_cons]
  simp only [groupAt]
  split <;> rfl

/-- `send_retire_gso_group` with `send_drop_head`: without on_drop it goes through the whole
group, else it stops at the first slot. -/
theorem dropGroup_after {n : Nat} {ids : List Nat} (h : Kept P s.entries s)
    (hs : Stacked P s 1 st) (hidle : P.contract → s.inflightN = 0 ∧ s.completion = false)
    (hsteady : P.steady → s.entries ≠ [] ∧ k.sound = true) (hn : s.entries.length ≤ n)
    (hids : P.fifo → s.groupIds = ids ∧ ∀ id ∈ ids, id ∈ s.refused)
    (hstick : ∀ p, k = .pump p → P.sticky → s.err = true →
      s.inflightN ≠ 0 ∨ s.onDrop = true ∨ s.groupIds.length = s.count) :
    After P st (dropGroup n ids k s) := by
  induction n generalizing s ids with
  | zero =>
    refine fault_after h hs fun hp => (hsteady hp).1 ?_
    exact length_eq_zero_iff.mp (Nat.le_zero.mp hn)
  | succ n ih =>
    unfold dropGroup
    cases hi : s.ring.get 0 with
    | none => exact fault_after h hs fun hp => (hsteady hp).1 (h.acct.no_head hi)
    | some i =>
      have hgroup := groupIds_dropHead h hi
      obtain ⟨t, ht⟩ : ∃ t, t = (s.popHead i false).countDrop (s.slots.out i).id := ⟨_, rfl⟩
      have hkept : Kept P t.entries t := by
        rw [ht]
        refine h.dropHead hi hs.inDispatch_pos
          (fun hp => .inr (hidle hp).1) fun hp => ?_
        obtain ⟨hids, hrefused⟩ := hids hp
        exact hrefused _ (hids ▸ hgroup ▸ mem_cons_self)
      have halike : Alike s t := by
        rw [ht]
        exact ⟨rfl, rfl, rfl, rfl, rfl, rfl⟩
      have hstacked : Stacked P t 1 st := hs.alike halike
      have htail : t.entries = s.entries.tail := by
        rw [ht]
        exact (h.acct.popHead hi false).2
      have hcount : t.count = s.count - 1 := by
        rw [ht]
        rfl
      have hready : P.contract → t.inflightN = 0 ∧ t.completion = false := by
        rw [halike.flight, halike.mode]
        exact hidle
      have hrest : P.fifo → ∀ id ∈ ids.tail, id ∈ t.refused := by
        intro hp id hid
        rw [halike.refused]
        exact (hids hp).2 id (mem_of_mem_tail hid)
      simp only
      rw [← ht]
      split
      next hon =>
        refine .call _ _ hkept (hstacked.call rfl ?_ (fun hp _ hf =>
          absurd (hready hp).1 hf) hs.outer)
          (callOk_of_callback rfl rfl nofun)
        refine ⟨fun _ _ => halike.drop.trans hon, fun hp hc => ?_, fun hp => (hsteady hp).2, ?_,
          rfl⟩
        · simp [(hready hp).2] at hc
        · rintro hp last rest p ⟨⟩
          exact hrest hp
      next hoff =>
        have hcountEq : (s.popHead i false).count = t.count := by
          rw [ht]
          rfl
        rw [hcountEq]
        split
        next hend =>
          refine loop_after hkept hstacked ?_
          cases k with
          | batch cap => exact ⟨hready, fun hp => by simpa [LoopK.sound] using (hsteady hp).2⟩
          | pump p =>
            intro hp herr
            rcases hstick p rfl hp (halike.err ▸ herr) with hf | hon | hlen
            · exact .inl (halike.flight.symm ▸ hf)
            · exact absurd hon hoff
            refine .inr ?_
            rw [hgroup, length_cons] at hlen
            split at hlen
            next => rw [hcount, ← hlen]; rfl
            next hlast => simpa [hlast] using hend
        next hmore =>
          simp only [Bool.or_eq_true, not_or, beq_iff_eq] at hmore
          have hgroup' : s.groupIds = (s.slots.out i).id :: t.groupIds := by
            rw [hgroup, if_neg hmore.1, ht]
          have hne : t.entries ≠ [] := by
            intro hnil
            rw [hkept.acct.count_eq, hnil] at hmore
            exact hmore.2 rfl
          refine ih hkept hstacked hready (fun hp => ⟨hne, (hsteady hp).2⟩) ?_ ?_ ?_
          · rw [htail, length_tail]
            omega
          · intro hp
            refine ⟨?_, hrest hp⟩
            rw [← (hids hp).1, hgroup', tail_cons]
          · intro p hk hp herr
            rcases hstick p hk hp (halike.err ▸ herr) with hf | hon | hlen
            · exact .inl (halike.flight.symm ▸ hf)
            · exact absurd hon hoff
            · rw [hgroup', length_cons] at hlen
              exact .inr (.inr (by omega))

end KlDgramSend
