-- SUMMARY: Every stretch of the send machine keeps the invariant.
import Keel.Datagram.Sending

/-!
# The stretches of the send machine

What each hook returns to, then the entry points. `enter_after` and `afterHook_after`
put them together: one stretch of the machine keeps the invariant, if what starts it
meets the conditions of the scope.
-/

open Reentrant List

namespace KlDgramSend

variable {P : Scope} {q : List KlDgramSlot} {s s' : KlDgramSend} {st : List Frame} {i : Nat}
  {k : DropK} {x : Item} {a : Answer} {m : KlDatagramMessage}

/-! ## After a submission -/

/-- The head of the queue is the slot at the front of the ring. -/
theorem Kept.headId_eq (h : Kept P q s) (hi : s.ring.get 0 = some i) :
    s.headId = some (s.slots.out i).id := by
  rw [headId, h.head_mem hi]
  rfl

theorem Kept.headRecoverable_eq (h : Kept P q s) (hi : s.ring.get 0 = some i) :
    s.headRecoverable = (s.slots.out i).recoverable := by
  rw [headRecoverable, h.head_mem hi]
  rfl

/-- An empty ring has no datagram. -/
theorem Kept.count_eq_zero (h : Kept P q s) (hi : s.ring.get 0 = none) : s.count = 0 := by
  rw [h.acct.count_eq, h.acct.no_head hi]
  rfl

/-- The head was taken by the provider. -/
theorem Kept.handHead (h : Kept P s.entries s) (hi : s.ring.get 0 = some i) {id : Nat}
    (hid : P.fifo → s.headId = some id) : Kept P s.entries.tail (s.hand [id]) := by
  have hcons := h.acct.entries_cons hi
  have hsplit : Kept P ([s.slots.out i] ++ s.entries.tail) s := by
    rw [singleton_append, ← hcons]
    exact h
  refine hsplit.hand fun hp => ?_
  have hhead := hid hp
  rw [h.headId_eq hi, Option.some.injEq] at hhead
  rw [map_singleton, hhead]

theorem retireThen_none {next : KlDgramSend → SOut} (hi : s.ring.get 0 = none) :
    s.retireThen next = s.fault := by
  rw [retireThen, retireHead, hi]
  rfl

theorem retireThen_some {next : KlDgramSend → SOut} (hi : s.ring.get 0 = some i) :
    s.retireThen next = next (s.popHead i false) := by
  rw [retireThen, retireHead, hi]
  rfl

theorem dropHead_none (hi : s.ring.get 0 = none) : s.dropHead k = s.fault := by
  rw [dropHead, hi]

theorem dropHead_some (hi : s.ring.get 0 = some i) :
    s.dropHead k = ((s.popHead i false).countDrop (s.slots.out i).id).reportDrop k := by
  rw [dropHead, hi]

theorem failHead_none {stick : KlDgramSend → SOut}
    (hi : s.ring.get 0 = none) : s.failHead x k stick = s.fault := by
  rw [failHead, hi]

theorem failHead_some {stick : KlDgramSend → SOut}
    (hi : s.ring.get 0 = some i) : s.failHead x k stick =
      if (s.slots.out i).recoverable then (s.refuse [x.id]).dropHead k else stick s.setErr := by
  rw [failHead, hi]

/-- The pump has the result of a submission and has disarmed. -/
structure Submitted (P : Scope) (s : KlDgramSend) (x : Item) (st : List Frame) : Prop where
  kept : Kept P s.entries s
  stacked : Stacked P s.unarm 1 st
  head : P.steady → s.headId = some x.id

namespace Submitted

variable {k : PumpK}

theorem not_steady (h : Submitted P s x st) (hi : s.ring.get 0 = none) : ¬ P.steady := by
  intro hp
  have hhead := h.head hp
  simp [headId, h.kept.acct.no_head hi] at hhead

/-- The head was sent, and the pump goes on. -/
theorem done (h : Submitted P s x st) (k : PumpK)
    (hstick : P.sticky → s.err = true → s.count ≤ 1) :
    After P st ((s.hand [x.id]).unarm.retireThen (·.pumpLoop k)) := by
  have hstacked : Stacked P (s.hand [x.id]).unarm 1 st := h.stacked.mono rfl rfl rfl id fun _ => id
  cases hi : (s.hand [x.id]).unarm.ring.get 0 with
  | none =>
    have hp := h.not_steady hi
    have hfifo : ¬ P.fifo := fun hf => hp (P.steady_of_fifo hf)
    have hkept : Kept P [] (s.hand [x.id]) :=
      (h.kept.requeue hfifo ([] ++ [])).hand fun hf => absurd hf hfifo
    rw [retireThen_none hi]
    exact fault_after (hkept.unarm fun _ _ => h.kept.count_eq_zero hi) hstacked hp
  | some i =>
    have hhand : Kept P s.entries.tail (s.hand [x.id]) :=
      h.kept.handHead hi fun hp => h.head (P.steady_of_fifo hp)
    have hpop : Kept P ((s.hand [x.id]).unarm.popHead i false).entries
        ((s.hand [x.id]).unarm.popHead i false) := by
      have hentries : ((s.hand [x.id]).unarm.popHead i false).entries = s.entries.tail :=
        (h.kept.acct.popHead hi false).2
      rw [hentries, hhand.unarm_popHead i]
      exact hhand.popHead hi h.stacked.inDispatch_pos fun _ => .inl rfl
    rw [retireThen_some hi]
    refine pumpLoop_after hpop (hstacked.alike (alike_popHead _ i)) k fun hp herr => .inr ?_
    exact Nat.sub_eq_zero_of_le (hstick hp herr)

/-- The head was refused, and the pump drops it. -/
theorem dropped (h : Submitted P s x st) (k : PumpK)
    (hstick : P.sticky → s.err = true → s.onDrop = false → s.count ≤ 1) :
    After P st ((s.refuse [x.id]).unarm.dropHead (.pump k)) := by
  have hrefuse : Kept P (s.refuse [x.id]).entries (s.refuse [x.id]) := h.kept.refuse [x.id]
  have hstacked : Stacked P (s.refuse [x.id]).unarm 1 st :=
    h.stacked.mono rfl rfl rfl id fun _ => mem_append_left _
  cases hi : (s.refuse [x.id]).unarm.ring.get 0 with
  | none =>
    rw [dropHead_none hi]
    exact fault_after (hrefuse.unarm fun _ _ => h.kept.count_eq_zero hi) hstacked (h.not_steady hi)
  | some i =>
    have hblame : P.fifo → ((s.refuse [x.id]).slots.out i).id ∈ (s.refuse [x.id]).refused := by
      intro hp
      have hhead := h.head (P.steady_of_fifo hp)
      rw [h.kept.headId_eq hi, Option.some.injEq] at hhead
      show (s.slots.out i).id ∈ s.refused ++ [x.id]
      rw [hhead]
      simp
    have hdrop := hrefuse.dropHead hi h.stacked.inDispatch_pos (fun _ => .inl rfl) hblame
    rw [← hrefuse.unarm_popHead i] at hdrop
    rw [dropHead_some hi]
    refine reportDrop_after hdrop ?_ (fun _ => rfl) fun hoff hp herr => .inr ?_
    · exact hstacked.mono rfl rfl rfl id fun _ => id
    · exact Nat.sub_eq_zero_of_le (hstick hp herr hoff)

end Submitted

/-- The answer of the submit hook, when the datagram is still there. -/
theorem submitted_after {k : PumpK} (h : Kept P s.entries s)
    (hs : Stacked P s 0 (.submit x k :: st)) (hm : RetMet P s (.submit x k) a)
    (hret : s.submitRetired = false) : After P st (s.endSubmit.submitted x k a.r) := by
  have hkept : Kept P s.endSubmit.entries s.endSubmit := h.endSubmit
  have hzero : Stacked P s.endSubmit.unarm 1 st :=
    (hs.mono rfl rfl rfl (fun hf => absurd rfl hf) fun _ =>
      id : Stacked P s.endSubmit.unarm 0 _).resume
      rfl fun _ _ hf => absurd rfl hf
  -- any other answer than INFLIGHT disarms
  have hsub : a.r ≠ .inflight → Submitted P s.endSubmit x st := fun hr =>
    ⟨hkept, hzero, fun hp => (hm.steady hp hret hr).2⟩
  have hstick : P.sticky → s.err = true → s.goesOn a.r = true → s.count ≤ 1 := by
    intro hp herr
    simpa [Halting, hret] using hm.sticky hp herr
  have hfail : a.r = .error ∨ a.r = .unsupported → After P st
      (s.endSubmit.unarm.failHead x (.pump k) (·.pumpDone k)) := by
    intro hr
    have hne : a.r ≠ .inflight := by rcases hr with hr | hr <;> simp [hr]
    cases hi : s.endSubmit.unarm.ring.get 0 with
    | none =>
      rw [failHead_none hi]
      exact fault_after (hkept.unarm fun _ _ => h.count_eq_zero hi) hzero ((hsub hne).not_steady hi)
    | some i =>
      have hrecov : s.headRecoverable = (s.slots.out i).recoverable := h.headRecoverable_eq hi
      rw [failHead_some hi]
      split
      next hyes =>
        refine (hsub hne).dropped k fun hp herr hoff => hstick hp herr ?_
        have hrec : (s.slots.out i).recoverable = true := hyes
        have hon : s.headRecoverable && !s.onDrop := by simpa [hrecov, hrec] using hoff
        rcases hr with hr | hr <;> rw [hr] <;> exact hon
      next hno =>
        have hunarm : Kept P s.endSubmit.unarm.entries s.endSubmit.unarm :=
          hkept.unarm fun hp ha => by
          by_contra hpos
          exact hno (hrecov ▸ (hm.abort hp ha hret hpos).2 hr)
        exact pumpDone_after (s := s.endSubmit.unarm.setErr) hunarm.setErr
          (hzero.mono rfl rfl rfl id fun _ => id) k
  cases hr : a.r with
  | inflight =>
    refine pumpDone_after hkept (hs.resume rfl ?_ |>.mono rfl rfl rfl id fun _ => id) k
    exact fun hp hc => absurd hr (hm.contract hp hc)
  | done => exact (hsub (by simp [hr])).done k fun hp herr => hstick hp herr (by rw [hr]; rfl)
  | wouldblock =>
    refine pumpDone_after (hkept.unarm fun hp ha => ?_) hzero k
    by_contra hpos
    exact (hm.abort hp ha hret hpos).1 hr
  | dropped =>
    refine (hsub (by simp [hr])).dropped k fun hp herr hoff => hstick hp herr ?_
    rw [hr]
    simpa [goesOn] using hoff
  | error => exact hfail (.inl hr)
  | unsupported => exact hfail (.inr hr)

/-- The submit hook returns, and may have been overtaken by its completion. -/
theorem submitReturned_after {k : PumpK} (h : Kept P s.entries s)
    (hs : Stacked P s 0 (.submit x k :: st)) (hm : RetMet P s (.submit x k) a) :
    After P st (s.submitReturned x k a.r) := by
  unfold submitReturned
  split
  next hret =>
    -- an inline completion has retired the head
    have hkept : Kept P s.endSubmit.entries s.endSubmit := h.endSubmit
    have hstacked : Stacked P s.endSubmit 1 st :=
      (hs.resume rfl fun hp _ hf => absurd (h.idle hp hret) hf).mono rfl rfl rfl id fun _ => id
    split
    next =>
      exact pumpDone_after (s := s.endSubmit.setErr) hkept.setErr
        (hstacked.mono rfl rfl rfl id fun _ => id) k
    next hr =>
      refine pumpLoop_after hkept hstacked k fun hp herr => .inr ?_
      have hhalt : a.r = .error ∨ s.count = 0 := by simpa [Halting, hret] using hm.sticky hp herr
      exact hhalt.resolve_left hr
  next hret => exact submitted_after h hs hm (by simpa using hret)

/-- A hook of the readiness machine returns. -/
theorem Stacked.readiness {f : Frame} (h : Stacked P s 0 (f :: st)) (hf : f.readiness = true)
    (hpend : ¬ Pending (f :: st)) : P.contract → s.inflightN = 0 ∧ s.completion = false := by
  intro hp
  have hmode : s.completion = false := by
    by_contra hc
    have hready := (h.frames f mem_cons_self).ready hp (by simpa using hc)
    simp [hf] at hready
  refine ⟨?_, hmode⟩
  by_contra hne
  exact hpend (h.pending hp hmode hne)

/-- The return of a segmented send. -/
theorem gsoReturned_after {g : GsoCall} {ids : List Nat} {k : LoopK}
    (h : Kept P s.entries s) (hs : Stacked P s 0 (.gso i g ids k :: st))
    (hm : RetMet P s (.gso i g ids k) a) : After P st (s.gsoReturned i ids k a.r) := by
  have hready := hs.readiness rfl id
  have hstacked : Stacked P s 1 st := hs.resume rfl fun hp _ hf => absurd (hready hp).1 hf
  have hsound : P.steady → ids ≠ [] ∧ k.sound = true := by
    intro hp
    simpa [Frame.sound] using (hs.frames _ mem_cons_self).sound hp
  have hidle : P.contract → s.inflightN = 0 := fun hp => (hready hp).1
  have hne : a.r ≠ .wouldblock → a.r ≠ .unsupported → P.steady → s.entries ≠ [] := by
    intro hw hu hp hnil
    have hids : s.groupIds = ids := hm.steady hp hw hu
    refine (hsound hp).1 ?_
    rw [← hids, groupIds, hnil]
    rfl
  have hstick : ∀ p, k = .pump p → P.sticky → s.err = true → a.r ≠ .wouldblock → s.inflightN ≠ 0 ∨
      a.r ≠ .unsupported ∧ (s.groupIds.length = s.count ∨ a.r ≠ .done ∧ s.onDrop = true) := by
    rintro p rfl hp herr hw
    exact (hm.sticky hp herr).resolve_left hw
  have hbatch : ∀ cap, k = .batch cap → P.steady → 0 < cap := by
    rintro cap rfl hp
    simpa [LoopK.sound] using (hsound hp).2
  cases hr : a.r with
  | done =>
    have hhand : Kept P (s.entries.drop (groupAt s.entries).length) (s.hand ids) := by
      obtain ⟨rest, hrest⟩ := groupAt_front s.entries
      have hdrop : s.entries.drop (groupAt s.entries).length = rest := by
        obtain ⟨front, hfront⟩ : ∃ front, front = groupAt s.entries := ⟨_, rfl⟩
        rw [← hfront] at hrest ⊢
        rw [← hrest, drop_left]
      have hsplit : Kept P (groupAt s.entries ++ rest) s := hrest.symm ▸ h
      rw [hdrop]
      exact hsplit.hand fun hp =>
        (hm.steady (P.steady_of_fifo hp) (by simp [hr]) (by simp [hr])).symm
    simp only [gsoReturned]
    cases hg : retireGroup s.count (s.hand ids) with
    | none =>
      refine fault_after h hstacked fun hp => ?_
      refine retireGroup_ne_none hhand hstacked.inDispatch_pos hidle
        (hne (by simp [hr]) (by simp [hr]) hp) ?_ hg
      exact Nat.le_of_eq h.acct.count_eq.symm
    | some s' =>
      obtain ⟨hkept, halike, hentries⟩ := hhand.retireGroup hstacked.inDispatch_pos hidle hg
      have hentries' : s'.entries = s.entries.drop (groupAt s.entries).length := hentries
      have hstacked' : Stacked P (s.hand ids) 1 st := hstacked.mono rfl rfl rfl id fun _ => id
      refine loop_after (hentries'.symm ▸ hkept) (hstacked'.alike halike) ?_
      cases k with
      | batch cap =>
        refine ⟨fun hp => ?_, hbatch cap rfl⟩
        rw [halike.flight, halike.mode]
        exact hready hp
      | pump p =>
        intro hp herr
        rw [halike.flight]
        rcases hstick p rfl hp (halike.err ▸ herr) (by simp [hr]) with hf | ⟨-, hlen | hd⟩
        · exact .inl hf
        · refine .inr ?_
          rw [groupIds, length_map, h.acct.count_eq] at hlen
          rw [hkept.acct.count_eq, hentries', hlen, drop_length]
          rfl
        · exact absurd hr hd.1
  | wouldblock => exact loopDone_after h hstacked k
  | unsupported =>
    refine loop_after (h.setFallback i fun hp => hidle (P.contract_of_steady (P.steady_of_fifo hp)))
      (hstacked.mono rfl rfl rfl id fun _ => id) ?_
    cases k with
    | batch cap => exact ⟨hready, hbatch cap rfl⟩
    | pump p =>
      intro hp herr
      rcases hstick p rfl hp herr (by simp [hr]) with hf | ⟨hu, -⟩
      · exact .inl hf
      · exact absurd hr hu
  | error | inflight | dropped =>
    refine dropGroup_after (h.refuse ids) (hstacked.mono rfl rfl rfl id fun _ => mem_append_left _)
      hready (fun hp => ⟨hne (by simp [hr]) (by simp [hr]) hp, (hsound hp).2⟩)
      (Nat.le_of_eq h.acct.count_eq.symm) (fun hp => ⟨?_, fun id hid => ?_⟩) ?_
    · exact hm.steady (P.steady_of_fifo hp) (by simp [hr]) (by simp [hr])
    · exact mem_append_right _ hid
    · intro p hk hp herr
      rcases hstick p hk hp herr (by simp [hr]) with hf | ⟨-, hlen | hd⟩
      · exact .inl hf
      · exact .inr (.inr hlen)
      · exact .inr (.inl hd.2)

/-- No more is sent than was handed over. -/
theorem sentPrefix_le (sent : Int) (n : Nat) : sentPrefix sent n ≤ n := Nat.min_le_right _ _

variable {cap : Nat} {v : KlDatagramSendStatus}

/-- The return of a batch: the datagrams it took leave the queue. -/
theorem batchReturned_after {xs : List Item} (h : Kept P s.entries s)
    (hs : Stacked P s 0 (.batch xs cap :: st)) (hm : RetMet P s (.batch xs cap) a) :
    After P st (s.batchReturned xs cap a) := by
  have hready := hs.readiness rfl id
  have hstacked : Stacked P s 1 st := hs.resume rfl fun hp _ hf => absurd (hready hp).1 hf
  have hsound : P.steady → xs ≠ [] ∧ 0 < cap := by
    intro hp
    simpa [Frame.sound] using (hs.frames _ mem_cons_self).sound hp
  have hidle : P.contract → s.inflightN = 0 := fun hp => (hready hp).1
  unfold batchReturned
  cases hbr : a.br with
  | sent =>
    obtain ⟨n, hn⟩ : ∃ n, n = sentPrefix a.sent xs.length := ⟨_, rfl⟩
    have hle : n ≤ xs.length := hn ▸ sentPrefix_le _ _
    have hpre : P.steady → xs.map (·.id) <+: s.entries.map (·.id) :=
      fun hp => hm.steady hp (by simp [hbr])
    have hhand : Kept P (s.entries.drop n) (s.hand ((xs.take n).map (·.id))) := by
      have hsplit : Kept P (s.entries.take n ++ s.entries.drop n) s := by
        rw [take_append_drop]
        exact h
      refine hsplit.hand fun hp => ?_
      obtain ⟨rest, hrest⟩ := hpre (P.steady_of_fifo hp)
      rw [map_take, map_take, ← hrest, take_append_of_le_length]
      rw [length_map]
      exact hle
    rw [← hn]
    cases hr : retireHeads n (s.hand ((xs.take n).map (·.id))) with
    | none =>
      refine fault_after h hstacked fun hp => ?_
      refine retireHeads_ne_none hhand hstacked.inDispatch_pos hidle ?_ hr
      have hlen := (hpre hp).length_le
      rw [length_map, length_map] at hlen
      exact Nat.le_trans hle hlen
    | some s' =>
      obtain ⟨hkept, halike, hentries⟩ := hhand.retireHeads hstacked.inDispatch_pos hidle hr
      have hkept' : Kept P s'.entries s' := by
        rw [hentries]
        exact hkept
      have hstacked' : Stacked P (s.hand ((xs.take n).map (·.id))) 1 st :=
        hstacked.mono rfl rfl rfl id fun _ => id
      simp only
      split
      · exact batchDone_after hkept' (hstacked'.alike halike)
      refine batchLoop_after hkept' (hstacked'.alike halike)
        ⟨fun hp => ?_, fun hp => (hsound hp).2⟩
      rw [halike.flight, halike.mode]
      exact hready hp
  | wouldblock => exact batchDone_after h hstacked
  | error =>
    cases hi : s.ring.get 0 with
    | none =>
      refine fault_after h hstacked fun hp => (hsound hp).1 ?_
      have hpre := hm.steady hp (by simp [hbr])
      rw [h.acct.no_head hi] at hpre
      simpa using hpre
    | some i =>
      -- the head is submitted alone
      refine .call _ _ h (hstacked.call rfl ?_ (fun hp _ hf =>
        absurd (hready hp).1 hf) hstacked.outer) ?_
      · refine ⟨fun k hf => (by cases hf), fun hp hc => ?_, fun hp => decide_eq_true (hsound hp).2,
          fun _ _ _ _ hf => (by cases hf), rfl⟩
        simp [(hready hp).2] at hc
      refine ⟨fun hp _ => ?_, fun hp _ => ?_, fun _ hf => (by cases hf), fun hp x hx => ?_, fun _ =>
        h.not_drained hi⟩
      · by_contra herr
        exact hm.sticky hp (by simpa using herr) hbr
      · by_contra ha
        have hle := (h.abort hp (by simpa using ha)).2
        have hpos := h.count_pos hi
        have hzero := (hready (P.contract_of_abort hp)).1
        omega
      · rw [mem_singleton.mp hx]
        exact (h.books hp).content _ (h.acct.entries_cons hi ▸ mem_cons_self)

/-- The head is dropped by the batch loop. -/
theorem batchDrop_after (h : Kept P s.entries s) (hs : Stacked P s 1 st) {id : Nat}
    (hhead : P.steady → s.headId = some id) (hr : Resumable P s (.batch cap)) :
    After P st ((s.refuse [id]).dropHead (.batch cap)) := by
  have hrefuse : Kept P (s.refuse [id]).entries (s.refuse [id]) := h.refuse [id]
  have hstacked : Stacked P (s.refuse [id]) 1 st :=
    hs.mono rfl rfl rfl (fun hf => hf) fun _ => mem_append_left _
  cases hi : (s.refuse [id]).ring.get 0 with
  | none =>
    rw [dropHead_none hi]
    refine fault_after hrefuse hstacked fun hp => ?_
    have hid := hhead hp
    simp [headId, h.acct.no_head hi] at hid
  | some i =>
    have hblame : P.fifo → ((s.refuse [id]).slots.out i).id ∈ (s.refuse [id]).refused := by
      intro hp
      have hid := hhead (P.steady_of_fifo hp)
      rw [h.headId_eq hi, Option.some.injEq] at hid
      show (s.slots.out i).id ∈ s.refused ++ [id]
      rw [hid]
      simp
    rw [dropHead_some hi]
    refine reportDrop_after (hrefuse.dropHead hi hstacked.inDispatch_pos ?_ hblame) ?_ ?_ hr
    · exact fun hp => .inr (hr.1 hp).1
    · exact hstacked.mono rfl rfl rfl (fun hf => hf) fun _ hid => hid
    · exact fun hp => (hr.1 hp).1

/-- The first datagram behind a batch is tried by itself. -/
theorem isolateReturned_after (h : Kept P s.entries s)
    (hs : Stacked P s 0 (.isolate x cap :: st)) (hm : RetMet P s (.isolate x cap) a) :
    After P st (s.isolateReturned x cap a.r) := by
  have hready := hs.readiness rfl id
  have hstacked : Stacked P s 1 st := hs.resume rfl fun hp _ hf => absurd (hready hp).1 hf
  have hr : Resumable P s (.batch cap) := by
    refine ⟨hready, fun hp => ?_⟩
    simpa [Frame.sound] using (hs.frames _ mem_cons_self).sound hp
  have hhead : a.r ≠ .wouldblock → P.steady → s.headId = some x.id := fun hw hp => hm.steady hp hw
  have hnone : a.r ≠ .wouldblock → s.ring.get 0 = none → ¬ P.steady := by
    intro hw hi hp
    have hid := hhead hw hp
    simp [headId, h.acct.no_head hi] at hid
  cases har : a.r with
  | done =>
    have hstacked' : Stacked P (s.hand [x.id]) 1 st := hstacked.mono rfl rfl rfl id fun _ => id
    have hw : a.r ≠ .wouldblock := by simp [har]
    show After P st ((s.hand [x.id]).retireThen (·.batchLoop cap))
    cases hi : (s.hand [x.id]).ring.get 0 with
    | none =>
      have hp := hnone hw hi
      have hfifo : ¬ P.fifo := fun hf => hp (P.steady_of_fifo hf)
      have hkept : Kept P [] (s.hand [x.id]) :=
        (h.requeue hfifo ([] ++ [])).hand fun hf => absurd hf hfifo
      rw [retireThen_none hi]
      exact fault_after hkept hstacked' hp
    | some i =>
      have hhand : Kept P s.entries.tail (s.hand [x.id]) :=
        h.handHead hi fun hp => hhead hw (P.steady_of_fifo hp)
      have hpop : Kept P ((s.hand [x.id]).popHead i false).entries
          ((s.hand [x.id]).popHead i false) := by
        have hentries : ((s.hand [x.id]).popHead i false).entries = s.entries.tail :=
          (h.acct.popHead hi false).2
        rw [hentries]
        exact hhand.popHead hi hstacked.inDispatch_pos
          fun hp => .inr (hready hp).1
      rw [retireThen_some hi]
      exact batchLoop_after hpop (hstacked'.alike (alike_popHead _ i)) hr
  | wouldblock => exact batchDone_after h hstacked
  | dropped => exact batchDrop_after h hstacked (hhead (by simp [har])) hr
  | error | inflight | unsupported =>
    show After P st (s.failHead x (.batch cap) (·.batchLoop cap))
    cases hi : s.ring.get 0 with
    | none =>
      rw [failHead_none hi]
      exact fault_after h hstacked (hnone (by simp [har]) hi)
    | some i =>
      rw [failHead_some hi]
      split
      · exact batchDrop_after h hstacked (hhead (by simp [har])) hr
      · exact batchLoop_after (s := s.setErr) h.setErr (hstacked.mono rfl rfl rfl id fun _ => id) hr

/-- The report of a drop returns. -/
theorem dropReturned_after (h : Kept P s.entries s)
    (hs : Stacked P s 0 (.drop k :: st)) (hm : RetMet P s (.drop k) a) :
    After P st (s.dropReturned k) := by
  have hstacked : Stacked P s 1 st := hs.resume rfl fun hp hc hf => False.elim (hs.pending hp hc hf)
  cases k with
  | pump k => exact pumpLoop_after h hstacked k hm.sticky
  | batch cap =>
    refine batchLoop_after h hstacked ⟨hs.readiness rfl id, fun hp => ?_⟩
    simpa [Frame.sound] using (hs.frames _ mem_cons_self).sound hp
  | complete => exact completeTail_after h hstacked
  | group last rest k =>
    have hready := hs.readiness rfl id
    have hsound : P.steady → k.sound = true := fun hp => (hs.frames _ mem_cons_self).sound hp
    simp only [dropReturned]
    split
    next hend =>
      refine loop_after h hstacked ?_
      cases k with
      | batch cap => exact ⟨hready, fun hp => by simpa [LoopK.sound] using hsound hp⟩
      | pump p =>
        intro hp herr
        cases last with
        | true => exact hm.sticky hp herr
        | false => exact .inr (by simpa using hend)
    next hmore =>
      simp only [Bool.or_eq_true, not_or, beq_iff_eq, Bool.not_eq_true] at hmore
      refine dropGroup_after h hstacked hready (fun hp => ⟨fun hnil => ?_, hsound hp⟩)
        (Nat.le_of_eq h.acct.count_eq.symm) (fun hp => ⟨?_, ?_⟩) ?_
      · rw [h.acct.count_eq, hnil] at hmore
        exact hmore.2 rfl
      · exact hm.fifo hp hmore.1 hmore.2
      · exact (hs.frames _ mem_cons_self).owed hp _ _ _ rfl
      · intro p _ _ _
        exact .inr (.inl ((hs.frames _ mem_cons_self).drops _ rfl))

/-! ## Entry points -/

/-- What a call leaves behind that is refused in `s` and returns `v`. -/
structure Refused (s : KlDgramSend) (v : KlDatagramSendStatus) (t : KlDgramSend) : Prop where
  ring : t.ring = s.ring
  slots : t.slots = s.slots
  waiting : v = .wouldBlock → t.blocked = true ∧ t.retired = false

/-- A refusal for a reason of its own. -/
theorem Refused.outright {t : KlDgramSend} (hv : v ≠ .wouldBlock)
    (hring : t.ring = s.ring) (hslots : t.slots = s.slots) : Refused s v t :=
  ⟨hring, hslots, fun h => absurd h hv⟩

/-- Datagrams that are not admitted leave the queue as it was. -/
theorem Admits.refusal {alone : Bool} {ds : List KlDgramTxDesc}
    {o : KlDatagramSendStatus × KlDgramSend} (ho : Admits s alone ds o) (hne : o.1 ≠ .accepted) :
    Refused s o.1 o.2 := by
  cases ho with
  | refused hv hwait => exact .outright hwait rfl rfl
  | blocked hpos => exact ⟨rfl, rfl, fun _ => ⟨rfl, rfl⟩⟩
  | joined => exact absurd rfl hne

/-- Validation never asks the caller to wait. -/
theorem validate_ne_wouldBlock (s : KlDgramSend) (m : KlDatagramMessage) :
    s.validate m ≠ .wouldBlock := by
  unfold validate
  repeat' split
  all_goals simp

/-- `P` knows what is refused in `s`. -/
def Calm (P : Scope) (s : KlDgramSend) : Prop := ∀ v t, Refused s v t → P.calm (.status v) t

theorem Calm.done (hcalm : Calm P s) (h : v ≠ .accepted → Refused s v s') :
    (Ret.status v).granted = true ∨ P.calm (.status v) s' := by
  by_cases hv : v = .accepted
  · exact .inl (by rw [hv]; rfl)
  · exact .inr (hcalm v s' (h hv))

/-- A datagram goes to the queue and the pump starts. -/
theorem queueSend_after (h : Kept P s.entries s) (hs : Stacked P s 0 st) (hopen : s.closing = false)
    (hcalm : Calm P s) (hlog : ∀ l, P.log l) (m : KlDatagramMessage) :
    After P st (s.queueSend m) := by
  have hadmits := h.sendAdmit hopen m false
  obtain ⟨hkept, halike⟩ := h.admits hadmits (fun _ _ => rfl) hlog
  unfold queueSend
  split
  next s' heq =>
    rw [heq] at hkept halike
    exact pump_after hkept.enterDispatch (hs.alike halike).enterDispatch .send
  next v s' hv heq =>
    have hsame := hcalm.done hadmits.refusal
    rw [heq] at hkept halike hsame
    exact .done _ _ hkept (hs.alike halike) hsame

/-- Only an open queue without an error takes a datagram. -/
theorem validate_accepted (h : s.validate m = .accepted) : s.err = false ∧ s.closing = false := by
  unfold validate at h
  split at h
  · cases h
  next herr =>
    split at h
    · cases h
    next hclosing => exact ⟨by simpa using herr, by simpa using hclosing⟩

section

variable (h : Kept P s.entries s)
include h

/-- `kl_dgram_send`, up to its first hook. -/
theorem send_after (hs : Stacked P s 0 st) (hcalm : Calm P s) (hlog : ∀ l, P.log l)
    (m : KlDatagramMessage) : After P st (s.send m) := by
  have hkept : Kept P (s.setDirectDropped false).entries (s.setDirectDropped false) :=
    h.setDirectDropped false
  have hstacked : Stacked P (s.setDirectDropped false) 0 st := hs.mono rfl rfl rfl id fun _ => id
  unfold send
  split
  next =>
    exact .done _ _ hkept hstacked
      (.inr (hcalm _ _ (.outright (validate_ne_wouldBlock s m) rfl rfl)))
  next hvalid =>
    obtain ⟨herr, hopen⟩ := validate_accepted (Decidable.not_not.mp hvalid)
    split
    next hdirect =>
      rw [Bool.and_eq_true, Bool.not_eq_true', beq_iff_eq] at hdirect
      have hzero : P.contract → s.inflightN = 0 := fun hp =>
        Nat.le_zero.mp (hdirect.2 ▸ h.bound hp)
      refine .call _ _ hkept ⟨?_, ?_, fun hp _ hf => absurd (hzero hp) hf, hs.outer⟩ ?_
      · exact hs.depth
      · refine forall_mem_cons.mpr ⟨⟨nofun, fun _ hc => ?_, fun _ => rfl, nofun, rfl⟩,
          hstacked.frames⟩
        simp [hdirect.1] at hc
      · refine ⟨fun _ _ => herr, fun hp _ => h.not_aborted hopen hp, nofun, nofun, fun _ hp => ?_⟩
        rw [(h.drained hp).1] at hopen
        cases hopen
    next =>
      exact queueSend_after hkept hstacked hopen
        (fun v t h => hcalm v t ⟨h.ring, h.slots, h.waiting⟩) hlog m

/-- The answer of the send that bypasses the queue. -/
theorem directReturned_after
    (hs : Stacked P s 0 (.direct m :: st)) (hm : RetMet P s (.direct m) a) (hcalm : Calm P s)
    (hlog : ∀ l, P.log l) : After P st (s.directReturned m a.r) := by
  have hstacked : Stacked P s 0 st := hs.pop rfl fun hp hc hf => False.elim (hs.pending hp hc hf)
  have hqueue : After P st (if s.err then .done s (.status .error)
      else if s.closing then .done s (.status .closed) else s.queueSend m) := by
    split
    · exact .done _ _ h hstacked (.inr (hcalm _ s (.outright (by simp) rfl rfl)))
    split
    · exact .done _ _ h hstacked (.inr (hcalm _ s (.outright (by simp) rfl rfl)))
    next hopen => exact queueSend_after h hstacked (by simpa using hopen) hcalm hlog m
  cases hr : a.r with
  | done =>
    exact .done (s.acceptDirect m) _ (h.acceptDirect m (fun hp => hm.fifo hp hr) hlog)
      (hstacked.mono rfl rfl rfl id fun _ => id) (.inl rfl)
  | error =>
    exact .done s.setErr _ h.setErr (hstacked.mono rfl rfl rfl id fun _ => id)
      (.inr (hcalm _ _ (.outright (by simp) rfl rfl)))
  | dropped =>
    exact .done (s.setDirectDropped true) _ (h.setDirectDropped true)
      (hstacked.mono rfl rfl rfl id fun _ => id)
      (.inr (hcalm _ _ (.outright (by simp) rfl rfl)))
  | inflight | wouldblock | unsupported => exact hqueue

section

variable (hs : Stacked P s 0 st)
include hs

/-- `kl_dgram_enqueue` starts no pump. -/
theorem enqueue_after (hcalm : Calm P s) (hlog : ∀ l, P.log l) (m : KlDatagramMessage) :
    After P st (s.enqueue m) := by
  unfold enqueue
  split
  · exact .done _ _ h hs (.inr (hcalm _ s (.outright (validate_ne_wouldBlock s m) rfl rfl)))
  next hvalid =>
    obtain ⟨-, hopen⟩ := validate_accepted (Decidable.not_not.mp hvalid)
    have hadmits := h.sendAdmit hopen m true
    obtain ⟨hkept, halike⟩ := h.admits hadmits (fun _ _ => rfl) hlog
    exact .done _ _ hkept (hs.alike halike) (hcalm.done hadmits.refusal)

/-- `kl_dgram_flush_batch`, up to its first hook. -/
theorem flushBatch_after (cap : Nat) : After P st (s.flushBatch cap) := by
  unfold flushBatch
  split
  · exact .done _ _ h hs (.inl rfl)
  next hcap =>
    split
    · exact .done _ _ h hs (.inl rfl)
    next hmode =>
      simp only [Bool.or_eq_true, bne_iff_ne, ne_eq, not_or, Bool.not_eq_true,
        Decidable.not_not] at hmode
      exact batchLoop_after h.enterDispatch hs.enterDispatch
        ⟨fun _ => ⟨hmode.2, hmode.1⟩, fun _ => Nat.pos_of_ne_zero hcap⟩

/-- A completion retires the head and pumps on. -/
theorem onComplete_after {outcome : KlDgramSendOutcome} (hm : CallMet P s (.onComplete outcome)) :
    After P st (s.onComplete outcome) := by
  unfold onComplete
  split
  · exact .done _ _ h hs (.inl rfl)
  next hflight =>
    have hsingle := h.acct.single
    cases hi : s.ring.get 0 with
    | none =>
      -- nothing can be in flight without a head
      have hp : ¬ P.contract := fun hp => by
        have hbound := h.bound hp
        have hzero := h.count_eq_zero hi
        omega
      exact fault_after (h.enterDispatch.markRetired fun hc => absurd hc hp)
        (hs.enterDispatch.mono rfl rfl rfl id fun _ => id) fun hsteady =>
          hp (P.contract_of_steady hsteady)
    | some i =>
      obtain ⟨t, ht⟩ : ∃ t, t = s.enterDispatch.markRetired.popHead i true := ⟨_, rfl⟩
      have hcons := h.acct.entries_cons hi
      have hidle : t.inflightN = 0 := by
        rw [ht]
        show s.inflightN - 1 = 0
        omega
      have hkept : Kept P s.entries t := by
        have hpop : Kept P s.entries (s.enterDispatch.popHead i true) :=
          h.enterDispatch.popHead hi hs.enterDispatch.inDispatch_pos fun _ => .inl rfl
        rw [ht] at hidle ⊢
        exact hpop.markRetired fun _ => hidle
      have hstacked : Stacked P t 1 st := by
        rw [ht]
        exact hs.enterDispatch.mono rfl rfl rfl (fun _ => hflight) fun _ => id
      have htail : t.entries = s.entries.tail := by
        rw [ht]
        exact (h.acct.popHead hi true).2
      have hown : P.fifo → (s.slots.out i).id = t.flight := by
        intro hp
        obtain ⟨e, he, hid, -⟩ := h.flying hp hflight
        rw [h.head_mem hi, Option.some.injEq] at he
        rw [he, hid, ht]
        rfl
      have hopen : Kept P (s.slots.out i :: t.entries) t := by
        rw [htail, ← hcons]
        exact hkept
      have hdrop : After P st (((t.refuse [t.flight]).countDrop (s.slots.out i).id).reportDrop
          .complete) := by
        refine reportDrop_after ((hopen.refuse [t.flight]).countDrop fun hp => ?_) ?_ (fun _ =>
          hidle) trivial
        · rw [hown hp]
          exact mem_append_right _ mem_cons_self
        · exact hstacked.mono rfl rfl rfl id fun _ => mem_append_left _
      simp only
      rw [← ht]
      cases outcome with
      | ok =>
        have hsplit : Kept P ([s.slots.out i] ++ t.entries) t := hopen
        refine completeTail_after (hsplit.hand fun hp => ?_)
          (hstacked.mono rfl rfl rfl id fun _ => id)
        rw [map_singleton, hown hp]
      | dropped => exact hdrop
      | failed =>
        simp only [completed]
        split
        · exact hdrop
        next hno =>
          have hfifo : ¬ P.fifo := fun hp => by
            have hrecov : s.headRecoverable = true := hm.fifo hp hflight
            rw [h.headRecoverable_eq hi] at hrecov
            exact hno hrecov
          exact completeTail_after ((hopen.refuse [t.flight]).requeue hfifo t.entries).setErr
            (hstacked.mono rfl rfl rfl id fun _ => mem_append_left _)

theorem discard_after : After P st s.discard := by
  obtain ⟨s', hs', hkept, halike⟩ := h.discardQueued
  rw [discard, hs']
  exact .done _ _ hkept (hs.alike halike) (.inl rfl)

/-! ## The stretches -/

/-- The call asks for the admission of datagrams. -/
def Op.admits : Op → Bool
  | .send _ | .enqueue _ | .enqueueGso _ => true
  | _ => false

/-- The call that is in the hook asks for the admission of its datagram. -/
def Frame.admits : Frame → Bool
  | .direct _ => true
  | _ => false

/-- A call of the API, up to its first hook. -/
theorem enter_after {op : Op} (hm : CallMet P s op) (hcalm : Calm P s)
    (hlog : op.admits = true → ∀ l, P.log l) : After P st (machine.enter op s) := by
  cases op with
  | send m => exact send_after h hs hcalm (hlog rfl) m
  | enqueue m => exact enqueue_after h hs hcalm (hlog rfl) m
  | enqueueGso g =>
    have hadmits := h.admitGso g
    obtain ⟨hkept, halike⟩ := h.admits hadmits hm.contract (hlog rfl)
    exact .done _ _ hkept (hs.alike halike) (hcalm.done hadmits.refusal)
  | flush => exact pump_after h.enterDispatch hs.enterDispatch .flush
  | flushBatch cap => exact flushBatch_after h hs cap
  | onComplete outcome => exact onComplete_after h hs hm
  | discardQueued => exact discard_after h hs
  | setClosing =>
    exact .done s.close _ (h.flags id fun _ => rfl) (hs.mono rfl rfl rfl id fun _ => id) (.inl rfl)
  | setConnected on =>
    exact .done (s.connect on) _ (h.flags id id) (hs.mono rfl rfl rfl id fun _ => id) (.inl rfl)

end

/-- What follows the return of a hook, up to the next. -/
theorem afterHook_after {f : Frame} (hs : Stacked P s 0 (f :: st)) (hm : RetMet P s f a)
    (hcalm : Calm P s) (hlog : f.admits = true → ∀ l, P.log l) :
    After P st (machine.resume f a s) := by
  cases f with
  | direct m => exact directReturned_after h hs hm hcalm (hlog rfl)
  | submit x k => exact submitReturned_after h hs hm
  | gso i g ids k => exact gsoReturned_after h hs hm
  | batch xs cap => exact batchReturned_after h hs hm
  | isolate x cap => exact isolateReturned_after h hs hm
  | drop k => exact dropReturned_after h hs hm
  | writable ret =>
    have hstacked : Stacked P s 1 st :=
      hs.resume rfl fun hp hc hf => False.elim (hs.pending hp hc hf)
    refine leaveLoop_after h hstacked ?_ (hs.frames _ mem_cons_self).granted
    rw [hstacked.depth, hs.outer.1]
  | drain ret =>
    exact .done _ _ h (hs.pop rfl fun hp hc hf => False.elim (hs.pending hp hc hf))
      (.inl (hs.frames _ mem_cons_self).granted)
  | fault => exact .call _ _ h hs (callOk_of_callback rfl rfl nofun)

end

end KlDgramSend
