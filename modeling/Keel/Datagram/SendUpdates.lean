-- SUMMARY: Every update of the send state keeps the invariant.
import Keel.Datagram.SendInvariant

/-!
# Updates of the send state

One lemma for each update of `Keel.Datagram.Send`. The functions of the machine are
sequences of these updates, and the proofs about them are sequences of these lemmas.
-/

open Reentrant List

namespace KlDgramSend

variable {P : Scope} {q : List KlDgramSlot} {s s' : KlDgramSend} {i : Nat}

/-- The accounting looks at few fields. -/
theorem Accounted.congr (h : s.Accounted) (hring : s'.ring = s.ring) (hslots : s'.slots = s.slots)
    (hused : s'.bytesUsed = s.bytesUsed) (hbudget : s'.byteBudget = s.byteBudget)
    (hsingle : s'.inflightN ≤ 1) : s'.Accounted where
  ring := hring.symm ▸ h.ring
  cap := by rw [hring, hslots, h.cap]
  split := by
    rw [hring, hslots]
    exact h.split
  bytes := by
    rw [hused, h.bytes, entries, entries, hring, hslots]
  budget := by
    rw [hused, hbudget]
    exact h.budget
  single := hsingle

/-- New datagrams have joined the queue. -/
structure Joins (s : KlDgramSend) (new : List KlDgramSlot) (t : KlDgramSend) : Prop where
  state : ∃ ring slots bytes, t = { s with
    ring := ring, slots := slots, bytesUsed := bytes, accepted := s.accepted ++ new.map (·.desc) }
  acct : t.Accounted
  entries : t.entries = s.entries ++ new
  new_ne : new ≠ []
  ids : ∀ j x, new[j]? = some x → x.id = s.accepted.length + j
  groups : GroupsOk new

/-- How the admission of the datagrams `ds` can end. They go out one by one if `alone` says so. -/
inductive Admits (s : KlDgramSend) (alone : Bool) (ds : List KlDgramTxDesc) :
    KlDatagramSendStatus × KlDgramSend → Prop
  | refused {v : KlDatagramSendStatus} (hv : v ≠ .accepted) (hwait : v ≠ .wouldBlock) :
      Admits s alone ds (v, s)
  | blocked (hpos : 0 < s.count) : Admits s alone ds (.wouldBlock, s.block)
  | joined {new : List KlDgramSlot} {t : KlDgramSend} (hjoins : Joins s new t)
      (hopen : s.closing = false) (hmodes : alone = true → ∀ e ∈ new, e.gsoWhole = false)
      (hdescs : new.map (·.desc) = ds) : Admits s alone ds (.accepted, t.noteFull)

namespace Kept

/-! ## Flags and brackets -/

section

variable (h : Kept P q s)
include h

theorem flags {err dropped closing connected inSubmit : Bool}
    (herr : s.err = true → err = true) (hclosing : s.closing = true → closing = true) :
    Kept P q { s with err := err, directDropped := dropped, closing := closing
                      connected := connected, inSubmit := inSubmit } :=
  { h with
    acct := h.acct.congr rfl rfl rfl rfl h.acct.single
    books := fun hp => { h.books hp with }
    abort := fun hp ha => ⟨hclosing (h.abort hp ha).1, (h.abort hp ha).2⟩
    failed := fun hp => herr (h.failed hp)
    shut := fun hp => hclosing (h.shut hp)
    drained := fun hp => ⟨hclosing (h.drained hp).1, (h.drained hp).2⟩ }

theorem setErr : Kept P q s.setErr := h.flags (fun _ => rfl) id

theorem endSubmit : Kept P q s.endSubmit := h.flags id id

theorem setDirectDropped (b : Bool) : Kept P q (s.setDirectDropped b) := h.flags id id

theorem enterDispatch : Kept P q s.enterDispatch := { h with
    acct := h.acct.congr rfl rfl rfl rfl h.acct.single
    books := fun hp => { h.books hp with }
    inside := fun _ => Nat.succ_pos _ }

theorem nestedLeave (hnested : 1 < s.inDispatch) : Kept P q s.nestedLeave := { h with
    acct := h.acct.congr rfl rfl rfl rfl h.acct.single
    books := fun hp => { h.books hp with }
    inside := fun _ => Nat.sub_pos_of_lt hnested }

theorem fireWritable : Kept P q s.fireWritable := { h with
    acct := h.acct.congr rfl rfl rfl rfl h.acct.single
    books := fun hp => { h.books hp with }
    inside := nofun
    wake := nofun }

/-- Without on_writable nobody waits for it. -/
theorem takeWritable (hnone : s.onWritable = false) : Kept P q s.takeWritable := { h with
    acct := h.acct.congr rfl rfl rfl rfl h.acct.single
    books := fun hp => { h.books hp with }
    inside := nofun
    wake := fun hw => by simp [hnone] at hw }

theorem lastLeave (hnone : s.pendWritable = false) : Kept P q s.lastLeave := { h with
    acct := h.acct.congr rfl rfl rfl rfl h.acct.single
    books := fun hp => { h.books hp with }
    inside := fun hw => by simp [hnone] at hw }

theorem markRetired (hidle : P.contract → s.inflightN = 0) : Kept P q s.markRetired := { h with
    acct := h.acct.congr rfl rfl rfl rfl h.acct.single
    books := fun hp => { h.books hp with }
    idle := fun hp _ => hidle hp }

/-! ## Records -/

/-- Without the books the open part of the queue does not matter. -/
theorem requeue (hp : ¬ P.fifo) (q' : List KlDgramSlot) : Kept P q' s :=
  { h with books := fun hf => absurd hf hp }

end

theorem hand {front rest : List KlDgramSlot} (h : Kept P (front ++ rest) s) {ids : List Nat}
    (hids : P.fifo → ids = front.map (·.id)) : Kept P rest (s.hand ids) :=
  { h with
    acct := h.acct.congr rfl rfl rfl rfl h.acct.single
    books := fun hp => { h.books hp with
      balance := by
        rw [hids hp]
        refine FifoBooks.hand ?_
        rw [← map_append]
        exact (h.books hp).balance
      content := fun e he => (h.books hp).content e (mem_append_right front he) } }

theorem refuse (h : Kept P q s) (ids : List Nat) : Kept P q (s.refuse ids) := { h with
    acct := h.acct.congr rfl rfl rfl rfl h.acct.single
    books := fun hp => { h.books hp with
      blamed := fun id hid => mem_append_left ids ((h.books hp).blamed id hid) } }

theorem countDrop {e : KlDgramSlot} (h : Kept P (e :: q) s)
    (hblame : P.fifo → e.id ∈ s.refused) : Kept P q (s.countDrop e.id) :=
  { h with
    acct := h.acct.congr rfl rfl rfl rfl h.acct.single
    books := fun hp =>
      { balance := (h.books hp).balance.drop
        content := fun x hx => (h.books hp).content x (mem_cons_of_mem e hx)
        counted := by
          show s.dropped + 1 = (s.droppedIds ++ [e.id]).length
          rw [(h.books hp).counted, length_append]
          rfl
        blamed := fun id hid => by
          rcases mem_append.mp hid with hid | hid
          · exact (h.books hp).blamed id hid
          · rw [mem_singleton.mp hid]
            exact hblame hp } }

/-- A datagram that is sent without a slot passes nobody when the queue is empty. -/
theorem acceptDirect (h : Kept P s.entries s) (m : KlDatagramMessage)
    (hempty : P.fifo → s.count = 0) (hlog : ∀ l, P.log l) : Kept P s.entries (s.acceptDirect m) :=
  { h with
    log := hlog _
    acct := h.acct.congr rfl rfl rfl rfl h.acct.single
    books := fun hp => by
      have hnil : s.entries = [] := by
        rw [← length_eq_zero_iff, ← h.acct.count_eq]
        exact hempty hp
      have hbooks := h.books hp
      rw [hnil] at hbooks ⊢
      refine { hbooks with balance := ?_, content := nofun }
      have hnext : FifoBooks (s.accepted.length + 1) s.handed s.droppedIds s.discarded
          ([s.accepted.length] ++ []) := hbooks.balance.accept
      rw [KlDgramSend.acceptDirect, length_append]
      exact hnext.hand }

/-! ## Submission and retirement -/

section

variable (h : Kept P q s) (hi : s.ring.get 0 = some i)
include h hi

theorem head_mem : s.entries.head? = some (s.slots.out i) := by
  rw [h.acct.entries_cons hi]
  rfl

theorem count_pos : 0 < s.count := by
  rw [h.acct.count_eq, h.acct.entries_cons hi]
  exact Nat.succ_pos _

theorem arm (halone : s.submitGso = true → (s.slots.out i).gsoWhole = false)
    (habort : P.abort → s.aborted = false) : Kept P q (s.arm (s.slots.out i).id) :=
  { h with
    acct := h.acct.congr rfl rfl rfl rfl (Nat.le_refl 1)
    idle := nofun
    bound := fun _ => h.count_pos hi
    books := fun hp => { h.books hp with }
    flying := fun _ _ => ⟨s.slots.out i, h.head_mem hi, rfl, halone⟩
    abort := fun hp ha => by
      have haborted : s.aborted = true := ha
      simp [habort hp] at haborted
    drained := fun hp => absurd (h.drained hp).2.1 (Nat.ne_of_gt (h.count_pos hi)) }

end

theorem unarm (h : Kept P q s) (habort : P.abort → s.aborted = true → s.count = 0) :
    Kept P q s.unarm :=
  { h with
    acct := h.acct.congr rfl rfl rfl rfl (Nat.zero_le 1)
    idle := fun _ _ => rfl
    bound := fun _ => Nat.zero_le _
    books := fun hp => { h.books hp with }
    flying := fun _ hf => absurd rfl hf
    abort := fun hp ha => ⟨(h.abort hp ha).1, Nat.le_of_eq (habort hp ha)⟩
    drained := fun hp => ⟨(h.drained hp).1, (h.drained hp).2.1, rfl⟩ }

/-- Retiring the head, inside the brackets. -/
theorem popHead (h : Kept P q s) (hi : s.ring.get 0 = some i) (hin : 0 < s.inDispatch) {b : Bool}
    (hb : P.contract → b = true ∨ s.inflightN = 0) : Kept P q (s.popHead i b) := by
  obtain ⟨hacct, hentries⟩ := h.acct.popHead hi b
  have hcount : (s.popHead i b).count = s.count - 1 := rfl
  have hinflight : (s.popHead i b).inflightN = if b then s.inflightN - 1 else s.inflightN := rfl
  have hidle : P.contract → (s.popHead i b).inflightN = 0 := by
    intro hp
    have hsingle := h.acct.single
    rw [hinflight]
    rcases hb hp with hb | hb
    · rw [hb, if_pos rfl]
      omega
    · split <;> omega
  exact
    { acct := hacct
      pool := by
        show 0 < (s.slots.release i).slotCount
        rw [KlDgramSlots.release_slotCount]
        exact h.pool
      full := nofun
      inside := fun _ => hin
      wake := fun hw hblock => .inl <| by
        show (s.pendWritable || s.full) = true
        rcases h.wake hw hblock with hpend | ⟨hfull, -⟩
        · simp [hpend]
        · simp [hfull]
      idle := fun hp hret => by
        have hzero := h.idle hp hret
        rw [hinflight, hzero]
        split <;> rfl
      modes := fun hp hc e he => h.modes hp hc e (mem_of_mem_tail (hentries ▸ he))
      bound := fun hp => by
        rw [hidle hp]
        exact Nat.zero_le _
      books := fun hp => { h.books hp with }
      flying := fun hp hf => absurd (hidle (P.contract_of_steady (P.steady_of_fifo hp))) hf
      groups := fun hp hg => hentries ▸ (h.groups hp hg).tail
      abort := fun hp ha => by
        obtain ⟨hclosing, hle⟩ := h.abort hp ha
        refine ⟨hclosing, ?_⟩
        rw [hcount, hinflight]
        split <;> omega
      failed := h.failed
      cancelled := h.cancelled
      shut := h.shut
      log := h.log
      drained := fun hp => by
        obtain ⟨hclosing, hempty, hnone⟩ := h.drained hp
        refine ⟨hclosing, ?_, ?_⟩
        · rw [hcount, hempty]
        · rw [hinflight, hnone]
          split <;> rfl }

theorem unarm_popHead (h : Kept P q s) (i : Nat) : s.unarm.popHead i false = s.popHead i true := by
  have hzero : s.inflightN - 1 = 0 := Nat.sub_eq_zero_of_le h.acct.single
  simp only [KlDgramSend.popHead, KlDgramSend.unarm, hzero, if_true]
  rfl

theorem setFallback (h : Kept P s.entries s) (i : Nat) (hidle : P.fifo → s.inflightN = 0) :
    Kept P (s.setFallback i).entries (s.setFallback i) :=
  { h with
    acct := h.acct.setFallback i
    modes := fun hp hc e he => by
      rw [setFallback_entries] at he
      obtain ⟨j, hj, rfl⟩ := mem_map.mp he
      have hwhole : (s.slots.out j).gsoWhole = false := h.modes hp hc _ (mem_map_of_mem hj)
      simp only [KlDgramSlot.gsoWhole, fellBack] at hwhole ⊢
      simp_all
    books := fun hp => { h.books hp with
      balance := by
        have hids : (s.setFallback i).entries.map (·.id) = s.entries.map (·.id) := by
          rw [setFallback_entries, entries, map_map, map_map]
          rfl
        exact hids.symm ▸ (h.books hp).balance
      content := fun e he => by
        rw [setFallback_entries] at he
        obtain ⟨j, hj, rfl⟩ := mem_map.mp he
        have hmem : s.slots.out j ∈ s.entries := mem_map_of_mem hj
        exact (h.books hp).content (s.slots.out j) hmem }
    flying := fun hp hf => absurd (hidle hp) hf
    groups := fun hp hg => by
      rw [setFallback_entries]
      exact (h.groups hp hg).fellBack _ _ _ }

/-! ## Admission and discard -/

theorem block (h : Kept P q s) (hpos : 0 < s.count) : Kept P q s.block := { h with
    acct := h.acct.congr rfl rfl rfl rfl h.acct.single
    full := fun _ => hpos
    wake := fun _ _ => .inr ⟨rfl, rfl⟩
    books := fun hp => { h.books hp with } }

/-- A pool without a free slot is all in the queue. -/
theorem count_pos_of_no_free (h : Kept P q s) (hfree : s.slots.freeCount = 0) : 0 < s.count := by
  have htotal := h.acct.count_add_free
  have hpool := h.pool
  omega

theorem noteFull (h : Kept P q s) : Kept P q s.noteFull := { h with
    acct := h.acct.congr rfl rfl rfl rfl h.acct.single
    full := fun hf => by
      have hor : (s.full || s.slots.freeCount == 0) = true := hf
      rcases Bool.or_eq_true _ _ ▸ hor with hf | hf
      · exact h.full hf
      · exact h.count_pos_of_no_free (by simpa using hf)
    wake := fun hw hblock => by
      rcases h.wake hw hblock with hpend | ⟨hfull, hret⟩
      · exact .inl hpend
      refine .inr ⟨?_, hret⟩
      show (s.full || _) = true
      rw [hfull]
      rfl
    books := fun hp => { h.books hp with } }

/-- Nothing was discarded before closing began. -/
theorem not_aborted (h : Kept P q s) (hopen : s.closing = false) : P.abort → s.aborted = false := by
  intro hp
  by_contra ha
  have hclosing := (h.abort hp (by simpa using ha)).1
  simp [hopen] at hclosing

/-- The datagrams that join the queue are recorded. -/
theorem extend {new : List KlDgramSlot} (h : Kept P s.entries s) (hjoins : Joins s new s')
    (hmodes : P.contract → s.completion = true → ∀ e ∈ new, e.gsoWhole = false)
    (hopen : s.closing = false) (hlog : ∀ l, P.log l) : Kept P s'.entries s' := by
  obtain ⟨⟨ring, slots, bytes, hs'⟩, hacct, hentries, hnew, hids, hgroups⟩ := hjoins
  have hcount : s'.count = s.count + new.length := by
    rw [hacct.count_eq, hentries, length_append, h.acct.count_eq]
  have hrange : new.map (·.id) = range' s.accepted.length new.length := by
    apply ext_getElem?
    intro j
    rw [getElem?_map]
    cases hx : new[j]? with
    | none =>
      rw [getElem?_eq_none_iff] at hx
      simp [hx]
    | some x =>
      obtain ⟨hlt, -⟩ := List.getElem?_eq_some_iff.mp hx
      simp [hlt, hids j x hx]
  have hlen := length_pos_iff.mpr hnew
  subst hs'
  exact { h with
    log := hlog _
    acct := hacct
    pool := by
      have htotal := hacct.count_add_free
      omega
    full := fun _ => by omega
    modes := fun hp hc e he => by
      rw [hentries] at he
      rcases mem_append.mp he with he | he
      · exact h.modes hp hc e he
      · exact hmodes hp hc e he
    bound := fun hp => by
      have hbound := h.bound hp
      dsimp only
      omega
    books := fun hp =>
      { h.books hp with
        balance := by
          rw [hentries, map_append, hrange, length_append, length_map]
          exact (h.books hp).balance.acceptAll new.length
        content := fun e he => by
          rcases mem_append.mp (hentries ▸ he) with he | he
          · have hold := (h.books hp).content e he
            obtain ⟨hlt, -⟩ := List.getElem?_eq_some_iff.mp hold
            rw [getElem?_append_left hlt]
            exact hold
          · obtain ⟨j, hj⟩ := mem_iff_getElem?.mp he
            rw [hids j e hj, getElem?_append_right (Nat.le_add_right _ _),
              Nat.add_sub_cancel_left, getElem?_map, hj]
            rfl }
    flying := fun hp hf => by
      obtain ⟨e, he, hid, halone⟩ := h.flying hp hf
      refine ⟨e, ?_, hid, halone⟩
      rw [hentries, head?_append, he]
      rfl
    groups := fun hp hg => by
      rw [hentries]
      exact (h.groups hp hg).append hgroups
    abort := fun hp ha => by
      have haborted : s.aborted = true := ha
      simp [h.not_aborted hopen hp] at haborted
    drained := fun hp => by
      have hclosing := (h.drained hp).1
      simp [hopen] at hclosing }

end Kept

/-- Alike in the fields that frames are looked at through, and in the error. -/
structure Alike (s s' : KlDgramSend) : Prop where
  depth : s'.inDispatch = s.inDispatch
  drop : s'.onDrop = s.onDrop
  mode : s'.completion = s.completion
  flight : s'.inflightN = s.inflightN
  refused : s'.refused = s.refused
  err : s'.err = s.err

theorem Stacked.alike {n : Nat} {st : List Frame} (h : Stacked P s n st) (ha : Alike s s') :
    Stacked P s' n st :=
  h.mono ha.depth ha.drop ha.mode (ha.flight ▸ id) (ha.refused ▸ fun _ => id)

/-- Bytes are in use only while something is queued. -/
theorem Kept.count_pos_of_bytes (h : Kept P q s) (hused : 0 < s.bytesUsed) : 0 < s.count := by
  rw [h.acct.count_eq]
  apply length_pos_iff.mpr
  intro hnil
  rw [h.acct.bytes, hnil] at hused
  cases hused

/-- An admission keeps the invariant, however it ends. -/
theorem Kept.admits {alone : Bool} {ds : List KlDgramTxDesc}
    {o : KlDatagramSendStatus × KlDgramSend} (h : Kept P s.entries s) (ho : Admits s alone ds o)
    (hmode : P.contract → s.completion = true → alone = true) (hlog : ∀ l, P.log l) :
    Kept P o.2.entries o.2 ∧ Alike s o.2 := by
  cases ho with
  | refused => exact ⟨h, ⟨rfl, rfl, rfl, rfl, rfl, rfl⟩⟩
  | blocked hpos => exact ⟨h.block hpos, ⟨rfl, rfl, rfl, rfl, rfl, rfl⟩⟩
  | joined hjoins hopen hmodes _ =>
    refine ⟨(h.extend hjoins (fun hp hc => hmodes (hmode hp hc)) hopen hlog).noteFull, ?_⟩
    obtain ⟨⟨ring, slots, bytes, rfl⟩, -⟩ := hjoins
    exact ⟨rfl, rfl, rfl, rfl, rfl, rfl⟩

/-- `send_admit` -/
theorem Kept.sendAdmit (h : Kept P s.entries s) (hopen : s.closing = false)
    (m : KlDatagramMessage) (b : Bool) : Admits s true [m.desc] (s.sendAdmit m b) := by
  unfold KlDgramSend.sendAdmit
  split
  · exact .refused (by simp) (by simp)
  split
  -- the datagram alone would fit, so the budget is in use
  next hlarge hgate => exact .blocked (h.count_pos_of_bytes (by omega))
  next hlarge hgate =>
    cases ha : s.slots.acquire with
    | none =>
      have hnone : s.slots.freeCount = 0 := by
        rw [KlDgramSlots.freeCount, KlDgramSlots.acquire_eq_none ha]
        rfl
      exact .blocked (h.count_pos_of_no_free hnone)
    | some p =>
      obtain ⟨j, slots⟩ := p
      obtain ⟨-, -, hfresh, -⟩ := h.acct.split.acquire ha
      obtain ⟨slot, hslot⟩ : ∃ slot, slot = filled (slots.out j) m b s.accepted.length := ⟨_, rfl⟩
      have hfit : 0 < s.byteBudget → s.bytesUsed + slot.len ≤ s.byteBudget := by
        intro hpos
        have hused := h.acct.budget hpos
        have hlen : slot.len = m.len := by rw [hslot]; rfl
        omega
      have huse : slot.inUse = true := by
        rw [hslot, hfresh]
        rfl
      have hwhole : slot.gsoWhole = false := by
        rw [hslot, hfresh]
        rfl
      have hdesc : slot.desc = m.desc := by
        rw [hslot, hfresh]
        simp [KlDgramSlot.desc, KlDatagramMessage.desc, filled, KlDgramSlots.fresh, take_take]
      obtain ⟨hacct, hentries⟩ := h.acct.pushSlot ha huse hfit
      have hjoins : Joins s [slot] (s.pushSlot j slots slot) := by
        refine ⟨⟨_, _, _, rfl⟩, hacct, hentries, cons_ne_nil _ _, fun n x hx => ?_,
          groupsOk_singleton hwhole⟩
        obtain ⟨rfl, rfl⟩ : n = 0 ∧ slot = x := by
          cases n with
          | zero => simpa using hx
          | succ n => simp at hx
        rw [hslot]
        rfl
      have hmodes : ∀ e ∈ [slot], e.gsoWhole = false := fun e he => mem_singleton.mp he ▸ hwhole
      rw [← hdesc]
      subst hslot
      exact .joined hjoins hopen (fun _ => hmodes) rfl

/-! ## GSO groups -/

/-- A list in which only the last slot is marked as one is a group. -/
theorem groupAt_eq_self {es : List KlDgramSlot}
    (h : ∀ j x, es[j]? = some x → x.gsoLast = true → j + 1 = es.length) : groupAt es = es := by
  induction es with
  | nil => rfl
  | cons e es ih =>
    simp only [groupAt]
    split
    next hlast =>
      have hlen := h 0 e rfl hlast
      rw [length_cons] at hlen
      rw [length_eq_zero_iff.mp (by omega : es.length = 0)]
    next =>
      rw [ih fun j x hx hlast => ?_]
      have hlen := h (j + 1) x (by simpa using hx) hlast
      rw [length_cons] at hlen
      omega

/-- A segment carries its slice of the buffer. -/
theorem segment_desc (base first : KlDgramSlot) (g : GsoRequest) (j id id' : Nat) :
    (segment (KlDgramSlots.fresh base) g j id).desc =
      (gsoCall (segment (KlDgramSlots.fresh first) g 0 id')).slice j := by
  have hdata : (g.buf.drop (j * g.seg)).take (segLen g j) =
      ((g.buf.take g.total).drop (j * g.seg)).take g.seg := by
    rw [drop_take, take_take, segLen, Nat.min_comm]
  simp only [KlDgramSlot.desc, GsoCall.slice, gsoCall, segment, Option.getD_some, Nat.zero_mul,
    drop_zero, if_true, hdata]
  rfl

variable {g : GsoRequest} {id : Nat} {segs : List KlDgramSlot}

theorem SegmentsOf.gsoWhole_of_pos
    (h : SegmentsOf g id segs) {j : Nat} {x : KlDgramSlot} (hx : segs[j]? = some x) (hj : j ≠ 0) :
    x.gsoWhole = false := by
  obtain ⟨base, rfl⟩ := h j x hx
  simp [KlDgramSlot.gsoWhole, segment, hj]

/-- A group that is admitted is complete. -/
theorem SegmentsOf.groupsOk
    (h : SegmentsOf g id segs) (hlen : segs.length = g.nseg) : GroupsOk segs := by
  cases segs with
  | nil => trivial
  | cons e es =>
    have hself : groupAt (e :: es) = e :: es := groupAt_eq_self fun j x hx hlast => by
      obtain ⟨base, rfl⟩ := h j x hx
      obtain ⟨hlt, -⟩ := List.getElem?_eq_some_iff.mp hx
      simp only [segment, beq_iff_eq] at hlast
      omega
    refine ⟨fun _ => ⟨?_, ?_⟩, groupsOk_of_no_head fun x hx => ?_⟩
    · have hpos : 0 < (e :: es).length := Nat.succ_pos _
      have hlt : g.nseg - 1 < (e :: es).length := by omega
      obtain ⟨base, hbase⟩ := h (g.nseg - 1) _ (getElem?_eq_getElem hlt)
      refine ⟨_, getElem_mem hlt, ?_⟩
      rw [hbase]
      simp [segment]
    · intro j x hx
      rw [hself] at hx
      obtain ⟨first, hfirst⟩ := h 0 e rfl
      obtain ⟨base, rfl⟩ := h j x hx
      rw [hfirst]
      exact segment_desc base first g j _ _
    · obtain ⟨j, hj⟩ := mem_iff_getElem?.mp hx
      exact h.gsoWhole_of_pos (j := j + 1) (by simpa using hj) (by omega)

/-- The datagrams of a group. -/
def GsoRequest.descs (g : GsoRequest) : List KlDgramTxDesc :=
  (List.range g.nseg).map fun j =>
    { data := (g.buf.drop (j * g.seg)).take (segLen g j), dest := g.peer, tos := g.tos }

theorem SegmentsOf.descs (h : SegmentsOf g id segs) (hlen : segs.length = g.nseg) :
    segs.map (·.desc) = GsoRequest.descs g := by
  refine ext_getElem (by simp [GsoRequest.descs, hlen]) fun j hj _ => ?_
  rw [length_map] at hj
  obtain ⟨base, hbase⟩ := h j segs[j] (getElem?_eq_getElem hj)
  rw [getElem_map, hbase]
  simp [GsoRequest.descs]
  rfl

/-- `kl_dgram_send_enqueue_gso` -/
theorem Kept.admitGso (h : Kept P s.entries s) (g : GsoRequest) :
    Admits s g.fallback (GsoRequest.descs g) (s.admitGso g) := by
  have htotal := h.acct.count_add_free
  have hring := h.acct.cap
  fun_cases KlDgramSend.admitGso s g
  case case1 | case2 | case3 | case4 | case5 | case6 => exact .refused (by simp) (by simp)
  case case7 => exact .blocked (by omega)
  case case8 => exact .blocked (h.count_pos_of_bytes (by omega))
  case case9 hnseg _ hclosing _ _ _ hfree hgate =>
    have hfit : 0 < s.byteBudget → s.bytesUsed + g.total ≤ s.byteBudget := by
      intro hpos
      have hused := h.acct.budget hpos
      omega
    obtain ⟨segs, ring, slots, bytes, s', hfold, hs', hacct, hentries, hlen, -, hsegs⟩ :=
      pushSegments_spec h.acct g.nseg (by omega) hfit
    have hjoins : Joins s segs s' := by
      refine ⟨⟨ring, slots, bytes, hs'⟩, hacct, hentries, fun hnil => ?_, fun j x hx => ?_,
        hsegs.groupsOk hlen⟩
      · rw [hnil] at hlen
        exact hnseg (.inl hlen.symm)
      · obtain ⟨base, rfl⟩ := hsegs j x hx
        rfl
    rw [pushGroup, hfold]
    refine .joined hjoins (by simpa using hclosing) (fun hfall e he => ?_) (hsegs.descs hlen)
    obtain ⟨j, hj⟩ := mem_iff_getElem?.mp he
    obtain ⟨base, rfl⟩ := hsegs j e hj
    simp [KlDgramSlot.gsoWhole, segment, hfall]

/-- `kl_dgram_send_discard_queued` keeps the invariant, and never reads an empty position. -/
theorem Kept.discardQueued (h : Kept P s.entries s) :
    ∃ s', s.discardQueued = some s' ∧ Kept P s'.entries s' ∧ Alike s s' := by
  obtain ⟨ring, slots, bytes, s₁, hloop, hs₁, hacct, hpool, hentries⟩ :=
    discardLoop_spec h.acct (Nat.le_add_right s.count s.inflightN)
  refine ⟨s₁.discardDone, by rw [KlDgramSend.discardQueued, hloop, Option.map_some], ?_, ?_⟩
  · have hcount : s₁.discardDone.count = min s.inflightN s.count := by
      show s₁.count = _
      rw [hacct.count_eq, hentries, length_take, ← h.acct.count_eq]
    have hdone : s₁.discardDone.entries = s.entries.take s.inflightN := hentries
    have hsub : ∀ e ∈ s₁.discardDone.entries, e ∈ s.entries :=
      fun e he => mem_of_mem_take (hdone ▸ he)
    -- the datagram in flight is all that is left
    have hleft : P.fifo → s.inflightN ≠ 0 → ∃ e, s₁.discardDone.entries = [e] ∧ e.id = s.flight ∧
          (s.submitGso = true → e.gsoWhole = false) := by
      intro hp hf
      obtain ⟨e, he, hid, halone⟩ := h.flying hp hf
      have hone : s.inflightN = 1 := by
        have hsingle := h.acct.single
        omega
      refine ⟨e, ?_, hid, halone⟩
      rw [hdone, hone, take_one, he]
      rfl
    subst hs₁
    exact { h with
      acct := hacct.congr rfl rfl rfl rfl h.acct.single
      pool := hpool.symm ▸ h.pool
      full := nofun
      wake := nofun
      modes := fun hp hc e he => h.modes hp hc e (hsub e he)
      bound := fun hp => by
        have hbound := h.bound hp
        show s.inflightN ≤ _
        omega
      books := fun hp =>
        { h.books hp with
          balance := by
            have hbooks := (h.books hp).balance
            rw [← take_append_drop s.inflightN s.entries, map_append] at hbooks
            rw [hdone]
            exact hbooks.discardAll
          content := fun e he => (h.books hp).content e (hsub e he) }
      flying := fun hp hf => by
        obtain ⟨e, he, hid, halone⟩ := hleft hp hf
        exact ⟨e, by rw [he]; rfl, hid, halone⟩
      groups := fun hp hg => by
        by_cases hf : s.inflightN = 0
        · rw [hdone, hf]
          trivial
        · obtain ⟨e, he, -, halone⟩ := hleft hp hf
          rw [he]
          exact groupsOk_singleton (halone hg)
      abort := fun hp ha => by
        refine ⟨?_, hcount.trans_le (Nat.min_le_left _ _)⟩
        have hor : (s.aborted || s.closing) = true := ha
        rcases Bool.or_eq_true _ _ ▸ hor with ha | hclosing
        · exact (h.abort hp ha).1
        · exact hclosing
      cancelled := fun hp => by
        show (s.aborted || _) = _
        rw [h.cancelled hp]
        rfl
      drained := fun hp => by
        obtain ⟨hclosing, -, hnone⟩ := h.drained hp
        exact ⟨hclosing, by omega, hnone⟩ }
  · rw [hs₁]
    exact ⟨rfl, rfl, rfl, rfl, rfl, rfl⟩

end KlDgramSend
