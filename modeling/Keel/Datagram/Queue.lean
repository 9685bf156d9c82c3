-- SUMMARY: The send queue as a list, and what each operation does to it.
import Keel.Datagram.Send

/-!
# The send queue

The ring holds slot numbers and the pool the slots themselves. `entries` reads the two
together, and every lemma here says what an operation does to that list. The proofs
about the send machine use these lemmas and never look into the ring.
-/

open List

namespace KlDgramSend

/-- The accounting: ring, pool and byte counter agree on the queue. -/
structure Accounted (s : KlDgramSend) : Prop where
  ring : s.ring.Holds s.ring.toList
  cap : s.ring.cap = s.slots.slotCount
  split : s.slots.Split s.ring.toList
  bytes : s.bytesUsed = (s.entries.map (·.len)).sum
  budget : 0 < s.byteBudget → s.bytesUsed ≤ s.byteBudget
  single : s.inflightN ≤ 1

variable {s : KlDgramSend} {i : Nat}

namespace Accounted

section

variable (h : s.Accounted)
include h

theorem count_eq : s.count = s.entries.length := by
  rw [count, h.ring.count, entries, length_map]

theorem count_add_free : s.count + s.slots.freeCount = s.slots.slotCount := by
  rw [count, h.ring.count]
  exact h.split.total

/-- The head of the queue is what the ring has at its head. -/
theorem head (hi : s.ring.get 0 = some i) :
    ∃ rest, s.ring.toList = i :: rest ∧ s.entries = s.slots.out i :: rest.map s.slots.out := by
  rw [h.ring.get_zero] at hi
  obtain ⟨rest, hrest⟩ := head?_eq_some_iff.mp hi
  exact ⟨rest, hrest, by rw [entries, hrest, map_cons]⟩

/-- Only an empty queue has no head. -/
theorem no_head (hi : s.ring.get 0 = none) : s.entries = [] := by
  rw [h.ring.get_zero, head?_eq_none_iff] at hi
  rw [entries, hi, map_nil]

theorem entries_cons (hi : s.ring.get 0 = some i) :
    s.entries = s.slots.out i :: s.entries.tail := by
  obtain ⟨rest, -, hentries⟩ := h.head hi
  rw [hentries, tail_cons]

theorem get_of_pos (hpos : 0 < s.count) : ∃ i, s.ring.get 0 = some i := by
  cases hi : s.ring.get 0 with
  | some i => exact ⟨i, rfl⟩
  | none =>
    rw [h.count_eq, h.no_head hi] at hpos
    cases hpos

end

/-- Slots outside a list read the same after one slot of the pool changed. -/
theorem map_out_of_ne {slots slots' : KlDgramSlots} {l : List Nat}
    (hothers : ∀ j, j ≠ i → slots'.out j = slots.out j) (hi : i ∉ l) :
    l.map slots'.out = l.map slots.out :=
  map_congr_left fun j hj => hothers j fun heq => hi (heq ▸ hj)

/-- Retiring the head. -/
theorem popHead (h : s.Accounted) (hi : s.ring.get 0 = some i) (b : Bool) :
    (s.popHead i b).Accounted ∧ (s.popHead i b).entries = s.entries.tail := by
  obtain ⟨rest, hlist, hentries⟩ := h.head hi
  have hring : s.ring.popHead.Holds rest := (hlist ▸ h.ring).popHead
  obtain ⟨hsplit, hothers, -⟩ := h.split.release (List.Perm.of_eq hlist)
  have hnot : i ∉ rest := (nodup_cons.mp (hlist ▸ h.split.usedNodup)).1
  have htail : (s.popHead i b).entries = s.entries.tail := by
    rw [hentries, tail_cons]
    show s.ring.popHead.toList.map (s.slots.release i).out = _
    rw [hring.toList, map_out_of_ne hothers hnot]
  refine ⟨⟨?_, ?_, ?_, ?_, ?_, ?_⟩, htail⟩
  · exact hring.toList.symm ▸ hring
  · exact h.cap.trans (KlDgramSlots.release_slotCount _ _).symm
  · exact hring.toList.symm ▸ hsplit
  · have hb := h.bytes
    rw [hentries, map_cons, sum_cons] at hb
    rw [htail, hentries, tail_cons]
    show s.bytesUsed - (s.slots.out i).len = _
    omega
  · intro hpos
    exact Nat.le_trans (Nat.sub_le _ _) (h.budget hpos)
  · show (if b then s.inflightN - 1 else s.inflightN) ≤ 1
    have := h.single
    split <;> omega

/-- Discarding the tail. -/
theorem popTail (h : s.Accounted) (hpos : 0 < s.count) : ∃ i, s.ring.get (s.count - 1) = some i ∧
    (s.popTail i).Accounted ∧ s.entries = (s.popTail i).entries ++ [s.slots.out i] := by
  have hne : s.ring.toList ≠ [] := fun hnil => by
    rw [h.count_eq, entries, hnil] at hpos
    cases hpos
  obtain ⟨init, i, hlist⟩ := (eq_nil_or_concat _).resolve_left hne
  rw [concat_eq_append] at hlist
  have hring : s.ring.popTail.Holds init := (hlist ▸ h.ring).popTail
  obtain ⟨hsplit, hothers, -⟩ := h.split.release (hlist ▸ perm_append_singleton i init)
  have hnot : i ∉ init := fun hmem => by
    have := hlist ▸ h.split.usedNodup
    exact disjoint_of_nodup_append this hmem mem_cons_self
  have hinit : (s.popTail i).entries = init.map s.slots.out := by
    show s.ring.popTail.toList.map (s.slots.release i).out = _
    rw [hring.toList, map_out_of_ne hothers hnot]
  have hentries : s.entries = (s.popTail i).entries ++ [s.slots.out i] := by
    rw [hinit, entries, hlist, map_append, map_singleton]
  refine ⟨i, (hlist ▸ h.ring).get_last, ⟨?_, ?_, ?_, ?_, ?_, h.single⟩, hentries⟩
  · exact hring.toList.symm ▸ hring
  · exact h.cap.trans (KlDgramSlots.release_slotCount _ _).symm
  · exact hring.toList.symm ▸ hsplit
  · have hb := h.bytes
    rw [hentries, map_append, sum_append, map_singleton, sum_singleton] at hb
    show s.bytesUsed - (s.slots.out i).len = _
    omega
  · intro hpos
    exact Nat.le_trans (Nat.sub_le _ _) (h.budget hpos)

/-- A slot just acquired joins the queue. -/
theorem pushSlot (h : s.Accounted) {slots : KlDgramSlots} {slot : KlDgramSlot}
    (ha : s.slots.acquire = some (i, slots)) (hslot : slot.inUse = true)
    (hfit : 0 < s.byteBudget → s.bytesUsed + slot.len ≤ s.byteBudget) :
    (s.pushSlot i slots slot).Accounted ∧ (s.pushSlot i slots slot).entries =
    s.entries ++ [slot] := by
  obtain ⟨hnot, hsplit, hfresh, hothers, hfree, hcount, -⟩ := h.split.acquire ha
  have hroom : s.ring.toList.length < s.ring.cap := by
    have := h.split.total
    rw [h.cap]
    omega
  have hring : (s.ring.push i).Holds (s.ring.toList ++ [i]) := h.ring.push hroom
  have hentries : (s.pushSlot i slots slot).entries = s.entries ++ [slot] := by
    show (s.ring.push i).toList.map (slots.write i slot).out = _
    rw [hring.toList, map_append, map_singleton, KlDgramSlots.write_out_self, entries]
    congr 1
    refine map_out_of_ne (fun j hj => ?_) hnot
    rw [KlDgramSlots.write_out_ne slots slot hj, hothers j hj]
  refine ⟨⟨?_, ?_, ?_, ?_, hfit, h.single⟩, hentries⟩
  · exact hring.toList.symm ▸ hring
  · exact h.cap.trans hcount.symm
  · refine hring.toList.symm ▸ hsplit.write ?_
    rw [hfresh, hslot]
    rfl
  · rw [hentries, map_append, sum_append, map_singleton, sum_singleton, ← h.bytes]
    rfl

end Accounted

/-- `kl_dgram_send_discard_queued` keeps what is in flight and takes the rest off, the newest
first. -/
theorem discardLoop_spec {n : Nat} (h : s.Accounted) (hn : s.count ≤ n + s.inflightN) :
    ∃ ring slots bytes, ∃ s', discardLoop n s = some s' ∧ s' = { s with
        ring := ring, slots := slots, bytesUsed := bytes
        discarded := s.discarded ++ ((s.entries.drop s.inflightN).map (·.id)).reverse } ∧
      s'.Accounted ∧ s'.slots.slotCount = s.slots.slotCount ∧
      s'.entries = s.entries.take s.inflightN := by
  induction n generalizing s with
  | zero =>
    have hall : s.entries.length ≤ s.inflightN := by
      rw [← h.count_eq]
      simpa using hn
    refine ⟨s.ring, s.slots, s.bytesUsed, s, rfl, ?_, h, rfl, ?_⟩
    · simp [drop_of_length_le hall]
    · rw [take_of_length_le hall]
  | succ n ih =>
    unfold discardLoop
    split
    next hlt =>
      obtain ⟨i, hi, hacct, hentries⟩ := h.popTail (by omega)
      have hcount : (s.popTail i).count = s.count - 1 := rfl
      have hlen : s.inflightN ≤ (s.popTail i).entries.length := by
        rw [← hacct.count_eq, hcount]
        omega
      have hn' : (s.popTail i).count ≤ n + (s.popTail i).inflightN := by
        show s.count - 1 ≤ n + s.inflightN
        omega
      obtain ⟨ring, slots, bytes, s', hloop, hs', hacct', hpool, hentries'⟩ := ih hacct hn'
      refine ⟨ring, slots, bytes, s', ?_, ?_, hacct', ?_, ?_⟩
      · rw [hi]
        exact hloop
      · have hinfl : (s.popTail i).inflightN = s.inflightN := rfl
        have hdisc : (s.popTail i).discarded = s.discarded ++ [(s.slots.out i).id] := rfl
        rw [hs', hentries, hinfl, hdisc, drop_append_of_le_length hlen]
        simp [popTail]
      · exact hpool.trans (KlDgramSlots.release_slotCount _ _)
      · rw [hentries', hentries, take_append_of_le_length hlen]
        rfl
    next hge =>
      have hall : s.entries.length ≤ s.inflightN := by
        rw [← h.count_eq]
        omega
      refine ⟨s.ring, s.slots, s.bytesUsed, s, rfl, ?_, h, rfl, ?_⟩
      · simp [drop_of_length_le hall]
      · rw [take_of_length_le hall]

/-- The segments of a group are no longer than the group. -/
theorem sum_segLen_le (g : GsoRequest) (n : Nat) :
    ((List.range n).map (segLen g)).sum ≤ min g.total (n * g.seg) := by
  induction n with
  | zero => simp
  | succ n ih =>
    rw [range_succ, map_append, sum_append, map_singleton, sum_singleton,
      Nat.succ_mul]
    simp only [segLen]
    omega

/-- The slots `segs` are the first segments of `g`, with numbers from `id` on. -/
def SegmentsOf (g : GsoRequest) (id : Nat) (segs : List KlDgramSlot) : Prop :=
  ∀ j x, segs[j]? = some x → ∃ base, x = segment (KlDgramSlots.fresh base) g j (id + j)

theorem SegmentsOf.len_eq {g : GsoRequest} {id : Nat} {segs : List KlDgramSlot}
    (h : SegmentsOf g id segs) : segs.map (·.len) = (List.range segs.length).map (segLen g) := by
  apply ext_getElem?
  intro j
  rw [getElem?_map, getElem?_map]
  cases hx : segs[j]? with
  | none =>
    rw [getElem?_eq_none_iff] at hx
    simp [hx]
  | some x =>
    obtain ⟨base, rfl⟩ := h j x hx
    have hlt := (List.getElem?_eq_some_iff.mp hx).1
    simp [hlt, segment]

/-- The loop of `kl_dgram_send_enqueue_gso`: `n` slots join the queue as segments. -/
theorem pushSegments_spec {g : GsoRequest} (h : s.Accounted) (n : Nat)
    (hfree : n ≤ s.slots.freeCount)
    (hfit : 0 < s.byteBudget → s.bytesUsed + g.total ≤ s.byteBudget) :
    ∃ segs ring slots bytes, ∃ s', (List.range n).foldl (pushSegment g) s = s' ∧ s' = { s with
        ring := ring, slots := slots, bytesUsed := bytes
        accepted := s.accepted ++ segs.map (·.desc) } ∧
      s'.Accounted ∧ s'.entries = s.entries ++ segs ∧ segs.length = n ∧
      s'.slots.freeCount + n = s.slots.freeCount ∧ SegmentsOf g s.accepted.length segs := by
  induction n with
  | zero =>
    refine ⟨[], s.ring, s.slots, s.bytesUsed, s, rfl, by simp, h, by simp, rfl, rfl, ?_⟩
    intro j x hx
    simp at hx
  | succ n ih =>
    obtain ⟨segs, ring, slots, bytes, s', hfold, hs', hacct, hentries, hlen, hleft, hsegs⟩ :=
      ih (by omega)
    have hacc : s'.accepted.length = s.accepted.length + n := by
      rw [hs']
      simp [hlen]
    have hbudget : s'.byteBudget = s.byteBudget := by rw [hs']
    cases ha : s'.slots.acquire with
    | none =>
      have hnone := KlDgramSlots.acquire_eq_none ha
      simp only [KlDgramSlots.freeCount, hnone, length_nil] at hleft
      simp only [KlDgramSlots.freeCount] at hfree
      omega
    | some p =>
      obtain ⟨i, slots'⟩ := p
      obtain ⟨-, -, hfresh, -, hone, -, -⟩ := hacct.split.acquire ha
      have hbytes := hacct.bytes
      rw [hentries, map_append, sum_append, ← h.bytes, hsegs.len_eq, hlen] at hbytes
      have hfit' : 0 < s'.byteBudget →
          s'.bytesUsed + (segment (slots'.out i) g n s'.accepted.length).len ≤ s'.byteBudget := by
        intro hpos
        rw [hbudget] at hpos ⊢
        have hsum := sum_segLen_le g (n + 1)
        rw [range_succ, map_append, sum_append, map_singleton,
          sum_singleton] at hsum
        have := hfit hpos
        show s'.bytesUsed + segLen g n ≤ s.byteBudget
        omega
      obtain ⟨seg, hseg⟩ : ∃ seg, seg = segment (slots'.out i) g n s'.accepted.length := ⟨_, rfl⟩
      rw [← hseg] at hfit'
      have huse : seg.inUse = true := by
        rw [hseg, hfresh]
        rfl
      obtain ⟨hacct', hentries'⟩ := hacct.pushSlot ha huse hfit'
      refine ⟨segs ++ [seg], (s'.pushSlot i slots' seg).ring, (s'.pushSlot i slots' seg).slots,
        (s'.pushSlot i slots' seg).bytesUsed, s'.pushSlot i slots' seg, ?_, ?_, hacct', ?_, ?_, ?_,
          ?_⟩
      · rw [range_succ, foldl_append, hfold]
        simp only [foldl_cons, foldl_nil, pushSegment, ha, hseg]
      · rw [hs']
        simp [pushSlot]
      · rw [hentries', hentries, append_assoc]
      · simp [hlen]
      · have hfree' : (s'.pushSlot i slots' seg).slots.freeCount = slots'.freelist.length := rfl
        simp only [KlDgramSlots.freeCount] at hleft hfree' ⊢
        omega
      intro j x hx
      rcases Nat.lt_or_ge j segs.length with hj | hj
      · rw [getElem?_append_left hj] at hx
        exact hsegs j x hx
      rw [getElem?_append_right hj] at hx
      obtain ⟨h0, rfl⟩ : j - segs.length = 0 ∧ seg = x := by
        cases hk : j - segs.length with
        | zero => simpa [hk] using hx
        | succ k => simp [hk] at hx
      have hjn : j = n := by omega
      exact ⟨s'.slots.out i, by rw [hseg, hfresh, hacc, hjn]⟩

/-- A slot as `gso_mode = 1` leaves it. -/
def fellBack (b : Bool) (slot : KlDgramSlot) : KlDgramSlot :=
  { slot with gsoFallback := slot.gsoFallback || b }

/-- Marking a slot for fallback changes that mark only, wherever the slot is. -/
theorem setFallback_entries (s : KlDgramSend) (i : Nat) : (s.setFallback i).entries =
    s.ring.toList.map fun j => fellBack (j == i) (s.slots.out j) := by
  refine map_congr_left fun j _ => ?_
  by_cases heq : j = i
  · subst heq
    show (s.slots.write j _).out j = _
    simp [fellBack]
  · show (s.slots.write i _).out j = _
    rw [KlDgramSlots.write_out_ne _ _ heq, beq_false_of_ne heq]
    simp [fellBack]

theorem Accounted.setFallback (h : s.Accounted) (i : Nat) : (s.setFallback i).Accounted where
  __ := h
  split := h.split.write rfl
  bytes := by
    rw [setFallback_entries, map_map]
    exact h.bytes.trans (by rw [entries, map_map]; rfl)

end KlDgramSend
