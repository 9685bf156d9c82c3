-- SUMMARY: Packet slots (src/datagram_slots.c) and the outbound pool.
import Mathlib.Logic.Function.Basic
import Mathlib.Data.List.Nodup

/-!
# Packet slots

One slot holds a datagram with its metadata. The receive side has one slot of its
own; the send side takes its slots from a pool of fixed size.
-/

open List

/-- A socket address as far as the machines look at it: an address without a family is
absent, any other address is told apart from the rest. -/
inductive KlSockAddr where
  | unspec
  | inet (id : Nat)
deriving DecidableEq, Repr

/-- The flags `KL_DGRAM_TRUNCATED` and `KL_DGRAM_HAS_LOCAL`. -/
structure KlDgramFlags where
  truncated : Bool := false
  hasLocal : Bool := false
deriving DecidableEq, Repr

/-- One packet slot. An inbound slot leaves the outbound provenance and the fields of a
GSO group as they are. `id` is the number of the datagram in the slot, counted in the
order of acceptance; no code reads it. -/
structure KlDgramSlot where
  peer : KlSockAddr := .unspec
  localAddr : KlSockAddr := .unspec
  len : Nat := 0
  cap : Nat
  tos : Int := -1
  flags : KlDgramFlags := {}
  recoverable : Bool := false
  gsoExt : Option (List UInt8) := none
  gsoHead : Bool := false
  gsoLast : Bool := false
  /-- The segments are sent one by one. -/
  gsoFallback : Bool := false
  gsoTotal : Nat := 0
  gsoSeg : Nat := 0
  gsoOwner : Option Nat := none
  inUse : Bool := false
  data : List UInt8 := []
  id : Nat := 0
deriving DecidableEq, Repr

/-- The outbound pool. The free list is a stack, its top first. -/
structure KlDgramSlots where
  slotCount : Nat
  outCap : Nat
  out : Nat → KlDgramSlot
  freelist : List Nat

namespace KlDgramSlots

/-- `kl_dgram_slots_init`. -/
def init (slotCount outCap : Nat) : Option KlDgramSlots :=
  if slotCount = 0 ∨ outCap = 0 then none
  else some {
    slotCount := slotCount
    outCap := outCap
    out := fun _ => { cap := outCap }
    freelist := List.range slotCount }

variable (s : KlDgramSlots) (i : Nat)

/-- The slot `i` becomes `slot`. -/
def write (slot : KlDgramSlot) : KlDgramSlots := { s with out := Function.update s.out i slot }

/-- A slot as `kl_dgram_slots_acquire` hands it out. -/
def fresh (slot : KlDgramSlot) : KlDgramSlot :=
  { cap := slot.cap, data := slot.data, inUse := true }

/-- `kl_dgram_slots_acquire`: the index of the slot, and the pool without it. -/
def acquire : Option (Nat × KlDgramSlots) :=
  match s.freelist with
  | [] => none
  | i :: rest => some (i, { s.write i (fresh (s.out i)) with freelist := rest })

/-- `kl_dgram_slots_release`. -/
def release : KlDgramSlots :=
  if s.slotCount ≤ i then s
  else if !(s.out i).inUse then s
  else if s.slotCount ≤ s.freelist.length then s
  else { s.write i { s.out i with inUse := false } with freelist := i :: s.freelist }

/-- `kl_dgram_slots_free_count`. -/
def freeCount : Nat := s.freelist.length

@[simp] theorem write_slotCount (slot : KlDgramSlot) :
    (s.write i slot).slotCount = s.slotCount := rfl
@[simp] theorem write_out_self (slot : KlDgramSlot) :
    (s.write i slot).out i = slot := Function.update_self ..
theorem write_out_ne {i j : Nat} (slot : KlDgramSlot) (h : j ≠ i) :
    (s.write i slot).out j = s.out j := Function.update_of_ne h ..

@[simp] theorem release_slotCount : (s.release i).slotCount = s.slotCount := by
  unfold release
  repeat' split
  all_goals rfl

/-- Every slot is either one of `used` and in use, or on the free list and not in use. -/
structure Split (s : KlDgramSlots) (used : List Nat) : Prop where
  usedNodup : used.Nodup
  usedSlot : ∀ i ∈ used, i < s.slotCount ∧ (s.out i).inUse = true
  freeNodup : s.freelist.Nodup
  freeSlot : ∀ i ∈ s.freelist, i < s.slotCount ∧ (s.out i).inUse = false
  total : used.length + s.freelist.length = s.slotCount

variable {s : KlDgramSlots} {used : List Nat} {i : Nat}

theorem split_init {slotCount outCap : Nat} (h : init slotCount outCap = some s) : s.Split [] := by
  unfold init at h
  split at h
  · cases h
  · cases h
    exact ⟨.nil, nofun, nodup_range, by simp, by simp⟩

/-- A slot in use is not on the free list. -/
theorem Split.not_free (h : s.Split used) (hi : i ∈ used) : i ∉ s.freelist := by
  intro hfree
  have := (h.freeSlot i hfree).2
  rw [(h.usedSlot i hi).2] at this
  cases this

/-- Rewriting a slot, without taking it or giving it back, changes nothing. -/
theorem Split.write (h : s.Split used) {slot : KlDgramSlot} (hslot : slot.inUse = (s.out i).inUse) :
    (s.write i slot).Split used := by
  have huse : ∀ j, ((s.write i slot).out j).inUse = (s.out j).inUse := by
    intro j
    by_cases heq : j = i
    · rw [heq, write_out_self, hslot]
    · rw [write_out_ne s slot heq]
  exact {
    usedNodup := h.usedNodup
    usedSlot := fun j hj => by rw [huse]; exact h.usedSlot j hj
    freeNodup := h.freeNodup
    freeSlot := fun j hj => by rw [huse]; exact h.freeSlot j hj
    total := h.total }

theorem Split.acquire (h : s.Split used) {s' : KlDgramSlots} (ha : s.acquire = some (i, s')) :
    i ∉ used ∧ s'.Split (used ++ [i]) ∧ s'.out i = fresh (s.out i) ∧
      (∀ j, j ≠ i → s'.out j = s.out j) ∧ s'.freelist.length + 1 = s.freelist.length ∧
      s'.slotCount = s.slotCount ∧ s'.outCap = s.outCap := by
  unfold KlDgramSlots.acquire at ha
  split at ha
  · cases ha
  next k rest hfree =>
    simp only [Option.some.injEq, Prod.mk.injEq] at ha
    obtain ⟨rfl, rfl⟩ := ha
    have hk : k ∈ s.freelist := by rw [hfree]; exact mem_cons_self
    have hunused : k ∉ used := fun hmem => h.not_free hmem hk
    have hnodup := h.freeNodup
    rw [hfree, nodup_cons] at hnodup
    have hothers : ∀ j, j ≠ k → (s.write k (fresh (s.out k))).out j = s.out j :=
      fun j hj => write_out_ne s _ hj
    refine ⟨hunused, ⟨?_, ?_, hnodup.2, ?_, ?_⟩, write_out_self .., hothers, by simp [hfree], rfl,
      rfl⟩
    · exact nodup_append.mpr ⟨h.usedNodup, by simp, by
        simpa using fun a ha (heq : a = k) => hunused (heq ▸ ha)⟩
    · intro j hj
      rcases mem_append.mp hj with hj | hj
      · have hne : j ≠ k := fun heq => hunused (heq ▸ hj)
        exact ⟨(h.usedSlot j hj).1, (hothers j hne).symm ▸ (h.usedSlot j hj).2⟩
      · rw [mem_singleton.mp hj]
        exact ⟨(h.freeSlot k hk).1, (congrArg _ (write_out_self s k _)).trans rfl⟩
    · intro j hj
      have hne : j ≠ k := fun heq => hnodup.1 (heq ▸ hj)
      have hmem : j ∈ s.freelist := by rw [hfree]; exact mem_cons_of_mem k hj
      exact ⟨(h.freeSlot j hmem).1, (hothers j hne).symm ▸ (h.freeSlot j hmem).2⟩
    · have := h.total
      rw [hfree, length_cons] at this
      simp only [length_append, length_singleton, write_slotCount]
      omega

theorem acquire_eq_none (ha : s.acquire = none) : s.freelist = [] := by
  unfold KlDgramSlots.acquire at ha
  split at ha
  · assumption
  · cases ha

/-- A slot in use is given back: the other slots do not change. -/
theorem Split.release {rest : List Nat} (h : s.Split used) (hp : used.Perm (i :: rest)) :
    (s.release i).Split rest ∧ (∀ j, j ≠ i → (s.release i).out j = s.out j) ∧
      (s.release i).freelist.length = s.freelist.length + 1 := by
  have hi : i ∈ used := hp.mem_iff.mpr mem_cons_self
  obtain ⟨hlt, huse⟩ := h.usedSlot i hi
  have hlen := hp.length_eq
  have htotal := h.total
  rw [length_cons] at hlen
  have heq : s.release i =
      { s.write i { s.out i with inUse := false } with freelist := i :: s.freelist } := by
    unfold KlDgramSlots.release
    rw [if_neg (by omega), if_neg (by simp [huse]), if_neg (by omega)]
  have hnodup : i ∉ rest ∧ rest.Nodup := nodup_cons.mp (hp.nodup_iff.mp h.usedNodup)
  have hothers : ∀ j, j ≠ i → (s.write i { s.out i with inUse := false }).out j = s.out j :=
    fun j hj => write_out_ne s _ hj
  rw [heq]
  refine ⟨⟨hnodup.2, ?_, ?_, ?_, ?_⟩, hothers, rfl⟩
  · intro j hj
    have hne : j ≠ i := fun heq => hnodup.1 (heq ▸ hj)
    have hmem : j ∈ used := hp.mem_iff.mpr (mem_cons_of_mem i hj)
    exact ⟨(h.usedSlot j hmem).1, (hothers j hne).symm ▸ (h.usedSlot j hmem).2⟩
  · exact nodup_cons.mpr ⟨h.not_free hi, h.freeNodup⟩
  · intro j hj
    by_cases hne : j = i
    · subst hne
      exact ⟨hlt, (congrArg _ (write_out_self s j _)).trans rfl⟩
    · have hmem := (mem_cons.mp hj).resolve_left hne
      exact ⟨(h.freeSlot j hmem).1, (hothers j hne).symm ▸ (h.freeSlot j hmem).2⟩
  · show rest.length + (i :: s.freelist).length = s.slotCount
    rw [length_cons]
    omega

end KlDgramSlots
