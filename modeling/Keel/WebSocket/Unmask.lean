-- SUMMARY: ws_unmask xors the running mask over the payload.
import Mathlib.Logic.Function.Basic
import Mathlib.Algebra.GroupWithZero.Nat

/-!
# Unmasking

Memory is a function of addresses. The loops work byte by byte up to a multiple of four, then
in blocks of four, then byte by byte again.
-/

/-- What the loops of `ws_unmask` do not change: the address and the length of the payload, the
mask, and the offset modulo four. -/
structure WsUnmask where
  data : Nat
  len : Nat
  mask : Fin 4 → UInt8
  start : Nat

namespace WsUnmask

section

variable (w : WsUnmask) (mem : Nat → UInt8)

/-- `data[i] ^= mask[k & 3]`. -/
def xorByte (i k : Nat) : Nat → UInt8 :=
  Function.update mem (w.data + i) (mem (w.data + i) ^^^ w.mask (Fin.ofNat 4 k))

/-- The unaligned prefix. -/
def prefixLoop (mem : Nat → UInt8) (i : Nat) : (Nat → UInt8) × Nat :=
  if i < w.len ∧ (w.start + i) % 4 ≠ 0 then prefixLoop (w.xorByte mem i (w.start + i)) (i + 1)
  else (mem, i)
termination_by w.len - i

/-- The blocks of four bytes. -/
def blockLoop (mem : Nat → UInt8) (i : Nat) : (Nat → UInt8) × Nat :=
  if i + 3 < w.len then
    let base := (w.start + i) % 4
    let mem := w.xorByte mem i base
    let mem := w.xorByte mem (i + 1) (base + 1)
    let mem := w.xorByte mem (i + 2) (base + 2)
    let mem := w.xorByte mem (i + 3) (base + 3)
    blockLoop mem (i + 4)
  else (mem, i)
termination_by w.len - i

/-- The remaining bytes. -/
def restLoop (mem : Nat → UInt8) (i : Nat) : Nat → UInt8 :=
  if i < w.len then restLoop (w.xorByte mem i (w.start + i)) (i + 1) else mem
termination_by w.len - i

/-- The bytes from the `i`-th on unmasked. -/
def swept (i a : Nat) : UInt8 :=
  if w.data + i ≤ a ∧ a < w.data + w.len then
    mem a ^^^ w.mask (Fin.ofNat 4 (w.start + (a - w.data)))
  else mem a

end

def wsUnmask (mem : Nat → UInt8) (data len : Nat) (mask : Fin 4 → UInt8) (offset : Nat) :
    Nat → UInt8 :=
  let w : WsUnmask := { data, len, mask, start := offset % 4 }
  let r := w.prefixLoop mem 0
  let r := if w.start = 0 ∨ 0 < r.2 then w.blockLoop r.1 r.2 else r
  w.restLoop r.1 r.2

variable {w : WsUnmask} {mem : Nat → UInt8} {i k : Nat}

/-- A byte that is unmasked leaves the bytes after it to sweep. -/
theorem swept_xorByte (hi : i < w.len) (hk : k % 4 = (w.start + i) % 4) :
    w.swept (w.xorByte mem i k) (i + 1) = w.swept mem i := by
  funext a
  have hkey : Fin.ofNat 4 k = Fin.ofNat 4 (w.start + i) := Fin.ext hk
  unfold swept xorByte
  rw [Function.update_apply, hkey]
  by_cases ha : a = w.data + i
  · subst ha
    rw [if_neg (by omega), if_pos rfl, if_pos (by omega), Nat.add_sub_cancel_left]
  · rw [if_neg ha]
    exact if_congr (by omega) rfl rfl

theorem prefixLoop_swept (w : WsUnmask) (mem : Nat → UInt8) (hi : i ≤ w.len) :
    w.swept (w.prefixLoop mem i).1 (w.prefixLoop mem i).2 = w.swept mem i ∧
    (w.prefixLoop mem i).2 ≤ w.len := by
  fun_induction prefixLoop w mem i with
  | case1 mem i h ih => exact swept_xorByte h.1 rfl ▸ ih h.1
  | case2 mem i => exact ⟨rfl, hi⟩

theorem blockLoop_swept (w : WsUnmask) (mem : Nat → UInt8) (hi : i ≤ w.len) :
    w.swept (w.blockLoop mem i).1 (w.blockLoop mem i).2 = w.swept mem i ∧
    (w.blockLoop mem i).2 ≤ w.len := by
  fun_induction blockLoop w mem i with
  | case1 mem i h base m₁ m₂ m₃ m₄ ih =>
    have hblock : w.swept m₄ (i + 4) = w.swept mem i := by
      rw [swept_xorByte (by omega) (by omega), swept_xorByte (by omega) (by omega),
        swept_xorByte (by omega) (by omega), swept_xorByte (by omega) (by omega)]
    exact hblock ▸ ih h
  | case2 mem i => exact ⟨rfl, hi⟩

theorem restLoop_swept (hi : i ≤ w.len) : w.restLoop mem i = w.swept mem i := by
  fun_induction restLoop w mem i with
  | case1 mem i h ih => exact swept_xorByte h rfl ▸ ih h
  | case2 mem i h =>
    funext a
    exact (if_neg (by omega)).symm

theorem wsUnmask_eq (mem : Nat → UInt8) (data len : Nat) (mask : Fin 4 → UInt8) (offset a : Nat) :
    wsUnmask mem data len mask offset a =
      if data ≤ a ∧ a < data + len then mem a ^^^ mask (Fin.ofNat 4 (offset + (a - data)))
      else mem a := by
  let w : WsUnmask := { data, len, mask, start := offset % 4 }
  obtain ⟨hhead, hle⟩ := w.prefixLoop_swept mem (Nat.zero_le len)
  have hkey : Fin.ofNat 4 (offset % 4 + (a - data)) = Fin.ofNat 4 (offset + (a - data)) :=
    Fin.ext (Nat.mod_add_mod _ _ _)
  have hall : wsUnmask mem data len mask offset = w.swept mem 0 := by
    simp only [wsUnmask]
    split
    · obtain ⟨hblock, hle'⟩ := w.blockLoop_swept _ hle
      exact (restLoop_swept hle').trans (hblock.trans hhead)
    · exact (restLoop_swept hle).trans hhead
  rw [hall, swept, hkey]
  rfl

/-- `ws_unmask` on consecutive pieces, with running offsets. -/
def unmaskPieces (mask : Fin 4 → UInt8) : List Nat → (Nat → UInt8) → Nat → Nat → Nat → UInt8
  | [], mem, _, _ => mem
  | n :: ns, mem, data, offset =>
    unmaskPieces mask ns (wsUnmask mem data n mask offset) (data + n) (offset + n)

/-- The mask is xored over the payload and nothing else, so that a second run restores it and
the pieces of a payload can be unmasked one after the other. -/
theorem unmask_exact (mem : Nat → UInt8) (data len : Nat) (mask : Fin 4 → UInt8) (offset : Nat) :
    (∀ a, wsUnmask mem data len mask offset a =
      if data ≤ a ∧ a < data + len then mem a ^^^ mask (Fin.ofNat 4 (offset + (a - data)))
      else mem a) ∧
    wsUnmask (wsUnmask mem data len mask offset) data len mask offset = mem ∧
    ∀ pieces : List Nat, unmaskPieces mask pieces mem data offset =
    wsUnmask mem data pieces.sum mask offset := by
  refine ⟨wsUnmask_eq mem data len mask offset, ?_, fun pieces => ?_⟩
  · funext a
    rw [wsUnmask_eq, wsUnmask_eq]
    split
    · rw [UInt8.xor_assoc, UInt8.xor_self, UInt8.xor_zero]
    · rfl
  · induction pieces generalizing mem data offset with
    | nil =>
      funext a
      rw [wsUnmask_eq, if_neg (by simp)]
      rfl
    | cons n ns ih =>
      funext a
      rw [unmaskPieces, ih, wsUnmask_eq, wsUnmask_eq, wsUnmask_eq, List.sum_cons]
      by_cases ha : data + n ≤ a
      · have hpos : offset + n + (a - (data + n)) = offset + (a - data) := by omega
        rw [hpos, if_neg (show ¬ (data ≤ a ∧ a < data + n) by omega)]
        exact if_congr (by omega) rfl rfl
      · rw [if_neg (by omega)]
        exact if_congr (by omega) rfl rfl

end WsUnmask
