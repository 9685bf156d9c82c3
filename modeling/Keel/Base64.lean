-- SUMMARY: kl_base64_encode (src/base64.h) writes the standard encoding.
import Mathlib.Algebra.Ring.Nat
import Keel.Message.Framing

/-!
# Base64

The encoder works in groups of three bytes. What it is held to is the definition by numbers: a
group of 24 bits is four digits in base 64, each written by the alphabet, and a last group of one
or two bytes is filled up with zero bits and marked by padding.
-/

open Message

namespace Base64

def klB64Table : List UInt8 :=
  ascii "ABCDEFGHIJKLMNOPQRSTUVWXYZabcdefghijklmnopqrstuvwxyz0123456789+/"

/-- `kl_b64_table[(v >> shift) & 0x3F]`. -/
def tableAt (v shift : Nat) : UInt8 := klB64Table.getD ((v >>> shift) &&& 0x3F) 0

def klBase64Encode : List UInt8 → List UInt8
  | a :: b :: c :: rest =>
    let v := (a.toNat <<< 16) ||| (b.toNat <<< 8) ||| c.toNat
    tableAt v 18 :: tableAt v 12 :: tableAt v 6 :: tableAt v 0 :: klBase64Encode rest
  | [a, b] =>
    let v := (a.toNat <<< 16) ||| (b.toNat <<< 8)
    [tableAt v 18, tableAt v 12, tableAt v 6, 61]
  | [a] =>
    let v := a.toNat <<< 16
    [tableAt v 18, tableAt v 12, 61, 61]
  | [] => []

/-! ## The standard -/

/-- The character of a digit. -/
def alphabet (n : Nat) : UInt8 :=
  UInt8.ofNat (if n < 26 then 65 + n else if n < 52 then 97 + (n - 26)
    else if n < 62 then 48 + (n - 52) else if n = 62 then 43 else 47)

/-- The digit of a character. -/
def digitOf (c : UInt8) : Option Nat := (List.range 64).find? fun n => alphabet n == c

/-- The digits of a group of 24 bits. -/
def digits (v : Nat) : List Nat := [v / 64 ^ 3 % 64, v / 64 ^ 2 % 64, v / 64 % 64, v % 64]

/-- The number of a group of three bytes. -/
def group (a b c : UInt8) : Nat := a.toNat * 256 ^ 2 + b.toNat * 256 + c.toNat

def encode : List UInt8 → List UInt8
  | a :: b :: c :: rest => (digits (group a b c)).map alphabet ++ encode rest
  | [a, b] => ((digits (group a b 0)).take 3).map alphabet ++ [61]
  | [a] => ((digits (group a 0 0)).take 2).map alphabet ++ [61, 61]
  | [] => []

/-- The bytes of four digits. -/
def bytes (d : Nat × Nat × Nat × Nat) : List UInt8 :=
  let v := d.1 * 64 ^ 3 + d.2.1 * 64 ^ 2 + d.2.2.1 * 64 + d.2.2.2
  [UInt8.ofNat (v / 256 ^ 2), UInt8.ofNat (v / 256 % 256), UInt8.ofNat (v % 256)]

def decode : List UInt8 → Option (List UInt8)
  | p :: q :: r :: s :: rest =>
    if s ≠ 61 then do
      return bytes (← digitOf p, ← digitOf q, ← digitOf r, ← digitOf s) ++ (← decode rest)
    -- padding ends the text
    else if rest ≠ [] then none
    else if r ≠ 61 then do return (bytes (← digitOf p, ← digitOf q, ← digitOf r, 0)).take 2
    else do return (bytes (← digitOf p, ← digitOf q, 0, 0)).take 1
  | [] => some []
  | _ => none

/-! ## The encoder writes it -/

/-- The digit that a shift selects. -/
theorem tableAt_eq (v shift : Nat) : tableAt v shift = alphabet (v / 2 ^ shift % 64) := by
  have htable : ∀ n < 64, klB64Table.getD n 0 = alphabet n := by decide +kernel
  have hmask : (v >>> shift) &&& 0x3F = v / 2 ^ shift % 64 := by
    rw [Nat.shiftRight_eq_div_pow]
    exact Nat.and_two_pow_sub_one_eq_mod _ 6
  rw [tableAt, hmask]
  exact htable _ (Nat.mod_lt _ (by decide))

/-- Three bytes as one number. -/
theorem group_eq (a b c : UInt8) :
    (a.toNat <<< 16) ||| (b.toNat <<< 8) ||| c.toNat = group a b c := by
  have hb := b.toNat_lt
  have hc := c.toNat_lt
  have hlow : b.toNat <<< 8 ||| c.toNat = b.toNat * 256 + c.toNat := by
    rw [← Nat.shiftLeft_add_eq_or_of_lt hc, Nat.shiftLeft_eq]
  rw [Nat.or_assoc, hlow, ← Nat.shiftLeft_add_eq_or_of_lt (i := 16) (by omega), Nat.shiftLeft_eq]
  exact (Nat.add_assoc _ _ _).symm

/-- The loop computes the standard encoding. -/
theorem klBase64Encode_eq (data : List UInt8) : klBase64Encode data = encode data := by
  fun_induction klBase64Encode data with
  | case1 a b c rest v ih =>
    have hv : v = group a b c := group_eq a b c
    simp [encode, digits, tableAt_eq, hv, ih]
  | case2 a b v =>
    have hv : v = group a b 0 := (Nat.or_zero _).symm.trans (group_eq a b 0)
    simp [encode, digits, tableAt_eq, hv]
  | case3 a v =>
    have hv : v = group a 0 0 := ((Nat.or_zero _).trans (Nat.or_zero _)).symm.trans (group_eq a 0 0)
    simp [encode, digits, tableAt_eq, hv]
  | case4 => rfl

/-- Four digits for three bytes, begun groups filled up. -/
theorem length_encode (data : List UInt8) : (encode data).length = 4 * ((data.length + 2) / 3) := by
  fun_induction encode data with
  | case1 a b c rest ih =>
    simp only [digits, List.map_cons, List.map_nil, List.length_append, List.length_cons,
      List.length_nil, ih]
    omega
  | case2 a b => simp [digits]
  | case3 a => simp [digits]
  | case4 => rfl

/-! ## The input comes back -/

/-- A character of the alphabet stands for one digit. -/
theorem digitOf_alphabet (v : Nat) : digitOf (alphabet (v % 64)) = some (v % 64) := by
  have hall : ∀ n < 64, digitOf (alphabet n) = some n := by decide +kernel
  exact hall _ (Nat.mod_lt v (by decide))

theorem alphabet_ne_pad (v : Nat) : alphabet (v % 64) ≠ 61 := by
  have hall : ∀ n < 64, alphabet n ≠ 61 := by decide +kernel
  exact hall _ (Nat.mod_lt v (by decide))

/-- Four digits give the three bytes back. -/
theorem bytes_digits (a b c : UInt8) :
    bytes (group a b c / 262144 % 64, group a b c / 4096 % 64, group a b c / 64 % 64,
      group a b c % 64) = [a, b, c] := by
  have ha := a.toNat_lt
  have hb := b.toNat_lt
  have hc := c.toNat_lt
  have hv : group a b c = a.toNat * 65536 + b.toNat * 256 + c.toNat := rfl
  generalize group a b c = v at hv ⊢
  have hdigits : v / 262144 % 64 * 64 ^ 3 + v / 4096 % 64 * 64 ^ 2 + v / 64 % 64 * 64 + v % 64 =
      v := by omega
  have h₁ : v / 256 ^ 2 = a.toNat := by omega
  have h₂ : v / 256 % 256 = b.toNat := by omega
  have h₃ : v % 256 = c.toNat := by omega
  simp only [bytes, hdigits, h₁, h₂, h₃, UInt8.ofNat_toNat]

/-- Decoding undoes the encoding. -/
theorem decode_encode (data : List UInt8) : decode (encode data) = some data := by
  fun_induction encode data with
  | case1 a b c rest ih =>
    simp [digits, decode, digitOf_alphabet, alphabet_ne_pad, bytes_digits, ih]
  | case2 a b =>
    have hlast : group a b 0 % 64 = 0 := by
      have : (0 : UInt8).toNat = 0 := rfl
      unfold group
      omega
    have hbytes := bytes_digits a b 0
    rw [hlast] at hbytes
    simp [digits, decode, digitOf_alphabet, alphabet_ne_pad, hbytes]
  | case3 a =>
    have hlast : group a 0 0 / 64 % 64 = 0 ∧ group a 0 0 % 64 = 0 := by
      have : (0 : UInt8).toNat = 0 := rfl
      unfold group
      omega
    have hbytes := bytes_digits a 0 0
    rw [hlast.1, hlast.2] at hbytes
    simp [digits, decode, digitOf_alphabet, hbytes]
  | case4 => rfl

/-- The encoder writes four characters for three bytes begun, by the standard, and they decode to
the input. -/
theorem base64_standard (data : List UInt8) :
    (klBase64Encode data).length = 4 * ((data.length + 2) / 3) ∧ klBase64Encode data = encode data ∧
      decode (klBase64Encode data) = some data := by
  rw [klBase64Encode_eq]
  exact ⟨length_encode data, rfl, decode_encode data⟩

end Base64
