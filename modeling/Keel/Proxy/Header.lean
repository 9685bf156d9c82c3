-- SUMMARY: The PROXY header parser: a decision stands whatever follows.
import Keel.Message.Decision
import Mathlib.Algebra.Order.Group.Nat

/-!
# PROXY headers

`kl_proxy_parse` looks at the front of a connection's bytes. `inet_pton` is a parameter: its answer
for a text is all that matters here.
-/

open List

namespace Proxy

def KL_PROXY_HEADER_MAX : Nat := 536

/-- `KlSockAddr` as a header sets it. -/
inductive KlProxyAddr where
  | unspec
  | inet (ip : List UInt8) (port : Nat)
  | inet6 (ip : List UInt8) (port : Nat)
deriving DecidableEq, Repr

inductive KlProxyResult where
  | none | needMore | ok | invalid
deriving DecidableEq, Repr

/-- The result, and the out-parameters that were written. -/
structure KlProxyParse where
  result : KlProxyResult
  consumed : Option Nat
  peer : Option KlProxyAddr
deriving DecidableEq, Repr

def V2SIG : List UInt8 := [0x0D, 0x0A, 0x0D, 0x0A, 0x00, 0x0D, 0x0A, 0x51, 0x55, 0x49, 0x54, 0x0A]

/-- "PROXY " -/
def V1SIG : List UInt8 := [0x50, 0x52, 0x4F, 0x58, 0x59, 0x20]

/-- The digits of a port: how many, and their value. -/
def v1Digits : Nat → Nat → List UInt8 → Option (Nat × Nat)
  | n, v, [] => some (n, v)
  | n, v, b :: s =>
    if 5 ≤ n ∨ b < 0x30 ∨ 0x39 < b then none
    else v1Digits (n + 1) (v * 10 + (b.toNat - 0x30)) s

/-- `v1_port` -/
def v1Port (s : List UInt8) : Option Nat :=
  match v1Digits 0 0 s with
  | none => none
  | some (n, v) => if n = 0 ∨ 65535 < v ∨ (1 < n ∧ s.head? = some 0x30) then none else some v

/-- `v1_field`: the field, and the cursor behind it. -/
def v1Field : Option (List UInt8) → Option (List UInt8) × Option (List UInt8)
  | none => (none, none)
  | some s =>
    if s = [] ∨ s.head? = some 0x20 then (none, some s)
    else
      match s.dropWhile (· != 0x20) with
      | [] => (some (s.takeWhile (· != 0x20)), none)
      | _ :: rest => (some (s.takeWhile (· != 0x20)), some rest)

/-- Where the CRLF of a version 1 line starts, among the first `max` bytes. -/
def findCrlf (buf : List UInt8) (max : Nat) : Option Nat :=
  (List.range' 5 (max - 6)).find? fun i => buf[i]? == some 0x0D && buf[i + 1]? == some 0x0A

section Parse

variable (pton4 pton6 : List UInt8 → Option (List UInt8))

/-- The addresses and the ports of a line, where the family is known. -/
def v1Addresses (pton : List UInt8 → Option (List UInt8)) (addr : List UInt8 → Nat → KlProxyAddr)
    (cur : Option (List UInt8)) : Option KlProxyAddr :=
  let src := v1Field cur
  let dst := v1Field src.2
  let sport := v1Field dst.2
  let dport := v1Field sport.2
  match src.1, dst.1, sport.1, dport.1, dport.2 with
  | some src, some dst, some sport, some dport, none =>
    match v1Port sport, v1Port dport, pton src, pton dst with
    | some sp, some _, some b, some _ => some (addr b sp)
    | _, _, _, _ => none
  | _, _, _, _, _ => none

/-- The fields of a version 1 line. -/
def v1Line (line : List UInt8) : Option KlProxyAddr :=
  let tok := v1Field (some line)
  let proto := v1Field tok.2
  match tok.1, proto.1 with
  | some _, some name =>
    -- "UNKNOWN": the rest of the line is ignored
    if name = [0x55, 0x4E, 0x4B, 0x4E, 0x4F, 0x57, 0x4E] then some .unspec
    else if name = [0x54, 0x43, 0x50, 0x34] then v1Addresses pton4 .inet proto.2
    else if name = [0x54, 0x43, 0x50, 0x36] then v1Addresses pton6 .inet6 proto.2
    else none
  | _, _ => none

variable (buf : List UInt8)

/-- `parse_v1` -/
def parseV1 : KlProxyParse :=
  match findCrlf buf (min buf.length 107) with
  | none => ⟨if 107 ≤ buf.length then .invalid else .needMore, none, none⟩
  | some nl =>
    if 0 ∈ buf.take nl then ⟨.invalid, none, none⟩
    else
      match v1Line pton4 pton6 (buf.take nl) with
      | none => ⟨.invalid, some (nl + 2), none⟩
      | some peer => ⟨.ok, some (nl + 2), some peer⟩

/-- Two bytes in network order. -/
def be16 (i : Nat) : Nat := (buf.getD i 0).toNat * 256 + (buf.getD (i + 1) 0).toNat

/-- The length of a version 2 header. -/
def v2Total : Nat := 16 + be16 buf 14

/-- A version 2 header that is there as a whole. -/
def v2Block : KlProxyParse :=
  let cmd := (buf.getD 12 0).toNat % 16
  let fam := (buf.getD 13 0).toNat / 16
  let blocklen := be16 buf 14
  let a := buf.drop 16
  -- LOCAL carries no address
  if cmd = 0 then ⟨.ok, some (v2Total buf), some .unspec⟩
  else if cmd ≠ 1 then ⟨.invalid, some (v2Total buf), some .unspec⟩
  else if fam = 1 then
    if blocklen < 12 then ⟨.invalid, some (v2Total buf), some .unspec⟩
    else ⟨.ok, some (v2Total buf), some (.inet (a.take 4) (be16 a 8))⟩
  else if fam = 2 then
    if blocklen < 36 then ⟨.invalid, some (v2Total buf), some .unspec⟩
    else ⟨.ok, some (v2Total buf), some (.inet6 (a.take 16) (be16 a 32))⟩
  else ⟨.ok, some (v2Total buf), some .unspec⟩

/-- `parse_v2` -/
def parseV2 : KlProxyParse :=
  if (buf.getD 12 0).toNat / 16 ≠ 2 then ⟨.invalid, none, none⟩
  else if KL_PROXY_HEADER_MAX < v2Total buf then ⟨.invalid, none, none⟩
  else if buf.length < v2Total buf then ⟨.needMore, none, none⟩
  else v2Block buf

/-- `kl_proxy_parse` -/
def klProxyParse : KlProxyParse :=
  if buf.length = 0 then ⟨.needMore, none, none⟩
  else if buf.take 12 = V2SIG.take buf.length then
    if buf.length < 16 then ⟨.needMore, none, none⟩ else parseV2 buf
  else if buf.take 6 = V1SIG.take buf.length then
    if buf.length < 6 then ⟨.needMore, none, none⟩ else parseV1 pton4 pton6 buf
  else ⟨.none, none, none⟩

end Parse

/-! ## Stability -/

section Stable

variable {pton4 pton6 : List UInt8 → Option (List UInt8)} {buf more : List UInt8} {i n : Nat}

theorem getD_append (h : i < buf.length) : (buf ++ more).getD i 0 = buf.getD i 0 := by
  rw [getD_eq_getElem?_getD, getD_eq_getElem?_getD, getElem?_append_left h]

theorem be16_append (h : i + 1 < buf.length) : be16 (buf ++ more) i = be16 buf i := by
  unfold be16
  rw [getD_append (Nat.lt_of_succ_lt h), getD_append h]

/-- A signature that was missed is missed for good. -/
theorem sig_append {sig : List UInt8} (h : buf.take n ≠ sig.take buf.length) :
    (buf ++ more).take n ≠ sig.take (buf ++ more).length := by
  intro hall
  refine h ?_
  have hcut := congrArg (take buf.length) hall
  rw [take_take, take_take, length_append, Nat.min_eq_left (Nat.le_add_right _ _)] at hcut
  rw [← hcut, take_append_of_le_length (Nat.min_le_left _ _), take_eq_take_iff]
  omega

/-- One that was seen whole stays. -/
theorem sig_append_of_le {sig : List UInt8} (hn : sig.length = n)
    (h : buf.take n = sig.take buf.length) (hlen : n ≤ buf.length) :
    (buf ++ more).take n = sig.take (buf ++ more).length := by
  rw [take_append_of_le_length hlen, h, length_append, take_of_length_le (by omega),
    take_of_length_le (by omega)]

theorem find_congr {p p' : Nat → Bool} (l : List Nat) (h : ∀ i ∈ l, p i = p' i) :
    l.find? p = l.find? p' := by
  induction l with
  | nil => rfl
  | cons i l ih =>
    rw [find?_cons, find?_cons, h i mem_cons_self, ih fun j hj => h j (mem_cons_of_mem i hj)]

/-- The line ends within the bytes that are searched. -/
theorem findCrlf_bound {max : Nat} (h : findCrlf buf max = some n) : n + 2 ≤ max := by
  have hmem := mem_of_find?_eq_some h
  rw [mem_range'_1] at hmem
  omega

/-- The first CRLF is the first CRLF of every longer prefix. -/
theorem findCrlf_append {max max' : Nat} (h : findCrlf buf max = some n) (hle : max ≤ max')
    (hin : max ≤ buf.length) : findCrlf (buf ++ more) max' = some n := by
  unfold findCrlf at h ⊢
  have hsplit : range' 5 (max' - 6) = range' 5 (max - 6) ++ range' (5 + (max - 6))
      (max' - 6 - (max - 6)) := by
    rw [range'_append_1]
    congr 1
    omega
  have hsame : ((range' 5 (max - 6)).find? fun i =>
      (buf ++ more)[i]? == some 0x0D && (buf ++ more)[i + 1]? == some 0x0A) =
      (range' 5 (max - 6)).find? fun i => buf[i]? == some 0x0D && buf[i + 1]? == some 0x0A := by
    refine find_congr _ fun i hi => ?_
    rw [mem_range'_1] at hi
    rw [getElem?_append_left (by omega), getElem?_append_left (by omega)]
  rw [hsplit, find?_append, hsame, h]
  rfl

/-- A text header that is decided stays so when more bytes come. -/
theorem parseV1_append (h : (parseV1 pton4 pton6 buf).result ≠ .needMore) :
    parseV1 pton4 pton6 (buf ++ more) = parseV1 pton4 pton6 buf := by
  unfold parseV1 at h ⊢
  cases hcrlf : findCrlf buf (min buf.length 107) with
  | some nl =>
    have hbound := findCrlf_bound hcrlf
    have hall : findCrlf (buf ++ more) (min (buf ++ more).length 107) = some nl :=
      findCrlf_append hcrlf (by rw [length_append]; omega) (Nat.min_le_left _ _)
    have htake : (buf ++ more).take nl = buf.take nl := take_append_of_le_length (by omega)
    simp only [hall, htake]
  | none =>
    have hlong : 107 ≤ buf.length := by
      by_contra hshort
      simp only [hcrlf, if_neg hshort] at h
      exact h rfl
    -- the line ends within 107 bytes or never
    have hall : findCrlf (buf ++ more) (min (buf ++ more).length 107) = none := by
      rw [Nat.min_eq_right (by rw [length_append]; omega)]
      rw [Nat.min_eq_right hlong] at hcrlf
      unfold findCrlf at hcrlf ⊢
      rw [find?_eq_none] at hcrlf ⊢
      intro i hi
      have hin := hi
      rw [mem_range'_1] at hin
      rw [getElem?_append_left (by omega), getElem?_append_left (by omega)]
      exact hcrlf i hi
    simp only [hall]
    rw [if_pos hlong, if_pos (by rw [length_append]; omega)]

theorem v2Total_append (h : 16 ≤ buf.length) : v2Total (buf ++ more) = v2Total buf := by
  unfold v2Total
  rw [be16_append (by omega)]

theorem v2Block_append (h16 : 16 ≤ buf.length) (h : v2Total buf ≤ buf.length) :
    v2Block (buf ++ more) = v2Block buf := by
  have hlen : v2Total buf = 16 + be16 buf 14 := rfl
  have hcmd : (buf ++ more).getD 12 0 = buf.getD 12 0 := getD_append (by omega)
  have hfam : (buf ++ more).getD 13 0 = buf.getD 13 0 := getD_append (by omega)
  have hblock : be16 (buf ++ more) 14 = be16 buf 14 := be16_append (by omega)
  have hdrop : (buf ++ more).drop 16 = buf.drop 16 ++ more := drop_append_of_le_length h16
  have hrest : (buf.drop 16).length = buf.length - 16 := length_drop
  unfold v2Block
  simp only [hcmd, hfam, hblock, hdrop, v2Total_append h16]
  split
  · rfl
  split
  · rfl
  split
  · split
    · rfl
    · rw [take_append_of_le_length (by omega), be16_append (by omega)]
  split_ifs
  · rfl
  · rw [take_append_of_le_length (by omega), be16_append (by omega)]
  · rfl

theorem parseV2_append (h16 : 16 ≤ buf.length) (h : (parseV2 buf).result ≠ .needMore) :
    parseV2 (buf ++ more) = parseV2 buf := by
  have hver : (buf ++ more).getD 12 0 = buf.getD 12 0 := getD_append (by omega)
  unfold parseV2 at h ⊢
  rw [hver, v2Total_append h16]
  split
  · rfl
  next hversion =>
  split
  · rfl
  next hmax =>
  rw [if_neg hversion, if_neg hmax] at h
  have hall : ¬ buf.length < v2Total buf := by
    intro hshort
    rw [if_pos hshort] at h
    exact h rfl
  rw [if_neg hall, if_neg (by rw [length_append]; omega)]
  exact v2Block_append h16 (Nat.le_of_not_lt hall)

theorem klProxyParse_append (h : (klProxyParse pton4 pton6 buf).result ≠ .needMore) :
    klProxyParse pton4 pton6 (buf ++ more) = klProxyParse pton4 pton6 buf := by
  unfold klProxyParse at h ⊢
  have hne : buf.length ≠ 0 := by
    intro hzero
    rw [if_pos hzero] at h
    exact h rfl
  have hne' : (buf ++ more).length ≠ 0 := by
    rw [length_append]
    omega
  rw [if_neg hne] at h ⊢
  rw [if_neg hne']
  by_cases hv2 : buf.take 12 = V2SIG.take buf.length
  · rw [if_pos hv2] at h ⊢
    have h16 : ¬ buf.length < 16 := by
      intro hshort
      rw [if_pos hshort] at h
      exact h rfl
    have hv2' : (buf ++ more).take 12 = V2SIG.take (buf ++ more).length :=
      sig_append_of_le rfl hv2 (by omega)
    rw [if_neg h16] at h ⊢
    rw [if_pos hv2', if_neg (by rw [length_append]; omega)]
    exact parseV2_append (Nat.le_of_not_lt h16) h
  have hv2' : (buf ++ more).take 12 ≠ V2SIG.take (buf ++ more).length := sig_append hv2
  rw [if_neg hv2] at h ⊢
  rw [if_neg hv2']
  by_cases hv1 : buf.take 6 = V1SIG.take buf.length
  · rw [if_pos hv1] at h ⊢
    have h6 : ¬ buf.length < 6 := by
      intro hshort
      rw [if_pos hshort] at h
      exact h rfl
    have hv1' : (buf ++ more).take 6 = V1SIG.take (buf ++ more).length :=
      sig_append_of_le rfl hv1 (by omega)
    rw [if_neg h6] at h ⊢
    rw [if_pos hv1', if_neg (by rw [length_append]; omega)]
    exact parseV1_append h
  have hv1' : (buf ++ more).take 6 ≠ V1SIG.take (buf ++ more).length := sig_append hv1
  rw [if_neg hv1, if_neg hv1']

/-! ## Bounds -/

theorem v2Block_consumed :
    (v2Block buf).consumed = some (v2Total buf) ∧ (v2Block buf).result ≠ .needMore := by
  unfold v2Block
  simp only
  split
  · exact ⟨rfl, KlProxyResult.noConfusion⟩
  split
  · exact ⟨rfl, KlProxyResult.noConfusion⟩
  split
  · split
    · exact ⟨rfl, KlProxyResult.noConfusion⟩
    · exact ⟨rfl, KlProxyResult.noConfusion⟩
  split_ifs
  · exact ⟨rfl, KlProxyResult.noConfusion⟩
  · exact ⟨rfl, KlProxyResult.noConfusion⟩
  · exact ⟨rfl, KlProxyResult.noConfusion⟩

/-- A text header is part of the bytes. -/
theorem parseV1_consumed (h : (parseV1 pton4 pton6 buf).consumed = some n) :
    n ≤ buf.length ∧ 0 < n := by
  unfold parseV1 at h
  split at h
  · cases h
  next nl hcrlf =>
  have hbound := findCrlf_bound hcrlf
  split at h
  · cases h
  split at h
  · have heq := Option.some.inj h
    omega
  · have heq := Option.some.inj h
    omega

theorem parseV2_consumed (h : (parseV2 buf).consumed = some n) : n ≤ buf.length ∧ 0 < n := by
  unfold parseV2 at h
  split at h
  · cases h
  split at h
  · cases h
  split at h
  · cases h
  next hall =>
  rw [v2Block_consumed.1] at h
  have heq := Option.some.inj h
  have hlen : v2Total buf = 16 + be16 buf 14 := rfl
  omega

/-- The header is among the bytes given. -/
theorem klProxyParse_consumed (h : (klProxyParse pton4 pton6 buf).consumed = some n) :
    n ≤ buf.length ∧ 0 < n := by
  unfold klProxyParse at h
  split at h
  · cases h
  split at h
  · split at h
    · cases h
    · exact parseV2_consumed h
  split at h
  · split at h
    · cases h
    · exact parseV1_consumed h
  · cases h

/-- A result is there by `KL_PROXY_HEADER_MAX` bytes. -/
theorem klProxyParse_by_max (h : KL_PROXY_HEADER_MAX ≤ buf.length) :
    (klProxyParse pton4 pton6 buf).result ≠ .needMore := by
  have hmax : KL_PROXY_HEADER_MAX = 536 := rfl
  unfold klProxyParse
  rw [if_neg (by omega)]
  split
  · rw [if_neg (by omega)]
    unfold parseV2
    split
    · exact KlProxyResult.noConfusion
    split
    · exact KlProxyResult.noConfusion
    rw [if_neg (by omega)]
    exact v2Block_consumed.2
  split
  · rw [if_neg (by omega)]
    unfold parseV1
    split
    · rw [if_pos (by omega)]
      exact KlProxyResult.noConfusion
    split
    · exact KlProxyResult.noConfusion
    split
    · exact KlProxyResult.noConfusion
    · exact KlProxyResult.noConfusion
  · exact KlProxyResult.noConfusion

end Stable

end Proxy
