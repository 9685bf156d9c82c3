-- SUMMARY: The chunked decoder accepts the grammar of a chunked body.
import Keel.Http.Chunked

/-!
# The grammar of a chunked body

The decoder keeps no record of what it has read. Its fields say what may still follow,
and `Rest` says that in the words of the grammar, one case for each state. The law that
ties `Rest` to one byte of input (`rest_cons`) is proved state by state. What holds of
whole inputs follows from it by the rules for residuals.

The section of trailer lines is capped. The decoder notices that the cap is passed and not
that it will be, so the grammar and `Rest` carry the cap as a parameter.
-/

open List

namespace Chunked

open KlHttp1ChunkedDecoder (hexDigit chunkFieldByte extMax)

def AllHex (hex : List UInt8) : Prop := ∀ b ∈ hex, (hexDigit b).isSome = true

/-- The value of hex digits that follow digits of value `acc`. -/
def hexValue (acc : Nat) (hex : List UInt8) : Nat :=
  hex.foldl (fun a b => a * 16 + (hexDigit b).getD 0) acc

def Field (l : List UInt8) : Prop := ∀ b ∈ l, chunkFieldByte b = true

/-- An optional chunk extension. -/
inductive ChunkExt : List UInt8 → Prop where
  | none : ChunkExt []
  | some {l : List UInt8} : Field l → l.length ≤ extMax → ChunkExt (semicolon :: l)

/-- The line of a chunk of `n` bytes, without its CR LF. -/
structure SizeLine (n : Nat) (hex ext : List UInt8) : Prop where
  digits : AllHex hex
  nonempty : hex ≠ []
  short : hex.length ≤ 16
  value : hexValue 0 hex = n
  fits : n ≤ SIZE_MAX
  ext : ChunkExt ext

/-- Trailer lines and the empty line that ends them. -/
inductive TrailerSection : List UInt8 → Prop where
  | last : TrailerSection [cr, lf]
  | field {l rest : List UInt8} : l ≠ [] → Field l → TrailerSection rest →
      TrailerSection (l ++ cr :: lf :: rest)

/-- The bytes of a chunked body whose trailer section has at most `cap` bytes, and the
concatenation of its chunk data. -/
inductive ChunkedBody (cap : Nat) : List UInt8 → List UInt8 → Prop where
  | last {hex ext trailer : List UInt8} : SizeLine 0 hex ext → TrailerSection trailer →
      trailer.length ≤ cap → ChunkedBody cap (hex ++ (ext ++ cr :: lf :: trailer)) []
  | chunk {hex ext data body payload : List UInt8} : SizeLine data.length hex ext → data ≠ [] →
      ChunkedBody cap body payload →
      ChunkedBody cap (hex ++ (ext ++ cr :: lf :: (data ++ cr :: lf :: body))) (data ++ payload)

/-! ## Bytes -/

theorem hexDigit_cr : hexDigit cr = none := by decide
theorem hexDigit_semicolon : hexDigit semicolon = none := by decide
theorem semicolon_ne_cr : semicolon ≠ cr := by decide

variable {ch : UInt8} {digit : Nat}

theorem hexDigit_lt (h : hexDigit ch = some digit) : digit < 16 := by
  unfold hexDigit at h
  split_ifs at h with h₁ h₂ h₃
  all_goals
    obtain rfl := Option.some.inj h
    simp only [UInt8.le_iff_toNat_le] at *
    simp at *
    omega

theorem hexValue_cons (h : hexDigit ch = some digit) (acc : Nat)
    (hex : List UInt8) : hexValue acc (ch :: hex) = hexValue (acc * 16 + digit) hex := by
  simp [hexValue, h]

/-- Sixteen digits have no value beyond `SIZE_MAX`. -/
theorem hexValue_lt (acc n : Nat) {hex : List UInt8} (hacc : acc < 16 ^ n) (hex_ok : AllHex hex) :
    hexValue acc hex < 16 ^ (n + hex.length) := by
  induction hex generalizing acc n with
  | nil => exact hacc
  | cons b hex ih =>
    obtain ⟨digit, hdigit⟩ := Option.isSome_iff_exists.mp (hex_ok b mem_cons_self)
    have hlt := hexDigit_lt hdigit
    have hnext : acc * 16 + digit < 16 ^ (n + 1) := by
      omega
    have h := ih _ _ hnext fun b hb => hex_ok b (mem_cons_of_mem _ hb)
    rw [hexValue_cons hdigit, length_cons, Nat.add_comm hex.length, ← Nat.add_assoc]
    exact h

variable {l : List UInt8}

theorem TrailerSection.two_le (h : TrailerSection l) : 2 ≤ l.length := by
  cases h with
  | last => exact Nat.le_refl 2
  | field _ _ _ =>
    simp only [length_append, length_cons]
    omega

/-- A trailer section that begins with a CR is the empty line. -/
theorem trailerSection_cr : TrailerSection (cr :: l) ↔ l = [lf] := by
  constructor
  · intro h
    generalize hl : cr :: l = l' at h
    cases h with
    | last => exact (cons.inj hl).2
    | @field f rest hne hf _ =>
      cases f with
      | nil => exact absurd rfl hne
      | cons b f =>
        obtain ⟨rfl, -⟩ := cons.inj hl
        have := hf cr mem_cons_self
        cases this
  · rintro rfl
    exact .last

/-- One that begins with another byte begins with a line. -/
theorem trailerSection_cons (hch : ch ≠ cr) : TrailerSection (ch :: l) ↔ chunkFieldByte ch = true ∧
      ∃ f rest, Field f ∧ l = f ++ cr :: lf :: rest ∧ TrailerSection rest := by
  constructor
  · intro h
    generalize hl : ch :: l = l' at h
    cases h with
    | last => exact absurd (cons.inj hl).1 hch
    | @field f rest hne hf hrest =>
      cases f with
      | nil => exact absurd rfl hne
      | cons b f =>
        obtain ⟨rfl, rfl⟩ := cons.inj hl
        exact ⟨hf ch mem_cons_self, f, rest,
          fun b hb => hf b (mem_cons_of_mem _ hb), rfl, hrest⟩
  · rintro ⟨hfield, f, rest, hf, rfl, hrest⟩
    have hline : Field (ch :: f) := by
      intro b hb
      rcases mem_cons.mp hb with rfl | hb
      · exact hfield
      · exact hf b hb
    exact TrailerSection.field (cons_ne_nil ch f) hline hrest

/-- What follows the line of a chunk of `n` bytes. -/
def AfterLine (cap n : Nat) (l p : List UInt8) : Prop :=
  if n = 0 then TrailerSection l ∧ l.length ≤ cap ∧ p = []
  else ∃ data body payload, data.length = n ∧ l = data ++ cr :: lf :: body ∧
    ChunkedBody cap body payload ∧ p = data ++ payload

/-- A line whose digits go on from `digits` digits of value `acc`, and what follows it. -/
def FromDigits (cap digits acc : Nat) (l p : List UInt8) : Prop :=
  ∃ hex ext rest, AllHex hex ∧ 0 < digits + hex.length ∧ digits + hex.length ≤ 16 ∧
    ChunkExt ext ∧ l = hex ++ (ext ++ cr :: lf :: rest) ∧ AfterLine cap (hexValue acc hex) rest p

theorem chunkedBody_iff {cap : Nat} {p : List UInt8} :
    ChunkedBody cap l p ↔ FromDigits cap 0 0 l p := by
  constructor
  · intro h
    cases h with
    | @last hex ext trailer hline htrailer hcap =>
      refine ⟨hex, ext, trailer, hline.digits, ?_, ?_, hline.ext, rfl, ?_⟩
      · simpa using length_pos_iff.mpr hline.nonempty
      · simpa using hline.short
      · rw [hline.value, AfterLine, if_pos rfl]
        exact ⟨htrailer, hcap, rfl⟩
    | @chunk hex ext data body payload hline hdata hbody =>
      refine ⟨hex, ext, _, hline.digits, ?_, ?_, hline.ext, rfl, ?_⟩
      · simpa using length_pos_iff.mpr hline.nonempty
      · simpa using hline.short
      · rw [hline.value, AfterLine, if_neg (by simpa using hdata)]
        exact ⟨data, body, payload, rfl, rfl, hbody, rfl⟩
  rintro ⟨hex, ext, rest, hhex, hpos, hshort, hext, rfl, hafter⟩
  simp only [Nat.zero_add] at hpos hshort
  have hfits : hexValue 0 hex ≤ SIZE_MAX := by
    have h := hexValue_lt 0 0 (by decide) hhex
    have hpow : (16 : Nat) ^ (0 + hex.length) ≤ 16 ^ 16 :=
      Nat.pow_le_pow_right (by decide) (by omega)
    have hmax : SIZE_MAX = 16 ^ 16 - 1 := by decide
    omega
  have hne : hex ≠ [] := length_pos_iff.mp hpos
  unfold AfterLine at hafter
  split at hafter
  · next hzero =>
    obtain ⟨htrailer, hcap, rfl⟩ := hafter
    exact .last ⟨hhex, hne, hshort, hzero, Nat.zero_le _, hext⟩ htrailer hcap
  · next hnz =>
    obtain ⟨data, body, payload, hlen, rfl, hbody, rfl⟩ := hafter
    refine .chunk ⟨hhex, hne, hshort, hlen.symm, hlen ▸ hfits, hext⟩ ?_ hbody
    rintro rfl
    exact hnz hlen.symm

end Chunked

open Chunked

namespace KlHttp1ChunkedDecoder

/-! ## What may still follow -/

/-- The bytes that complete the body from here, and the chunk data among them. -/
def Rest (k : Nat) (dec : KlHttp1ChunkedDecoder) (l p : List UInt8) : Prop :=
  match dec.state with
  | .size => FromDigits (trailerMax + k) dec.sizeDigits dec.sizeAccum l p
  | .ext => ∃ f rest, Field f ∧ dec.metaLen + f.length ≤ extMax ∧ l = f ++ cr :: lf :: rest ∧
      AfterLine (trailerMax + k) dec.sizeAccum rest p
  | .sizeCr => ∃ rest, l = lf :: rest ∧ AfterLine (trailerMax + k) dec.sizeAccum rest p
  | .data => ∃ data body payload, data.length = dec.chunkRemaining ∧
      l = data ++ cr :: lf :: body ∧ ChunkedBody (trailerMax + k) body payload ∧ p = data ++ payload
  | .dataCr => ∃ body, l = (if dec.trailerCr then [lf] else [cr, lf]) ++ body ∧
      ChunkedBody (trailerMax + k) body p
  | .trailer => p = [] ∧ dec.metaLen + l.length ≤ trailerMax + k ∧
      if dec.trailerCr then TrailerSection l
      else ∃ f rest, Field f ∧ l = f ++ cr :: lf :: rest ∧ TrailerSection rest
  | .trailerCr => p = [] ∧ dec.metaLen + l.length ≤ trailerMax + k ∧
      ∃ rest, l = lf :: rest ∧ if dec.trailerCr then rest = [] else TrailerSection rest
  | .done => l = [] ∧ p = []
  | .error => False

/-- What a run of the decoder keeps. -/
def Valid (dec : KlHttp1ChunkedDecoder) : Prop :=
  match dec.state with
  | .size => dec.sizeDigits ≤ 16 ∧ dec.sizeAccum < 16 ^ dec.sizeDigits
  | .ext => dec.metaLen ≤ extMax
  | .data => dec.chunkRemaining ≠ 0 ∧ dec.sizeDigits = 0 ∧ dec.sizeAccum = 0
  | .dataCr => dec.sizeDigits = 0 ∧ dec.sizeAccum = 0
  | .trailer | .trailerCr => dec.metaLen ≤ trailerMax
  | _ => True

section

variable {dec : KlHttp1ChunkedDecoder} {ch : UInt8} {l p : List UInt8} {k : Nat}

theorem fail_spec {P : Prop} (h : ¬P) : Valid dec.fail ∧ (P ↔ Rest k dec.fail l p) :=
  ⟨trivial, iff_of_false h id⟩

/-- The bound on the accumulator never bites: it takes more than sixteen digits. -/
theorem accum_le (h : dec.sizeAccum < 16 ^ dec.sizeDigits) (hd : dec.sizeDigits < 16) :
    dec.sizeAccum ≤ SIZE_MAX / 16 := by
  have hpow : (16 : Nat) ^ dec.sizeDigits ≤ 16 ^ 15 := Nat.pow_le_pow_right (by decide) (by omega)
  have hmax : SIZE_MAX / 16 = 16 ^ 15 - 1 := by decide
  omega

variable {acc cap digits : Nat}

/-- A digit: the line begins with one. -/
theorem fromDigits_digit {digit : Nat} (hhex : hexDigit ch = some digit) :
    FromDigits cap digits acc (ch :: l) p ↔ digits < 16 ∧
    FromDigits cap (digits + 1) (acc * 16 + digit) l p := by
  constructor
  · rintro ⟨hex, ext, rest, hall, hpos, hle, hext, hl, hafter⟩
    cases hex with
    | nil =>
      cases hext with
      | none => simp [(cons.inj hl).1, hexDigit_cr] at hhex
      | some _ _ => simp [(cons.inj hl).1, hexDigit_semicolon] at hhex
    | cons b hex =>
      obtain ⟨rfl, rfl⟩ := cons.inj hl
      simp only [length_cons] at hpos hle
      rw [hexValue_cons hhex] at hafter
      exact ⟨by omega, hex, ext, rest, fun b hb => hall b (.tail _ hb), by omega, by omega, hext,
        rfl, hafter⟩
  · rintro ⟨hlt, hex, ext, rest, hall, hpos, hle, hext, rfl, hafter⟩
    rw [← hexValue_cons hhex] at hafter
    have hall' : AllHex (ch :: hex) := forall_mem_cons.mpr ⟨by simp [hhex], hall⟩
    refine ⟨ch :: hex, ext, rest, hall', ?_, ?_, hext, rfl,
      hafter⟩ <;> simp only [length_cons] <;> omega

/-- The end of the digits: the line begins with its extension or its CR. -/
theorem fromDigits_end (hhex : hexDigit ch = none) :
    FromDigits cap digits acc (ch :: l) p ↔ 0 < digits ∧ digits ≤ 16 ∧
      ((ch = semicolon ∧ ∃ f rest, Field f ∧ f.length ≤ extMax ∧ l = f ++ cr :: lf :: rest ∧
        AfterLine cap acc rest p) ∨
        (ch = cr ∧ ∃ rest, l = lf :: rest ∧ AfterLine cap acc rest p)) := by
  have hnil : AllHex [] := fun b hb => absurd hb not_mem_nil
  constructor
  · rintro ⟨hex, ext, rest, hall, hpos, hle, hext, hl, hafter⟩
    cases hex with
    | cons b hex =>
      have := hall b mem_cons_self
      simp [← (cons.inj hl).1, hhex] at this
    | nil =>
      refine ⟨hpos, hle, ?_⟩
      cases hext with
      | none => exact .inr ⟨(cons.inj hl).1, rest, (cons.inj hl).2, hafter⟩
      | some hf hlen => exact .inl ⟨(cons.inj hl).1, _, rest, hf, hlen, (cons.inj hl).2, hafter⟩
  · rintro ⟨hpos, hle, ⟨rfl, f, rest, hf, hlen, rfl, hafter⟩ | ⟨rfl, rest, rfl, hafter⟩⟩
    · exact ⟨[], semicolon :: f, rest, hnil, hpos, hle, .some hf hlen, rfl, hafter⟩
    · exact ⟨[], [], rest, hnil, hpos, hle, .none, rfl, hafter⟩

theorem onSize_spec (hs : dec.state = .size) (hv : Valid dec) :
    Valid (dec.onSize ch) ∧ (Rest k dec (ch :: l) p ↔ Rest k (dec.onSize ch) l p) := by
  simp only [Valid, hs] at hv
  obtain ⟨hdigits, hacc⟩ := hv
  have hrest : Rest k dec (ch :: l) p ↔
      FromDigits (trailerMax + k) dec.sizeDigits dec.sizeAccum (ch :: l) p := by
    simp only [Rest, hs]
  rw [hrest]
  unfold onSize
  cases hhex : hexDigit ch with
  | some digit =>
    rw [fromDigits_digit hhex]
    simp only
    by_cases hfull : 16 ≤ dec.sizeDigits
    · rw [if_pos hfull]
      exact fail_spec fun h => by omega
    rw [if_neg hfull, if_neg (Nat.not_lt.mpr (accum_le hacc (by omega)))]
    have hlt := hexDigit_lt hhex
    constructor
    · simp only [Valid, hs, Nat.pow_succ]
      omega
    · simp only [Rest, hs]
      exact ⟨fun h => h.2, fun h => ⟨by omega, h⟩⟩
  | none =>
    rw [fromDigits_end hhex]
    simp only
    split
    · next hsemi =>
      split
      · next hzero => exact fail_spec fun h => by omega
      next hzero =>
      have hpos : 0 < dec.sizeDigits := Nat.pos_of_ne_zero hzero
      refine ⟨Nat.zero_le _, ?_⟩
      simp [Rest, hsemi, semicolon_ne_cr, hpos, hdigits]
    rename_i hsemi
    split
    · next hcr =>
      split
      · next hzero => exact fail_spec fun h => by omega
      next hzero =>
      have hpos : 0 < dec.sizeDigits := Nat.pos_of_ne_zero hzero
      refine ⟨trivial, ?_⟩
      simp [Rest, hcr, semicolon_ne_cr.symm, hpos, hdigits]
    · next hcr => exact fail_spec (by simp [hsemi, hcr])

theorem Field.cons {f : List UInt8} (hch : chunkFieldByte ch = true) (hf : Field f) :
    Field (ch :: f) :=
  forall_mem_cons.mpr ⟨hch, hf⟩

/-- A line of field bytes and its CR LF, byte by byte. -/
theorem line_cons (P : Nat → Prop) (Q : List UInt8 → Prop) :
    (∃ f rest, Field f ∧ P f.length ∧ ch :: l = f ++ cr :: lf :: rest ∧ Q rest) ↔
      (ch = cr ∧ P 0 ∧ ∃ rest, l = lf :: rest ∧ Q rest) ∨
      (ch ≠ cr ∧ chunkFieldByte ch = true ∧
        ∃ f rest, Field f ∧ P (f.length + 1) ∧ l = f ++ cr :: lf :: rest ∧ Q rest) := by
  constructor
  · rintro ⟨f, rest, hf, hlen, hl, hrest⟩
    cases f with
    | nil =>
      obtain ⟨rfl, rfl⟩ := cons.inj hl
      exact .inl ⟨rfl, hlen, rest, rfl, hrest⟩
    | cons b f =>
      obtain ⟨rfl, rfl⟩ := cons.inj hl
      have hb := hf ch mem_cons_self
      refine .inr ⟨?_, hb, f, rest, fun b hb => hf b (mem_cons_of_mem _ hb), hlen, rfl, hrest⟩
      rintro rfl
      cases hb
  · rintro (⟨rfl, hlen, rest, rfl, hrest⟩ | ⟨hne, hb, f, rest, hf, hlen, rfl, hrest⟩)
    · exact ⟨[], rest, fun b hb => absurd hb not_mem_nil, hlen, rfl, hrest⟩
    · exact ⟨ch :: f, rest, Field.cons hb hf, hlen, rfl, hrest⟩

theorem onExt_spec (hs : dec.state = .ext) (hv : Valid dec) :
    Valid (dec.onExt ch) ∧ (Rest k dec (ch :: l) p ↔ Rest k (dec.onExt ch) l p) := by
  simp only [Valid, hs] at hv
  have hrest :=
    @line_cons ch l (fun n => dec.metaLen + n ≤ extMax)
    (AfterLine (trailerMax + k) dec.sizeAccum · p)
  rw [show Rest k dec (ch :: l) p ↔ _ by simp only [Rest, hs]; exact hrest]
  unfold onExt
  split
  · next hcr =>
    refine ⟨trivial, ?_⟩
    simp [Rest, hcr, hv]
  rename_i hcr
  split
  · next hfield => exact fail_spec (by simp_all)
  rename_i hfield
  simp only
  split
  · next hfull =>
    refine fail_spec ?_
    rintro (⟨h, -⟩ | ⟨-, -, f, rest, -, hlen, -⟩)
    · exact hcr h
    · omega
  rename_i hfull
  refine ⟨by simpa only [Valid, hs] using Nat.not_lt.mp hfull, ?_⟩
  have hb : chunkFieldByte ch = true := by simpa using hfield
  simp [Rest, hs, hcr, hb, Nat.add_assoc, Nat.add_comm 1]

theorem onSizeCr_spec (hs : dec.state = .sizeCr) :
    Valid (dec.onSizeCr ch) ∧ (Rest k dec (ch :: l) p ↔ Rest k (dec.onSizeCr ch) l p) := by
  have hrest : Rest k dec (ch :: l) p ↔ ch = lf ∧ AfterLine (trailerMax + k) dec.sizeAccum l p := by
    simp only [Rest, hs]
    constructor
    · rintro ⟨rest, hl, hafter⟩
      obtain ⟨rfl, rfl⟩ := cons.inj hl
      exact ⟨rfl, hafter⟩
    · rintro ⟨rfl, hafter⟩
      exact ⟨l, rfl, hafter⟩
  rw [hrest]
  unfold onSizeCr
  split
  · next hlf => exact fail_spec fun h => hlf h.1
  next hlf =>
  have hlf : ch = lf := not_not.mp hlf
  simp only [hlf, true_and, AfterLine]
  split
  · next hzero =>
    refine ⟨Nat.zero_le _, ?_⟩
    simp only [Rest, Nat.zero_add, if_true]
    exact ⟨fun ⟨ht, hcap, hp⟩ => ⟨hp, hcap, ht⟩, fun ⟨hp, hcap, ht⟩ => ⟨ht, hcap, hp⟩⟩
  · next hnz => exact ⟨⟨hnz, rfl, rfl⟩, Iff.rfl⟩

/-- A body that begins afresh. -/
theorem rest_size (dec : KlHttp1ChunkedDecoder) (hs : dec.state = .size) (hd : dec.sizeDigits = 0)
    (ha : dec.sizeAccum = 0) : Rest k dec l p ↔ ChunkedBody (trailerMax + k) l p := by
  simp only [Rest, hs, hd, ha, chunkedBody_iff]

theorem onDataCr_spec (hs : dec.state = .dataCr) (hv : Valid dec) :
    Valid (dec.onDataCr ch) ∧ (Rest k dec (ch :: l) p ↔ Rest k (dec.onDataCr ch) l p) := by
  simp only [Valid, hs] at hv
  obtain ⟨hd, ha⟩ := hv
  unfold onDataCr
  cases hcr : dec.trailerCr with
  | true =>
    have hrest : Rest k dec (ch :: l) p ↔ ch = lf ∧ ChunkedBody (trailerMax + k) l p := by
      simp [Rest, hs, hcr]
    rw [hrest, if_pos rfl]
    split
    · next hlf => exact fail_spec fun h => hlf h.1
    next hlf =>
    refine ⟨by simp [Valid, hd, ha], ?_⟩
    rw [rest_size { dec with state := .size, trailerCr := false } rfl hd ha]
    exact and_iff_right (not_not.mp hlf)
  | false =>
    rw [if_neg Bool.false_ne_true]
    split
    · next hch =>
      refine ⟨by simp [Valid, hs, hd, ha], ?_⟩
      simp [Rest, hs, hcr, hch]
    · next hch =>
      refine fail_spec ?_
      simp only [Rest, hs, hcr]
      rintro ⟨body, hl, -⟩
      exact hch (cons.inj hl).1

theorem data_spec (hs : dec.state = .data) (hv : Valid dec) : Valid (dec.forwarded 1) ∧
      (Rest k dec (ch :: l) p ↔ ∃ p', p = ch :: p' ∧ Rest k (dec.forwarded 1) l p') := by
  simp only [Valid, hs] at hv
  obtain ⟨hpos, hd, ha⟩ := hv
  have hrest : Rest k dec (ch :: l) p ↔ ∃ data body payload,
      data.length = dec.chunkRemaining - 1 ∧ l = data ++ cr :: lf :: body ∧
      ChunkedBody (trailerMax + k) body payload ∧ p = ch :: (data ++ payload) := by
    simp only [Rest, hs]
    constructor
    · rintro ⟨data, body, payload, hlen, hl, hbody, rfl⟩
      cases data with
      | nil => exact absurd hlen.symm hpos
      | cons b data =>
        obtain ⟨rfl, rfl⟩ := cons.inj hl
        refine ⟨data, body, payload, ?_, rfl, hbody, rfl⟩
        simp only [length_cons] at hlen
        omega
    · rintro ⟨data, body, payload, hlen, rfl, hbody, rfl⟩
      refine ⟨ch :: data, body, payload, ?_, rfl, hbody, rfl⟩
      simp only [length_cons]
      omega
  rw [hrest]
  simp only [forwarded]
  split
  · next hend =>
    refine ⟨by simp [Valid, hd, ha], ?_⟩
    simp only [Rest, hend, length_eq_zero_iff]
    constructor
    · rintro ⟨data, body, payload, rfl, rfl, hbody, rfl⟩
      exact ⟨payload, rfl, body, rfl, hbody⟩
    · rintro ⟨p', rfl, body, rfl, hbody⟩
      exact ⟨[], body, p', rfl, rfl, hbody, rfl⟩
  · next hend =>
    refine ⟨by simp only [Valid, hs]; exact ⟨hend, hd, ha⟩, ?_⟩
    simp only [Rest, hs]
    constructor
    · rintro ⟨data, body, payload, hlen, rfl, hbody, rfl⟩
      exact ⟨_, rfl, data, body, payload, hlen, rfl, hbody, rfl⟩
    · rintro ⟨p', rfl, data, body, payload, hlen, rfl, hbody, rfl⟩
      exact ⟨data, body, payload, hlen, rfl, hbody, rfl⟩

/-- The cap is passed at this byte: too few bytes follow to make up for it. -/
theorem over_cap (hk : k ≤ l.length) (hfull : trailerMax < dec.metaLen + 1)
    (hcap : dec.metaLen + (ch :: l).length ≤ trailerMax + k) : False := by
  simp only [length_cons] at hcap
  omega

theorem onTrailer_spec (hs : dec.state = .trailer) (hk : k ≤ l.length) :
    Valid (dec.onTrailer ch) ∧ (Rest k dec (ch :: l) p ↔ Rest k (dec.onTrailer ch) l p) := by
  simp only [onTrailer]
  split
  · next hfull =>
    refine fail_spec ?_
    simp only [Rest, hs]
    rintro ⟨-, hcap, -⟩
    exact over_cap hk hfull hcap
  rename_i hroom
  have hroom := Nat.not_lt.mp hroom
  have hlen : dec.metaLen + (ch :: l).length = dec.metaLen + 1 + l.length := by
    simp only [length_cons]
    omega
  -- the rest of a line in which something was read
  have hline := @line_cons ch l (fun _ => True) TrailerSection
  simp only [true_and] at hline
  split
  · next hcr =>
    refine ⟨hroom, ?_⟩
    subst hcr
    simp only [Rest, hs, hlen, hline, trailerSection_cr]
    cases dec.trailerCr <;> simp
  rename_i hcr
  split
  · next hfield =>
    have hb : chunkFieldByte ch = false := by simpa using hfield
    refine fail_spec ?_
    simp only [Rest, hs, hline, trailerSection_cons hcr, hb]
    rintro ⟨-, -, h⟩
    split at h <;> simp_all
  · next hfield =>
    have hb : chunkFieldByte ch = true := by simpa using hfield
    refine ⟨by simpa only [Valid, hs] using hroom, ?_⟩
    simp only [Rest, hs, hlen, hline, trailerSection_cons hcr, hb]
    cases dec.trailerCr <;> simp [hcr]

theorem onTrailerCr_spec (hs : dec.state = .trailerCr) (hk : k ≤ l.length) :
    Valid (dec.onTrailerCr ch) ∧ (Rest k dec (ch :: l) p ↔ Rest k (dec.onTrailerCr ch) l p) := by
  unfold onTrailerCr
  split
  · next hlf =>
    refine fail_spec ?_
    simp only [Rest, hs]
    rintro ⟨-, -, rest, hl, -⟩
    exact hlf (cons.inj hl).1
  rename_i hlf
  obtain rfl : ch = lf := not_not.mp hlf
  have hlen : dec.metaLen + (lf :: l).length = dec.metaLen + 1 + l.length := by
    simp only [length_cons]
    omega
  simp only
  split
  · next hfull =>
    refine fail_spec ?_
    simp only [Rest, hs]
    rintro ⟨-, hcap, -⟩
    exact over_cap hk hfull hcap
  rename_i hroom
  have hroom := Nat.not_lt.mp hroom
  cases hcr : dec.trailerCr with
  | true =>
    refine ⟨trivial, ?_⟩
    simp only [Rest, hs, hcr, hlen, if_true]
    constructor
    · rintro ⟨rfl, -, rest, hl, rfl⟩
      exact ⟨(cons.inj hl).2, rfl⟩
    · rintro ⟨rfl, rfl⟩
      exact ⟨rfl, Nat.le_add_right_of_le hroom, [], rfl, rfl⟩
  | false =>
    refine ⟨hroom, ?_⟩
    simp only [Rest, hs, hcr, hlen, Bool.false_eq_true, if_false, if_true]
    constructor
    · rintro ⟨rfl, hcap, rest, hl, ht⟩
      obtain ⟨-, rfl⟩ := cons.inj hl
      exact ⟨rfl, hcap, ht⟩
    · rintro ⟨rfl, hcap, ht⟩
      exact ⟨rfl, hcap, l, rfl, ht⟩

/-- One byte takes what may follow to what may follow after it. -/
theorem rest_cons (hv : Valid dec) (hk : k ≤ l.length) :
    Valid (dec.step ch) ∧ (Rest k dec (ch :: l) p ↔
      dec.state ≠ .done ∧ ∃ p', p = dec.out ch ++ p' ∧ Rest k (dec.step ch) l p') := by
  -- a state in which nothing is handed to the reader
  have hsilent {st : _} {d : KlHttp1ChunkedDecoder} (hs : dec.state = st) (hd : dec.step ch = d)
      (hst : st ≠ .data ∧ st ≠ .done) (h : Valid d ∧ (Rest k dec (ch :: l) p ↔ Rest k d l p)) :
      Valid (dec.step ch) ∧ (Rest k dec (ch :: l) p ↔
        st ≠ .done ∧ ∃ p', p = dec.out ch ++ p' ∧ Rest k (dec.step ch) l p') := by
    rw [hd, out_of_ne (hs ▸ hst.1)]
    refine ⟨h.1, h.2.trans ⟨fun hr => ⟨hst.2, p, rfl, hr⟩, ?_⟩⟩
    rintro ⟨-, p', rfl, hr⟩
    exact hr
  cases hs : dec.state with
  | size => exact hsilent hs (by simp [step, hs]) (by decide) (onSize_spec hs hv)
  | ext => exact hsilent hs (by simp [step, hs]) (by decide) (onExt_spec hs hv)
  | sizeCr => exact hsilent hs (by simp [step, hs]) (by decide) (onSizeCr_spec hs)
  | data =>
    have hpos : dec.chunkRemaining ≠ 0 := by
      simp only [Valid, hs] at hv
      exact hv.1
    have hstep : dec.step ch = dec.forwarded 1 := by simp [step, hs, hpos]
    have hout : dec.out ch = [ch] := by simp [out, hs, hpos]
    obtain ⟨hvalid, hiff⟩ : Valid (dec.forwarded 1) ∧ (Rest k dec (ch :: l) p ↔
        ∃ p', p = ch :: p' ∧ Rest k (dec.forwarded 1) l p') := data_spec hs hv
    rw [hstep, hout]
    refine ⟨hvalid, hiff.trans ⟨fun h => ⟨by simp, h⟩, fun h => h.2⟩⟩
  | dataCr => exact hsilent hs (by simp [step, hs]) (by decide) (onDataCr_spec hs hv)
  | trailer => exact hsilent hs (by simp [step, hs]) (by decide) (onTrailer_spec hs hk)
  | trailerCr => exact hsilent hs (by simp [step, hs]) (by decide) (onTrailerCr_spec hs hk)
  | done =>
    refine ⟨by simp [step, hs, Valid], ?_, fun h => absurd rfl h.1⟩
    simp [Rest, hs]
  | error =>
    refine ⟨by simp [step, hs, Valid], ?_, ?_⟩
    · simp [Rest, hs]
    · rintro ⟨-, p', -, h⟩
      simp [step, hs, Rest] at h

end

theorem residuals (k : Nat) :
    Transducer.Residuals automaton k Valid (fun dec => dec.state = .done) (Rest k) where
  valid ch hv := (rest_cons (l := []) (p := []) hv (Nat.le_refl 0)).1
  absorbing := absorbing_done
  nil {dec p} := by
    cases hs : dec.state with
    | size =>
      simp only [Rest, hs, FromDigits, reduceCtorEq, false_and, iff_false]
      rintro ⟨hex, ext, rest, -, -, -, -, hl, -⟩
      simp at hl
    | trailer =>
      simp only [Rest, hs, reduceCtorEq, false_and, iff_false]
      rintro ⟨-, -, h⟩
      split at h
      · exact absurd h.two_le (by simp)
      · simp at h
    | dataCr =>
      simp only [Rest, hs, reduceCtorEq, false_and, iff_false]
      rintro ⟨body, hl, -⟩
      split at hl <;> simp at hl
    | _ => simp [Rest, hs]
  cons hv hk := (rest_cons hv hk).2

/-! ## Whole inputs -/

theorem valid_init : Valid {} := by
  simp [Valid]

variable {p payload : List UInt8}

theorem rest_init {k : Nat} {l : List UInt8} : Rest k {} l p ↔ ChunkedBody (trailerMax + k) l p :=
  rest_size {} rfl rfl rfl

/-- Every byte of chunk data is counted. -/
theorem totalBody_run (dec : KlHttp1ChunkedDecoder) (data : List UInt8) :
    (automaton.run dec data).totalBody = dec.totalBody + (automaton.output dec data).length := by
  induction data generalizing dec with
  | nil => rfl
  | cons ch data ih =>
    have hone : (dec.step ch).totalBody = dec.totalBody + (dec.out ch).length := by
      cases hs : dec.state with
      | data =>
        by_cases hrem : dec.chunkRemaining = 0
        · simp only [step, hs, out, hrem]
          simp [onDataCr, fail, apply_ite totalBody]
        · simp [step, hs, out, hrem, forwarded, apply_ite totalBody]
      | size =>
        rw [out_of_ne (by simp [hs])]
        simp only [step, hs, onSize]
        split
        · simp [fail, apply_ite totalBody]
        · simp [fail, apply_ite totalBody]
      | _ =>
        rw [out_of_ne (by simp [hs])]
        simp [step, hs, onExt, onSizeCr, onDataCr, onTrailer, onTrailerCr, fail,
          apply_ite totalBody]
    rw [Transducer.run_cons, Transducer.output_cons, ih, automaton_step, automaton_out, hone,
      length_append, Nat.add_assoc]

/-! ### Every state but ERROR can be completed -/

theorem chunkedBody_empty (k : Nat) : ChunkedBody (trailerMax + k) [0x30, cr, lf, cr, lf] [] := by
  have hline : SizeLine 0 [0x30] [] :=
    { digits := forall_mem_singleton.mpr (by decide), nonempty := by simp, short := by decide
      value := by decide, fits := Nat.zero_le _, ext := .none }
  have hcap : [cr, lf].length ≤ trailerMax + k := by
    simp only [length_cons, length_nil, trailerMax]
    omega
  exact .last hline .last hcap

theorem afterLine_exists (n : Nat) : ∃ l p, ∀ k, AfterLine (trailerMax + k) n l p := by
  by_cases hn : n = 0
  · refine ⟨[cr, lf], [], fun k => ?_⟩
    rw [AfterLine, if_pos hn]
    refine ⟨.last, ?_, rfl⟩
    simp only [length_cons, length_nil, trailerMax]
    omega
  · refine ⟨replicate n 0 ++ cr :: lf :: [0x30, cr, lf, cr, lf], replicate n 0 ++ [],
      fun k => ?_⟩
    rw [AfterLine, if_neg hn]
    exact ⟨_, _, _, length_replicate, rfl, chunkedBody_empty k, rfl⟩

variable {dec : KlHttp1ChunkedDecoder}

/-- Bytes that complete the body, none of them counted toward the cap. -/
theorem rest_exists (hv : Valid dec) (hlive : dec.state ≠ .error) :
    ∃ l p, Rest l.length dec l p := by
  obtain ⟨after, p, hafter⟩ := afterLine_exists dec.sizeAccum
  have hnone : Field [] := fun b hb => absurd hb not_mem_nil
  cases hs : dec.state with
  | size =>
    simp only [Valid, hs] at hv
    obtain ⟨hdigits, hacc⟩ := hv
    simp only [Rest, hs]
    by_cases hzero : dec.sizeDigits = 0
    · have haccum : dec.sizeAccum = 0 := by
        rw [hzero, Nat.pow_zero] at hacc
        omega
      refine ⟨[0x30, cr, lf, cr, lf], [], ?_⟩
      rw [hzero, haccum, ← chunkedBody_iff]
      exact chunkedBody_empty _
    · refine ⟨cr :: lf :: after, p, [], [], after, fun b hb => absurd hb not_mem_nil, ?_,
        hdigits, .none, rfl, hafter _⟩
      omega
  | ext =>
    simp only [Valid, hs] at hv
    simp only [Rest, hs]
    exact ⟨cr :: lf :: after, p, [], after, hnone, hv, rfl, hafter _⟩
  | sizeCr =>
    simp only [Rest, hs]
    exact ⟨lf :: after, p, after, rfl, hafter _⟩
  | data =>
    simp only [Rest, hs]
    exact ⟨_, _, replicate dec.chunkRemaining 0, _, _, length_replicate, rfl,
      chunkedBody_empty _, rfl⟩
  | dataCr =>
    simp only [Rest, hs]
    exact ⟨_, _, _, rfl, chunkedBody_empty _⟩
  | trailer =>
    simp only [Valid, hs] at hv
    simp only [Rest, hs]
    cases dec.trailerCr with
    | true => exact ⟨[cr, lf], [], rfl, Nat.add_le_add_right hv _, .last⟩
    | false =>
      exact ⟨[cr, lf, cr, lf], [], rfl, Nat.add_le_add_right hv _, [], [cr, lf], hnone, rfl, .last⟩
  | trailerCr =>
    simp only [Valid, hs] at hv
    simp only [Rest, hs]
    cases dec.trailerCr with
    | true => exact ⟨[lf], [], rfl, Nat.add_le_add_right hv _, [], rfl, rfl⟩
    | false => exact ⟨[lf, cr, lf], [], rfl, Nat.add_le_add_right hv _, [cr, lf], rfl, .last⟩
  | done =>
    simp only [Rest, hs]
    exact ⟨[], [], rfl, rfl⟩
  | error => exact absurd hs hlive

/-! ### What the decoder answers -/

/-- The decoder still wants input after any shorter part of `p`. -/
def Unfinished (p : List UInt8) : Prop :=
  ∀ q payload, q <+: p → q ≠ p → ¬ ChunkedBody trailerMax q payload

theorem unfinished_iff : Unfinished p ↔
    ∀ q, q <+: p → q ≠ p → (automaton.run {} q).state ≠ .done := by
  constructor
  · intro h q hq hne hdone
    obtain ⟨q', payload, hq', hrest⟩ := ((residuals 0).accepts_iff valid_init q).mp hdone
    refine h q' payload (hq'.trans hq) ?_ (rest_init.mp hrest)
    rintro rfl
    exact hne (hq.eq_of_length_le hq'.length_le)
  · intro h q payload hq hne hbody
    exact h q hq hne ((residuals 0).sound valid_init (rest_init.mpr hbody)).1

/-- What follows an unfinished input. -/
theorem chunkedBody_append {ext : List UInt8} {k : Nat} (hp : Unfinished p) (hk : k ≤ ext.length) :
    ChunkedBody (trailerMax + k) (p ++ ext) payload ↔
      ∃ payload', payload = automaton.output {} p ++ payload' ∧
        Rest k (automaton.run {} p) ext payload' := by
  rw [← rest_init]
  exact (residuals k).append valid_init (unfinished_iff.mp hp) hk

theorem done_iff (data : List UInt8) : (automaton.run {} data).state = .done ↔
    ∃ body payload, body <+: data ∧ ChunkedBody trailerMax body payload := by
  rw [(residuals 0).accepts_iff valid_init data]
  constructor
  · rintro ⟨body, payload, hpre, hrest⟩
    exact ⟨body, payload, hpre, rest_init.mp hrest⟩
  · rintro ⟨body, payload, hpre, hbody⟩
    exact ⟨body, payload, hpre, rest_init.mpr hbody⟩

theorem output_of_body {data body : List UInt8} (hpre : body <+: data)
    (hbody : ChunkedBody trailerMax body payload) : automaton.output {} data = payload := by
  obtain ⟨rest, rfl⟩ := hpre
  obtain ⟨hdone, hout, -⟩ := (residuals 0).sound valid_init (rest_init.mpr hbody)
  rw [Transducer.output_append, (absorbing_done hdone).output, append_nil, ← hout]

/-- The decoder is in ERROR once nothing that follows some part of the input it has read
can complete the body. -/
theorem error_iff (data : List UInt8) : (automaton.run {} data).state = .error ↔
    ∃ p, p <+: data ∧ Unfinished p ∧
      ∀ ext payload, ¬ ChunkedBody (trailerMax + ext.length) (p ++ ext) payload := by
  constructor
  · intro he
    have hopen : Unfinished data := by
      rw [unfinished_iff]
      rintro q ⟨r, rfl⟩ - hdone
      rw [Transducer.run_append, (absorbing_done hdone).run, hdone] at he
      cases he
    refine ⟨data, prefix_rfl, hopen, fun ext payload hbody => ?_⟩
    obtain ⟨payload', -, hrest⟩ := (chunkedBody_append hopen (Nat.le_refl _)).mp hbody
    simp only [Rest, he] at hrest
  · rintro ⟨p, ⟨r, rfl⟩, hopen, hnone⟩
    have he : (automaton.run {} p).state = .error := by
      by_contra hlive
      obtain ⟨ext, payload, hrest⟩ := rest_exists ((residuals 0).valid_run valid_init p) hlive
      exact hnone ext _ ((chunkedBody_append hopen (Nat.le_refl _)).mpr ⟨payload, rfl, hrest⟩)
    rw [Transducer.run_append, (absorbing_error he).run]
    exact he

theorem reachable_totalBody (dec : KlHttp1ChunkedDecoder) :
    dec.reachable.totalBody = dec.totalBody := by
  unfold reachable
  split <;> rfl

variable {σ : Type}

/-- The decoder answers 1 exactly if some part at the front of the input is a chunked
body, whose chunk data it then has delivered and counted. It answers -1 exactly if some
part that it read has no extension that is one, where the bytes of the extension do not
count toward the cap on the trailer section. -/
theorem decode_accepts_grammar (f : σ → List UInt8 → σ) (s : σ) (data : List UInt8) :
    let out := decode (.accepting f) {} s data
    (out.rc = 1 ↔ ∃ body payload, body <+: data ∧ ChunkedBody trailerMax body payload) ∧
    (∀ body payload, body <+: data → ChunkedBody trailerMax body payload →
      out.given = payload ∧ out.dec.totalBody = payload.length) ∧
    (out.rc = -1 ↔ ∃ p, p <+: data ∧ Unfinished p ∧
      ∀ ext payload, ¬ ChunkedBody (trailerMax + ext.length) (p ++ ext) payload) := by
  intro out
  have hfollows : Follows {} data out := decode_accepting f s data (by decide)
  refine ⟨?_, ?_, ?_⟩
  · rw [hfollows.rc, verdict_eq_one, done_iff]
  · intro body payload hpre hbody
    have houtput := output_of_body hpre hbody
    refine ⟨hfollows.given.trans houtput, ?_⟩
    rw [← reachable_totalBody, hfollows.state, reachable_totalBody, totalBody_run, houtput,
      Nat.zero_add]
  · rw [hfollows.rc, verdict_eq_neg_one, error_iff]

/-! ### The cap on the trailer section -/

theorem run_trailer_line (f : List UInt8) (dec : KlHttp1ChunkedDecoder) (hs : dec.state = .trailer)
    (hf : Field f) (hne : f ≠ []) (hroom : dec.metaLen + f.length ≤ trailerMax) :
    automaton.run dec f = { dec with metaLen := dec.metaLen + f.length, trailerCr := false } := by
  induction f generalizing dec with
  | nil => exact absurd rfl hne
  | cons ch f ih =>
    have hb := hf ch mem_cons_self
    have hcr : ch ≠ cr := by
      rintro rfl
      cases hb
    simp only [length_cons] at hroom
    have hstep : dec.step ch = { dec with metaLen := dec.metaLen + 1, trailerCr := false } := by
      simp only [step, hs, onTrailer]
      rw [if_neg (by omega), if_neg hcr, if_neg (by simp [hb])]
    rw [Transducer.run_cons, automaton_step, hstep]
    cases f with
    | nil => rfl
    | cons b f =>
      have hrest : Field (b :: f) := fun b hb => hf b (mem_cons_of_mem _ hb)
      have hroom' : dec.metaLen + 1 + (b :: f).length ≤ trailerMax := by omega
      rw [ih { dec with metaLen := dec.metaLen + 1, trailerCr := false } hs hrest
        (cons_ne_nil b f) hroom']
      simp only [length_cons, Nat.add_assoc, Nat.add_comm 1]

/-- Two bytes below the cap, inside a trailer line, the decoder waits for more input,
although the four bytes that the shortest ending takes would pass the cap. -/
theorem trailer_cap_noticed_late :
    ∃ data, (decode (.accepting fun (s : Unit) _ => s) {} () data).rc = 0 ∧ Unfinished data ∧
      ∀ ext payload, ¬ ChunkedBody trailerMax (data ++ ext) payload := by
  -- the number stays a variable, so that nothing unfolds the list
  obtain ⟨n, hn⟩ : ∃ n, n = 8190 := ⟨_, rfl⟩
  have hfield : Field (replicate n 0x61) := by
    intro b hb
    rw [eq_of_mem_replicate hb]
    decide
  have hrun : automaton.run {} ([0x30, cr, lf] ++ replicate n 0x61) =
      { state := .trailer, metaLen := n } := by
    have hline : automaton.run {} [0x30, cr, lf] = { state := .trailer, trailerCr := true } := by
      decide
    have hlong := run_trailer_line (replicate n 0x61) (automaton.run {} [0x30, cr, lf])
      (by rw [hline]) hfield (by rw [Ne, replicate_eq_nil_iff, hn]; decide)
      (by rw [hline, length_replicate, hn]; decide)
    rw [Transducer.run_append, hlong, hline, length_replicate, Nat.zero_add]
  have hopen : Unfinished ([0x30, cr, lf] ++ replicate n 0x61) := by
    rw [unfinished_iff]
    rintro q ⟨r, hr⟩ - hdone
    rw [← hr, Transducer.run_append, (absorbing_done hdone).run] at hrun
    rw [hrun] at hdone
    cases hdone
  refine ⟨_, ?_, hopen, fun ext payload hbody => ?_⟩
  · rw [(decode_accepting _ _ _ (by decide)).rc, hrun]
    rfl
  · obtain ⟨payload', -, hrest⟩ := (chunkedBody_append hopen (Nat.zero_le _)).mp hbody
    rw [hrun] at hrest
    obtain ⟨-, hcap, f, rest, -, rfl, hsection⟩ := hrest
    have htwo := hsection.two_le
    simp only [length_append, length_cons, trailerMax, hn] at hcap
    omega

end KlHttp1ChunkedDecoder
