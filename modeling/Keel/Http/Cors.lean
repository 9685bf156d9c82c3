-- SUMMARY: The CORS allowlist (src/protocols/http/http_cors.c).
import Mathlib.Data.List.DropRight
import Keel.Message.Framing

/-!
# CORS origins

`kl_http_cors_parse_origins` walks a comma-separated list and stores each entry in a slot of fixed
size. What does not fit in a slot is cut off without a word.
-/

open Message List

def KL_HTTP_CORS_MAX_ORIGINS : Nat := 16
def KL_HTTP_CORS_ORIGIN_SIZE : Nat := 256

/-- The origins of a configuration; their number is `origin_count`. -/
structure KlHttpCorsConfig where
  allowedOrigins : List (List UInt8) := []
deriving DecidableEq, Repr

namespace KlHttpCorsConfig

variable (config : KlHttpCorsConfig)

/-- `kl_http_cors_add_origin`. -/
def addOrigin (origin : List UInt8) : KlHttpCorsConfig × Bool :=
  if origin = [] then (config, false)
  else if KL_HTTP_CORS_MAX_ORIGINS ≤ config.allowedOrigins.length then (config, false)
  else (⟨config.allowedOrigins ++ [origin.take (KL_HTTP_CORS_ORIGIN_SIZE - 1)]⟩, true)

def isBlank (b : UInt8) : Bool := b = 32 || b = 9
def isComma (b : UInt8) : Bool := b = 44

/-- The loop of `kl_http_cors_parse_origins`, from `p` on. -/
def parseFrom (config : KlHttpCorsConfig) (added : Nat) (p : List UInt8) : KlHttpCorsConfig × Nat :=
  let start := p.dropWhile isBlank
  if start = [] then (config, added)
  else
    let entry := (start.takeWhile (!isComma ·)).rdropWhile isBlank
    let (config, ok) :=
      if entry ≠ [] then config.addOrigin (entry.take (KL_HTTP_CORS_ORIGIN_SIZE - 1))
      else (config, false)
    config.parseFrom (if ok then added + 1 else added) (start.dropWhile (!isComma ·)).tail
termination_by p.length
decreasing_by
  have hstart := (List.dropWhile_suffix (l := p) isBlank).length_le
  have hrest := (List.dropWhile_suffix (l := p.dropWhile isBlank) (!isComma ·)).length_le
  have hpos := List.length_pos_iff.mpr ‹¬start = []›
  grind

variable (origins : List UInt8)

/-- `kl_http_cors_parse_origins`. -/
def parseOrigins : KlHttpCorsConfig × Nat := config.parseFrom 0 origins

/-- `kl_http_cors_is_allowed`. -/
def isAllowed (origin : List UInt8) : Bool :=
  if origin = [] then false
  else if config.allowedOrigins = [] then true
  else config.allowedOrigins.any (· == origin)

/-! ## The entries of a list -/

def trim (piece : List UInt8) : List UInt8 := (piece.dropWhile isBlank).rdropWhile isBlank

/-- The pieces between the commas, trimmed, without those that are blank. -/
def entries : List (List UInt8) :=
  ((origins.splitOnP isComma).map trim).filter (· ≠ [])

/-- The entries that the table has room for. -/
def counted : List (List UInt8) :=
  (entries origins).take (KL_HTTP_CORS_MAX_ORIGINS - config.allowedOrigins.length)

/-- Blanks before an entry stand in its piece. -/
theorem dropWhile_isBlank (p : List UInt8) :
    (p.dropWhile isBlank).takeWhile (!isComma ·) = (p.takeWhile (!isComma ·)).dropWhile isBlank ∧
    (p.dropWhile isBlank).dropWhile (!isComma ·) = p.dropWhile (!isComma ·) := by
  induction p with
  | nil => exact ⟨rfl, rfl⟩
  | cons b p ih =>
    cases hb : isBlank b with
    | true =>
      have hcomma : isComma b = false := by grind [isBlank, isComma]
      simpa [dropWhile_cons, takeWhile_cons, hb, hcomma] using ih
    | false => cases hc : isComma b <;> simp [hb, hc]

/-- The entry of the first round of the loop, and the entries of what it leaves. -/
theorem entries_eq (p : List UInt8) :
    entries p =
      [((p.dropWhile isBlank).takeWhile (!isComma ·)).rdropWhile isBlank].filter (· ≠ []) ++
      entries ((p.dropWhile isBlank).dropWhile (!isComma ·)).tail := by
  obtain ⟨hpiece, hrest⟩ := dropWhile_isBlank p
  have hfree : ∀ b ∈ p.takeWhile (!isComma ·), isComma b = false := fun b hb => by
    simpa using mem_takeWhile_imp hb
  have hsplit := takeWhile_append_dropWhile (p := (!isComma ·)) (l := p)
  have hhead := head?_dropWhile_not (!isComma ·) p
  rw [hpiece, hrest]
  cases hcut : p.dropWhile (!isComma ·) with
  | nil =>
    rw [hcut, append_nil] at hsplit
    rw [hsplit] at hfree ⊢
    simp [entries, trim, splitOnP_eq_singleton hfree]
  | cons c rest =>
    rw [hcut] at hhead hsplit
    have hcomma : isComma c = true := by simpa using hhead
    conv_lhs => rw [← hsplit]
    rw [entries, splitOnP_append_cons_of_forall_mem hfree c hcomma, map_cons, ← singleton_append,
      filter_append]
    rfl

theorem parseFrom_spec (added : Nat) (p : List UInt8) : config.parseFrom added p =
      (⟨config.allowedOrigins ++ (config.counted p).map (·.take (KL_HTTP_CORS_ORIGIN_SIZE - 1))⟩,
        added + (config.counted p).length) := by
  fun_induction parseFrom with
  | case1 config added p start hend =>
    have hnone : entries p = [] := by
      rw [entries_eq, show p.dropWhile isBlank = [] from hend]
      rfl
    simp [counted, hnone]
  | case2 config added p start hgo entry config' ok hadd ih =>
    simp only [dite_eq_ite] at ih hadd
    have hes : entries p = [entry].filter (· ≠ []) ++ entries (start.dropWhile (!isComma ·)).tail :=
      entries_eq p
    rw [ih, counted, counted, hes]
    generalize entries (start.dropWhile (!isComma ·)).tail = es
    by_cases hentry : entry = []
    · obtain ⟨rfl, rfl⟩ : config = config' ∧ false = ok := by simpa [hentry] using hadd
      simp [hentry]
    have hcut : entry.take (KL_HTTP_CORS_ORIGIN_SIZE - 1) ≠ [] := by simp [hentry,
      KL_HTTP_CORS_ORIGIN_SIZE]
    rw [if_pos hentry, addOrigin, if_neg hcut] at hadd
    split at hadd
    · next hfull =>
      obtain ⟨rfl, rfl⟩ : config = config' ∧ false = ok := by simpa using hadd
      simp [Nat.sub_eq_zero_of_le hfull]
    · next hroom =>
      obtain ⟨rfl, rfl⟩ : _ = config' ∧ true = ok := by simpa using hadd
      have hsub : KL_HTTP_CORS_MAX_ORIGINS - config.allowedOrigins.length =
          KL_HTTP_CORS_MAX_ORIGINS - (config.allowedOrigins.length + 1) + 1 := by omega
      simp [hsub, hentry, take_take, Nat.add_assoc, Nat.add_comm 1]

/-- Once an origin was added, the stored ones are allowed and no other. -/
theorem isAllowed_iff (hadd : 0 < (parseOrigins {} origins).2) (origin : List UInt8) :
    (parseOrigins {} origins).1.isAllowed origin = true ↔
      ∃ e ∈ counted {} origins, e.take (KL_HTTP_CORS_ORIGIN_SIZE - 1) = origin := by
  rw [parseOrigins, parseFrom_spec] at hadd ⊢
  have hsome : counted {} origins ≠ [] := length_pos_iff.mp (by simpa using hadd)
  have hfilled : ∀ e ∈ counted {} origins, e ≠ [] := fun e he =>
    of_decide_eq_true (mem_filter.mp (mem_of_mem_take he)).2
  rw [isAllowed]
  split
  · next hnil =>
    refine ⟨nofun, fun ⟨e, he, hcut⟩ => absurd (hcut.trans hnil) ?_⟩
    simp [hfilled e he, KL_HTTP_CORS_ORIGIN_SIZE]
  · simp [hsome]

/-- Every counted entry is added. An origin is allowed exactly when it is one of them if, and only
if, each of them fits in a slot. -/
theorem origins_exact {origins : List UInt8} (hadd : 0 < (parseOrigins {} origins).2) :
    (parseOrigins {} origins).2 = (counted {} origins).length ∧
    ((∀ origin, (parseOrigins {} origins).1.isAllowed origin = true ↔ origin ∈ counted {} origins) ↔
      ∀ e ∈ counted {} origins, e.length < KL_HTTP_CORS_ORIGIN_SIZE) := by
  refine ⟨?_, fun hexact e he => ?_, fun hfit origin => ?_⟩
  · rw [parseOrigins, parseFrom_spec]
    exact Nat.zero_add _
  · -- what is stored is shorter than a slot
    obtain ⟨stored, -, rfl⟩ := (isAllowed_iff origins hadd e).mp ((hexact e).mpr he)
    rw [length_take]
    exact Nat.lt_of_le_of_lt (Nat.min_le_left _ _) (by decide)
  · have hwhole : ∀ e ∈ counted {} origins, e.take (KL_HTTP_CORS_ORIGIN_SIZE - 1) = e :=
      fun e he => take_of_length_le (Nat.le_pred_of_lt (hfit e he))
    rw [isAllowed_iff origins hadd]
    constructor
    · rintro ⟨e, he, rfl⟩
      exact (hwhole e he).symm ▸ he
    · exact fun ho => ⟨origin, ho, hwhole origin ho⟩

theorem origins_exact_two : let origins := ascii " https://a.example,,\thttps://b.example "
    (parseOrigins {} origins).1.isAllowed (ascii "https://b.example") = true ∧
      (parseOrigins {} origins).1.isAllowed (ascii "https://b.exampl") = false := by
  intro origins
  have hadd : 0 < (parseOrigins {} origins).2 := by
    rw [parseOrigins, parseFrom_spec]
    decide +kernel
  have hexact := (origins_exact hadd).2.mpr (by decide +kernel)
  refine ⟨(hexact _).mpr (by decide +kernel), Bool.eq_false_iff.mpr fun h => ?_⟩
  exact absurd ((hexact _).mp h) (by decide +kernel)

/-- An entry of 256 bytes is counted, but it is its first 255 that are allowed. -/
theorem long_origin_cut : let origins := replicate 256 97
    (parseOrigins {} origins).2 = 1 ∧ counted {} origins = [origins] ∧
      (parseOrigins {} origins).1.isAllowed origins = false ∧
      (parseOrigins {} origins).1.isAllowed (replicate 255 97) = true := by
  intro origins
  rw [parseOrigins, parseFrom_spec]
  decide +kernel

end KlHttpCorsConfig
