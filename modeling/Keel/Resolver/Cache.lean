-- SUMMARY: The table of the caching resolver over every history.
import Keel.Limits
import Keel.Table.Slots
import Mathlib.Algebra.Ring.Nat

/-!
# The cache of resolved names

A flat table of entries for (host, port). A lookup frees the entry it finds when it has
expired. An insert updates the entry of its key, else fills a free slot, else overwrites an
expired entry, else the one closest to expiry.
-/

open Slots List

structure KlResCacheEntry (ρ : Type) where
  /-- The bytes before the terminating zero. -/
  host : List UInt8 := []
  port : Int := 0
  result : ρ
  deadlineMs : Nat := 0
  occupied : Bool := false
deriving DecidableEq, Repr

/-- `capacity` is the length of `entries`. -/
structure KlResolverCache (ρ : Type) where
  entries : List (KlResCacheEntry ρ)
  count : Nat := 0
  ttlMs : Nat
deriving DecidableEq, Repr

structure KlResolverCacheConfig where
  ttlMs : Nat := 0
  capacity : Int := 0
deriving DecidableEq, Repr

def KL_RESCACHE_DEFAULT_TTL_MS : Nat := 60000
def KL_RESCACHE_DEFAULT_CAPACITY : Int := 64
def KL_RESOLVER_CACHE_HOSTNAME_MAX : Nat := 256

/-- `now + ttl` in 64 bits, or never. -/
def cacheDeadline (ttlMs now : Nat) : Nat :=
  if UINT64_MAX / 2 < ttlMs then UINT64_MAX else (now + ttlMs) % (UINT64_MAX + 1)

namespace KlResCacheEntry

variable {ρ : Type}

/-- The test of both scans for a key. -/
def holds (host : List UInt8) (port : Int) (e : KlResCacheEntry ρ) : Bool :=
  e.occupied && (e.port == port && e.host == host)

/-- What is written to an entry that changes hands. -/
def fill (host : List UInt8) (port : Int) (result : ρ) (deadlineMs : Nat) (e : KlResCacheEntry ρ) :
    KlResCacheEntry ρ :=
  { e with host, port, result, deadlineMs }

def key (e : KlResCacheEntry ρ) : List UInt8 × Int := (e.host, e.port)

/-- An entry answers for the name and port it was stored with. -/
theorem holds_iff {host : List UInt8} {port : Int} {e : KlResCacheEntry ρ} :
    e.holds host port = true ↔ e.occupied = true ∧ e.key = (host, port) := by
  simp [holds, key, and_comm]

end KlResCacheEntry

namespace KlResolverCache

variable {ρ : Type} (cfg : Option KlResolverCacheConfig)

def create [Inhabited ρ] : KlResolverCache ρ :=
  let cfg := cfg.getD {}
  let capacity := if 0 < cfg.capacity then cfg.capacity else KL_RESCACHE_DEFAULT_CAPACITY
  let ttlMs := if 0 < cfg.ttlMs then cfg.ttlMs else KL_RESCACHE_DEFAULT_TTL_MS
  { entries := List.replicate capacity.toNat { result := default }, ttlMs }

variable (c : KlResolverCache ρ)

def capacity : Nat := c.entries.length

def cacheLookup (now : Nat) (host : List UInt8) (port : Int) : KlResolverCache ρ × Option ρ :=
  match c.entries.findIdx? (·.holds host port) with
  | none => (c, none)
  | some i =>
    match c.entries[i]? with
    | none => (c, none)
    | some e =>
      if now < e.deadlineMs then (c, some e.result)
      else ({ c with entries := c.entries.set i { e with occupied := false },
                     count := c.count - 1 }, none)

/-- Write to the entry at `i`. -/
def write (i : Nat) (f : KlResCacheEntry ρ → KlResCacheEntry ρ) : KlResolverCache ρ :=
  match c.entries[i]? with
  | none => c
  | some e => { c with entries := c.entries.set i (f e) }

/-- The entry closest to expiry. -/
def victim (entries : List (KlResCacheEntry ρ)) : Option Nat :=
  match entries with
  | [] => none
  | e :: es => scanMin (fun _ => true) (·.deadlineMs) es 1 (some 0) e.deadlineMs

def cacheInsert (now : Nat) (host : List UInt8) (port : Int) (result : ρ) : KlResolverCache ρ :=
  if KL_RESOLVER_CACHE_HOSTNAME_MAX ≤ host.length then c
  else
    let deadline := cacheDeadline c.ttlMs now
    match c.entries.findIdx? (·.holds host port) with
    | some i => c.write i fun e => { e with result, deadlineMs := deadline }
    | none =>
      match c.entries.findIdx? (!·.occupied) with
      | some i => { c.write i fun e =>
        { e.fill host port result deadline with occupied := true } with count := c.count + 1 }
      | none =>
        match c.entries.findIdx? (·.deadlineMs ≤ now) with
        | some i => c.write i (·.fill host port result deadline)
        | none =>
          match victim c.entries with
          | some i => c.write i (·.fill host port result deadline)
          | none => c

def clear : KlResolverCache ρ :=
  { c with entries := c.entries.map ({ · with occupied := false }), count := 0 }

inductive CacheOp (ρ : Type) where
  | insert (host : List UInt8) (port : Int) (result : ρ)
  | lookup (host : List UInt8) (port : Int)
  | clear
deriving DecidableEq, Repr

/-- One operation at the time `now`. -/
def step (now : Nat) : CacheOp ρ → KlResolverCache ρ
  | .insert host port result => c.cacheInsert now host port result
  | .lookup host port => (c.cacheLookup now host port).1
  | .clear => c.clear

/-- A history, the latest operation first. -/
def run [Inhabited ρ] (cfg : Option KlResolverCacheConfig) :
    List (Nat × CacheOp ρ) → KlResolverCache ρ
  | [] => create cfg
  | (now, op) :: earlier => (run cfg earlier).step now op

/-- The latest insert for a key since the last clear, with its time. -/
def latest (host : List UInt8) (port : Int) : List (Nat × CacheOp ρ) → Option (Nat × ρ)
  | [] => none
  | (now, .insert h p result) :: earlier =>
    if h = host ∧ p = port then some (now, result) else latest host port earlier
  | (_, .lookup _ _) :: earlier => latest host port earlier
  | (_, .clear) :: _ => none

/-! ## What an operation does to the table -/

/-- One entry is written. -/
structure Writes (c : KlResolverCache ρ) (i : Nat) (old new : KlResCacheEntry ρ)
    (c' : KlResolverCache ρ) : Prop where
  old : c.entries[i]? = some old
  entries : c'.entries = c.entries.set i new
  ttl : c'.ttlMs = c.ttlMs

/-- How an insert found its slot. -/
inductive Inserted (c : KlResolverCache ρ) (host : List UInt8) (port : Int) (new c') : Prop where
  | updated (i : Nat) (old : KlResCacheEntry ρ) (hw : Writes c i old new c')
      (hold : old.holds host port = true)
      (hcount : c'.count = c.count)
  | filled (i : Nat) (old : KlResCacheEntry ρ) (hw : Writes c i old new c')
      (hold : old.occupied = false)
      (hnew : ∀ (j : Nat) e, c.entries[j]? = some e → e.holds host port = false)
        (hcount : c'.count = c.count + 1)
  | evicted (i : Nat) (old : KlResCacheEntry ρ) (hw : Writes c i old new c')
      (hfull : ∀ (j : Nat) e, c.entries[j]? = some e → e.occupied = true)
      (hnew : ∀ (j : Nat) e, c.entries[j]? = some e → e.holds host port = false)
        (hcount : c'.count = c.count)

/-- The entry that an insert leaves. -/
def entryOf (now : Nat) (host : List UInt8) (port : Int) (result : ρ) : KlResCacheEntry ρ :=
  { host, port, result, deadlineMs := cacheDeadline c.ttlMs now, occupied := true }

variable {c : KlResolverCache ρ} {now : Nat} {host : List UInt8} {port : Int} {result : ρ}

/-- An insert writes one entry. -/
theorem Inserted.writes {new : KlResCacheEntry ρ} {c' : KlResolverCache ρ}
    (h : Inserted c host port new c') : ∃ i old, Writes c i old new c' := by
  cases h with
  | updated i old hw => exact ⟨i, old, hw⟩
  | filled i old hw => exact ⟨i, old, hw⟩
  | evicted i old hw => exact ⟨i, old, hw⟩

theorem writes_of_write {i : Nat} {old new : KlResCacheEntry ρ}
    (f : KlResCacheEntry ρ → KlResCacheEntry ρ)
    (h : c.entries[i]? = some old) (hnew : f old = new) : Writes c i old new (c.write i f) := by
  unfold write
  rw [h]
  exact ⟨h, congrArg _ hnew, rfl⟩

theorem count_write (c : KlResolverCache ρ) (i : Nat) (f : KlResCacheEntry ρ → KlResCacheEntry ρ) :
    (c.write i f).count = c.count := by
  unfold write
  split <;> rfl

/-- There is always an entry to evict. -/
theorem victim_spec {entries : List (KlResCacheEntry ρ)} (h : entries ≠ []) :
    ∃ i e, victim entries = some i ∧ entries[i]? = some e := by
  cases entries with
  | nil => exact absurd rfl h
  | cons e es =>
    rcases scanMin_spec (fun _ => true) (·.deadlineMs) es 1 (some 0) e.deadlineMs with
      hsame | ⟨j, a, hj, ha, -⟩
    · exact ⟨0, e, hsame, rfl⟩
    · refine ⟨1 + j, a, hj, ?_⟩
      rw [Nat.add_comm]
      exact ha

/-- Which entry an insert writes. -/
theorem cacheInsert_spec (now : Nat) (port : Int) (result : ρ)
    (hlen : host.length < KL_RESOLVER_CACHE_HOSTNAME_MAX) (hcap : 0 < c.capacity) :
    Inserted c host port (c.entryOf now host port result) (c.cacheInsert now host port result) := by
  unfold cacheInsert
  rw [if_neg (Nat.not_le.mpr hlen)]
  split
  · next i hi =>
    obtain ⟨old, hold, hp⟩ := exists_of_findIdx? hi
    obtain ⟨hocc, hkey⟩ := KlResCacheEntry.holds_iff.mp hp
    have hnew : { old with result, deadlineMs := cacheDeadline c.ttlMs now } =
        c.entryOf now host port result := by
      obtain ⟨hhost, hport⟩ := Prod.mk.inj hkey
      obtain ⟨h, p, r, d, o⟩ := old
      cases hhost
      cases hport
      cases hocc
      rfl
    exact .updated i old (writes_of_write _ hold hnew) hp (count_write _ _ _)
  rename_i hnone
  have hnew : ∀ (j : Nat) e, c.entries[j]? = some e → e.holds host port = false :=
    fun j e he => forall_of_findIdx? hnone he
  split
  · next i hi =>
    obtain ⟨old, hold, hp⟩ := exists_of_findIdx? hi
    have hw := writes_of_write
      (fun e => { e.fill host port result (cacheDeadline c.ttlMs now) with occupied := true }) hold
        rfl
    exact .filled i old ⟨hold, hw.entries, hw.ttl⟩ (by simpa using hp) hnew rfl
  rename_i hfull
  have hocc : ∀ (j : Nat) e, c.entries[j]? = some e → e.occupied = true :=
    fun j e he => by simpa using forall_of_findIdx? hfull he
  -- either way an occupied entry is overwritten
  have hover : ∀ (i : Nat) old, c.entries[i]? = some old →
      Inserted c host port (c.entryOf now host port result)
        (c.write i (·.fill host port result (cacheDeadline c.ttlMs now))) := by
    intro i old hold
    have heq : old.fill host port result (cacheDeadline c.ttlMs now) =
        c.entryOf now host port result := by
      have := hocc i old hold
      obtain ⟨h, p, r, d, o⟩ := old
      cases this
      rfl
    exact .evicted i old (writes_of_write _ hold heq) hocc hnew (count_write _ _ _)
  split
  · next i hi =>
    obtain ⟨old, hold, -⟩ := exists_of_findIdx? hi
    exact hover i old hold
  · obtain ⟨i, old, hi, hold⟩ := victim_spec (ne_nil_of_length_pos hcap)
    rw [hi]
    exact hover i old hold

/-- What a lookup finds. -/
inductive Found (c : KlResolverCache ρ) (now : Nat) (host : List UInt8) (port : Int) :
    KlResolverCache ρ → Option ρ → Prop where
  | absent : Found c now host port c none
  | hit (i : Nat) (e : KlResCacheEntry ρ) (he : c.entries[i]? = some e)
      (hkey : e.holds host port = true)
      (hfresh : now < e.deadlineMs) : Found c now host port c (some e.result)
  | expired (i : Nat) (e : KlResCacheEntry ρ) (c' : KlResolverCache ρ)
      (hw : Writes c i e { e with occupied := false } c')
      (hocc : e.occupied = true) (hcount : c'.count = c.count - 1) : Found c now host port c' none

/-- What a lookup finds, and what it drops. -/
theorem cacheLookup_spec (c : KlResolverCache ρ) (now : Nat) (host : List UInt8) (port : Int) :
    Found c now host port (c.cacheLookup now host port).1 (c.cacheLookup now host port).2 := by
  unfold cacheLookup
  split
  · exact .absent
  next i hi =>
  obtain ⟨e, he, hp⟩ := exists_of_findIdx? hi
  rw [he]
  simp only
  split
  · next hfresh => exact .hit i e he hp hfresh
  · exact .expired i e _ ⟨he, rfl, rfl⟩ (KlResCacheEntry.holds_iff.mp hp).1 rfl

/-! ## Histories -/

abbrev CacheHistory (ρ : Type) := List (Nat × CacheOp ρ)

/-- The entry holds the latest result inserted for its key. -/
def Current (ttlMs : Nat) (hist : CacheHistory ρ) (e : KlResCacheEntry ρ) : Prop :=
  ∃ now, latest e.host e.port hist = some (now, e.result) ∧ e.deadlineMs = cacheDeadline ttlMs now

structure Inv (capacity ttlMs : Nat) (hist : CacheHistory ρ) (c : KlResolverCache ρ) : Prop where
  capacity : c.capacity = capacity
  ttl : c.ttlMs = ttlMs
  unique : Unique (·.occupied) (·.key) c.entries
  count : c.count = c.entries.countP (·.occupied)
  current : ∀ (i : Nat) e, c.entries[i]? = some e → e.occupied = true → Current ttlMs hist e
  fits : ∀ (i : Nat) e, c.entries[i]? = some e → e.host.length < KL_RESOLVER_CACHE_HOSTNAME_MAX

variable {capacity ttlMs : Nat} {hist : CacheHistory ρ} {c' : KlResolverCache ρ}

/-- Another key's entry is current after an insert. -/
theorem Current.insert {e : KlResCacheEntry ρ} (h : Current ttlMs hist e)
    (hkey : e.key ≠ (host, port)) : Current ttlMs ((now, .insert host port result) :: hist) e := by
  obtain ⟨t, hlatest, hdead⟩ := h
  refine ⟨t, ?_, hdead⟩
  unfold latest
  rw [if_neg fun heq => hkey (Prod.ext heq.1.symm heq.2.symm)]
  exact hlatest

section

variable (h : Inv capacity ttlMs hist c)
include h

/-- An insert is what the history says last of its name. -/
theorem Inv.insert (hlen : host.length < KL_RESOLVER_CACHE_HOSTNAME_MAX)
    (hi : Inserted c host port (c.entryOf now host port result) c') :
    Inv capacity ttlMs ((now, .insert host port result) :: hist) c' := by
  -- a write that leaves no other entry with the key
  have hwrite : ∀ (i : Nat) old, Writes c i old (c.entryOf now host port result) c' →
      (∀ (j : Nat) e, j ≠ i → c.entries[j]? = some e → e.occupied = true → e.key ≠ (host, port)) →
      c'.count = c'.entries.countP (·.occupied) →
      Inv capacity ttlMs ((now, .insert host port result) :: hist) c' := by
    intro i old hw hothers hcount
    refine ⟨?_, hw.ttl.trans h.ttl, ?_, hcount, ?_, ?_⟩
    · rw [KlResolverCache.capacity, hw.entries, length_set]
      exact h.capacity
    · rw [hw.entries]
      exact h.unique.set fun _ => hothers
    · intro j e he hocc
      rw [hw.entries] at he
      rcases getElem?_set_cases he with ⟨-, rfl⟩ | ⟨hj, he⟩
      · exact ⟨now, if_pos ⟨rfl, rfl⟩, by rw [entryOf, h.ttl]⟩
      · exact (h.current j e he hocc).insert (hothers j e hj he hocc)
    · intro j e he
      rw [hw.entries] at he
      rcases getElem?_set_cases he with ⟨-, rfl⟩ | ⟨-, he⟩
      · exact hlen
      · exact h.fits j e he
  cases hi with
  | updated i old hw hold hcount =>
    obtain ⟨hocc, hkey⟩ := KlResCacheEntry.holds_iff.mp hold
    refine hwrite i old hw (fun j e hj he hoe heq => hj ?_) ?_
    · exact h.unique j i e old he hw.old hoe hocc (heq.trans hkey.symm)
    · rw [hcount, hw.entries, h.count]
      exact (countP_keep hw.old hocc.symm).symm
  | filled i old hw hold hnew hcount =>
    refine hwrite i old hw (fun j e _ he hoe heq => ?_) ?_
    · exact absurd (KlResCacheEntry.holds_iff.mpr ⟨hoe, heq⟩)
        (by rw [hnew j e he]; exact Bool.false_ne_true)
    · rw [hcount, hw.entries, h.count]
      exact (countP_fill hw.old hold rfl).symm
  | evicted i old hw hfull hnew hcount =>
    refine hwrite i old hw (fun j e _ he hoe heq => ?_) ?_
    · exact absurd (KlResCacheEntry.holds_iff.mpr ⟨hoe, heq⟩)
        (by rw [hnew j e he]; exact Bool.false_ne_true)
    · rw [hcount, hw.entries, h.count]
      exact (countP_keep hw.old (hfull i old hw.old).symm).symm

/-- A lookup drops one entry at most. -/
theorem Inv.lookup {r : Option ρ} (hf : Found c now host port c' r) :
    Inv capacity ttlMs ((now, .lookup host port) :: hist) c' := by
  cases hf with
  | absent => exact ⟨h.capacity, h.ttl, h.unique, h.count, h.current, h.fits⟩
  | hit => exact ⟨h.capacity, h.ttl, h.unique, h.count, h.current, h.fits⟩
  | expired i e _ hw hocc hcount =>
    refine ⟨?_, hw.ttl.trans h.ttl, ?_, ?_, ?_, ?_⟩
    · rw [KlResolverCache.capacity, hw.entries, length_set]
      exact h.capacity
    · rw [hw.entries]
      exact h.unique.set fun hfree => absurd hfree Bool.false_ne_true
    · have hfree : (c.entries.set i { e with occupied := false }).countP (·.occupied) + 1 =
          c.entries.countP (·.occupied) := countP_free hw.old hocc rfl
      rw [hcount, hw.entries, h.count, ← hfree]
      exact Nat.add_sub_cancel _ _
    · intro j e' he' hocc'
      rw [hw.entries] at he'
      rcases getElem?_set_cases he' with ⟨-, rfl⟩ | ⟨-, he'⟩
      · exact absurd hocc' Bool.false_ne_true
      · exact h.current j e' he' hocc'
    · intro j e' he'
      rw [hw.entries] at he'
      rcases getElem?_set_cases he' with ⟨-, rfl⟩ | ⟨-, he'⟩
      · exact h.fits i e hw.old
      · exact h.fits j e' he'

/-- Nothing survives a clear. -/
theorem Inv.clear : Inv capacity ttlMs ((now, .clear) :: hist) c.clear := by
  have hfree : ∀ (j : Nat) e, c.clear.entries[j]? = some e → ∃ e', c.entries[j]? = some e' ∧
      e = { e' with occupied := false } := by
    intro j e he
    obtain ⟨e', he', heq⟩ := Option.map_eq_some_iff.mp (getElem?_map.symm.trans he)
    exact ⟨e', he', heq.symm⟩
  have hnone : ∀ (j : Nat) e, c.clear.entries[j]? = some e → e.occupied ≠ true := by
    intro j e he
    obtain ⟨e', -, rfl⟩ := hfree j e he
    exact Bool.false_ne_true
  refine ⟨?_, h.ttl, ?_, ?_, ?_, ?_⟩
  · exact (length_map _).trans h.capacity
  · exact fun i j a b ha _ hocc => absurd hocc (hnone i a ha)
  · refine (countP_eq_zero.mpr fun e he => ?_).symm
    obtain ⟨j, hj⟩ := getElem?_of_mem he
    exact hnone j e hj
  · exact fun i e he hocc => absurd hocc (hnone i e he)
  · intro j e he
    obtain ⟨e', he', rfl⟩ := hfree j e he
    exact h.fits j e' he'

theorem Inv.step (hcap : 0 < capacity) (now : Nat) (op : CacheOp ρ) :
    Inv capacity ttlMs ((now, op) :: hist) (c.step now op) := by
  cases op with
  | insert host port result =>
    by_cases hlen : host.length < KL_RESOLVER_CACHE_HOSTNAME_MAX
    · exact h.insert hlen (cacheInsert_spec now port result hlen (h.capacity ▸ hcap))
    -- a host that does not fit is not stored
    have hsame : c.step now (.insert host port result) = c := if_pos (Nat.le_of_not_lt hlen)
    rw [hsame]
    refine ⟨h.capacity, h.ttl, h.unique, h.count, fun i e he hocc => ?_, h.fits⟩
    refine (h.current i e he hocc).insert fun hkey => hlen ?_
    obtain ⟨rfl, -⟩ := Prod.mk.inj hkey
    exact h.fits i e he
  | lookup host port => exact h.lookup (cacheLookup_spec c now host port)
  | clear => exact h.clear

end

theorem Inv.create [Inhabited ρ] :
    Inv (create cfg : KlResolverCache ρ).capacity (create cfg : KlResolverCache ρ).ttlMs []
    (create cfg : KlResolverCache ρ) := by
  have hfree : ∀ (i : Nat) e, (KlResolverCache.create cfg : KlResolverCache ρ).entries[i]? =
      some e → e = { result := default } :=
    fun i e he => eq_of_mem_replicate (mem_of_getElem? he)
  refine ⟨rfl, rfl, ?_, ?_, ?_, ?_⟩
  · intro i j a b ha _ hocc
    rw [hfree i a ha] at hocc
    exact absurd hocc Bool.false_ne_true
  · refine (countP_eq_zero.mpr fun e he => ?_).symm
    rw [eq_of_mem_replicate he]
    exact Bool.false_ne_true
  · intro i e he hocc
    rw [hfree i e he] at hocc
    exact absurd hocc Bool.false_ne_true
  · intro i e he
    rw [hfree i e he]
    exact Nat.zero_lt_succ _

/-- A cache has room for one entry at least. -/
theorem capacity_pos [Inhabited ρ] : 0 < (create cfg : KlResolverCache ρ).capacity := by
  unfold KlResolverCache.capacity create
  simp only [length_replicate]
  split
  · omega
  · decide

theorem inv_run [Inhabited ρ] (hist : CacheHistory ρ) :
    Inv (create cfg : KlResolverCache ρ).capacity (create cfg : KlResolverCache ρ).ttlMs hist
    (run cfg hist) := by
  induction hist with
  | nil => exact .create cfg
  | cons x earlier ih => exact ih.step (capacity_pos cfg) x.1 x.2

/-- The time at which a result inserted at `now` expires. A time to live of more than half the range
of the clock lasts to its end. -/
def expiry (ttlMs now : Nat) : Nat := if UINT64_MAX / 2 < ttlMs then UINT64_MAX else now + ttlMs

/-- No entry outlives its time. -/
theorem cacheDeadline_le (ttlMs now : Nat) : cacheDeadline ttlMs now ≤ expiry ttlMs now := by
  unfold cacheDeadline expiry
  split
  · exact Nat.le_refl _
  · exact Nat.mod_le _ _

/-- An entry lasts its whole time, unless the sum wraps. -/
theorem cacheDeadline_eq {ttlMs now : Nat} (h : now + ttlMs ≤ UINT64_MAX ∨ UINT64_MAX / 2 < ttlMs) :
    cacheDeadline ttlMs now = expiry ttlMs now := by
  unfold cacheDeadline expiry
  split
  · rfl
  · next hle => exact Nat.mod_eq_of_lt (Nat.lt_succ_of_le (h.resolve_right hle))

/-- A lookup finds what was just inserted for its key, until that expires. -/
theorem lookup_inserted [Inhabited ρ] (hist : CacheHistory ρ)
    (hlen : host.length < KL_RESOLVER_CACHE_HOSTNAME_MAX) (t now : Nat) :
    (((run cfg hist).cacheInsert t host port result).cacheLookup now host port).2 =
      if now < cacheDeadline (run cfg hist).ttlMs t then some result else none := by
  have hbefore := inv_run cfg hist
  have h : Inv _ _ _ ((run cfg hist).cacheInsert t host port result) :=
    inv_run cfg ((t, .insert host port result) :: hist)
  unfold cacheLookup
  split
  · next hnone =>
    -- the entry that was written holds the key
    obtain ⟨i, old, hw⟩ :=
      (cacheInsert_spec t port result hlen (hbefore.capacity ▸ capacity_pos cfg)).writes
    have hin : ((run cfg hist).cacheInsert t host port result).entries[i]? =
        some ((run cfg hist).entryOf t host port result) := by
      rw [hw.entries, getElem?_set_self (List.getElem?_eq_some_iff.mp hw.old).1]
    have hheld := forall_of_findIdx? hnone hin
    simp [KlResCacheEntry.holds, entryOf] at hheld
  · next i hi =>
    obtain ⟨e, he, hp⟩ := exists_of_findIdx? hi
    obtain ⟨hocc, hkey⟩ := KlResCacheEntry.holds_iff.mp hp
    obtain ⟨t', hlatest, hdead⟩ := h.current i e he hocc
    obtain ⟨rfl, rfl⟩ := Prod.mk.inj hkey
    rw [latest, if_pos ⟨rfl, rfl⟩] at hlatest
    obtain ⟨rfl, rfl⟩ := Prod.mk.inj (Option.some.inj hlatest)
    rw [he, hbefore.ttl, ← hdead]
    simp only
    split <;> rfl

/-- After every history: one entry for each key, a count that is right, lookups that return the
latest result until it expires and that find what was just inserted, and inserts into a full table
that overwrite one entry. -/
theorem cache_store [Inhabited ρ] (cfg : Option KlResolverCacheConfig) (hist : CacheHistory ρ) :
    let c := run cfg hist
    Unique (·.occupied) (·.key) c.entries ∧
      (c.count = c.entries.countP (·.occupied) ∧ c.count ≤ c.capacity ∧
        c.capacity = (create cfg : KlResolverCache ρ).capacity) ∧
      (∀ now host port r, (c.cacheLookup now host port).2 = some r →
        ∃ t, latest host port hist = some (t, r) ∧ now < expiry c.ttlMs t) ∧
      (∀ t now host port r, host.length < KL_RESOLVER_CACHE_HOSTNAME_MAX →
        t + c.ttlMs ≤ UINT64_MAX ∨ UINT64_MAX / 2 < c.ttlMs →
        ((c.cacheInsert t host port r).cacheLookup now host port).2 =
          if now < expiry c.ttlMs t then some r else none) ∧
      ∀ now host port r, host.length < KL_RESOLVER_CACHE_HOSTNAME_MAX → c.count = c.capacity →
        (∀ e ∈ c.entries, e.holds host port = false) →
        ∃ (i : Nat) (old new : KlResCacheEntry ρ), c.entries[i]? = some old ∧ old.occupied = true ∧
          new.holds host port = true ∧ new.result = r ∧
          (c.cacheInsert now host port r).entries = c.entries.set i new ∧
          (c.cacheInsert now host port r).count = c.count := by
  intro c
  have h : Inv _ _ hist c := inv_run cfg hist
  refine ⟨h.unique, ⟨h.count, h.count ▸ countP_le_length, h.capacity⟩, ?_, ?_, ?_⟩
  · intro now host port r hr
    have hf := cacheLookup_spec c now host port
    rw [hr] at hf
    generalize (c.cacheLookup now host port).1 = c' at hf
    cases hf with
    | hit i e he hkey hfresh =>
      obtain ⟨hocc, hk⟩ := KlResCacheEntry.holds_iff.mp hkey
      obtain ⟨t, hlatest, hdead⟩ := h.current i e he hocc
      obtain ⟨rfl, rfl⟩ := Prod.mk.inj hk
      refine ⟨t, hlatest, Nat.lt_of_lt_of_le hfresh ?_⟩
      rw [hdead, h.ttl]
      exact cacheDeadline_le _ t
  · intro t now host port r hlen hclock
    rw [lookup_inserted cfg hist hlen t now, cacheDeadline_eq hclock]
  · intro now host port r hlen hfull hnew
    have hocc : ∀ e ∈ c.entries, e.occupied = true :=
      countP_eq_length.mp (h.count.symm.trans hfull)
    cases cacheInsert_spec now port r hlen (h.capacity ▸ capacity_pos cfg) with
    | updated i old hw hold _ =>
      exact absurd hold (by rw [hnew old (mem_of_getElem? hw.old)]; exact Bool.false_ne_true)
    | filled i old hw hold _ _ =>
      exact absurd (hocc old (mem_of_getElem? hw.old)) (by rw [hold]; exact Bool.false_ne_true)
    | evicted i old hw _ _ hcount =>
      refine ⟨i, old, _, hw.old, hocc old (mem_of_getElem? hw.old), ?_, rfl, hw.entries, hcount⟩
      exact KlResCacheEntry.holds_iff.mpr ⟨rfl, rfl⟩

/-- Two inserts fill a table of two entries. The third one overwrites one of them, and is found
until it expires. -/
theorem cache_store_full :
    let c := run (ρ := Nat) (some ⟨10, 2⟩) [(1, .insert [98] 80 4), (0, .insert [97] 80 3)]
    c.count = c.capacity ∧
      (∃ (i : Nat) (old new : KlResCacheEntry Nat), c.entries[i]? = some old ∧ old.occupied = true ∧
        new.holds [99] 80 = true ∧ new.result = 5 ∧
        (c.cacheInsert 2 [99] 80 5).entries = c.entries.set i new ∧
        (c.cacheInsert 2 [99] 80 5).count = c.count) ∧
      ((c.cacheInsert 2 [99] 80 5).cacheLookup 11 [99] 80).2 = some 5 ∧
      ((c.cacheInsert 2 [99] 80 5).cacheLookup 12 [99] 80).2 = none := by
  intro c
  obtain ⟨-, -, -, hfound, hevict⟩ := cache_store (some ⟨10, 2⟩)
    [(1, .insert [98] 80 4), (0, .insert [97] 80 3)]
  exact ⟨by decide, hevict 2 [99] 80 5 (by decide) (by decide) (by decide),
    hfound 2 11 [99] 80 5 (by decide) (by decide), hfound 2 12 [99] 80 5 (by decide) (by decide)⟩

end KlResolverCache
