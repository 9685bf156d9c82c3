-- SUMMARY: Who owns each pooled connection over every history of the pool.
import Keel.Http.ClientPool

/-!
# Histories of the connection pool

The table of slots and the log of events are tied together by one invariant: the connection of
a slot was last released under the key and the provider of the slot, and a pending timer was
armed for the connection that its slot holds now.
-/

open Slots List Option

/-! ## The log -/

namespace PoolEvent

def opens (fd : Nat) : PoolEvent → Bool
  | .opened fd' => fd' == fd
  | _ => false

def closes (fd : Nat) : PoolEvent → Bool
  | .closed fd' _ => fd' == fd
  | _ => false

/-- The key and the provider of the last release of a descriptor. -/
def lastRelease (fd : Nat) : List PoolEvent → Option (PoolKey × Option Nat)
  | [] => none
  | .released fd' key sp :: log => if fd' = fd then some (key, sp) else lastRelease fd log
  | _ :: log => lastRelease fd log

/-- What an event owes to the events before it. -/
def Due (before : List PoolEvent) : PoolEvent → Prop
  | .released fd _ _ => 0 < before.countP (opens fd)
  | .acquired fd key sp peek => lastRelease fd before = some (key, sp) ∧ peek = .wouldBlock
  | .closed fd sp => ∀ key sp', lastRelease fd before = some (key, sp') → sp' = sp
  | .armed id _ => ∀ fd, .armed id fd ∉ before
  | .timedOut id fd => .armed id fd ∈ before
  | _ => True

/-- Every event of the log is due. -/
def Justified : List PoolEvent → Prop
  | [] => True
  | e :: before => e.Due before ∧ Justified before

variable {log : List PoolEvent} {tls : Option Nat} {fd f : Nat} {sp : Option Nat}

@[simp] theorem lastRelease_closing :
    lastRelease f (closing tls fd sp ++ log) = lastRelease f log := by
  cases tls with
  | none => rfl
  | some t => rfl

@[simp] theorem opens_closing :
    (closing tls fd sp ++ log).countP (opens f) = log.countP (opens f) := by
  cases tls with
  | none => rfl
  | some t => rfl

theorem closes_closing : (closing tls fd sp ++ log).countP (closes f) = log.countP (closes f) +
    if fd = f then 1 else 0 := by
  cases tls with
  | none => simp [closing, countP_cons, closes]
  | some t => simp [closing, countP_cons, closes]

@[simp] theorem armed_mem_closing {id : Nat} :
    .armed id f ∈ closing tls fd sp ++ log ↔ .armed id f ∈ log := by
  cases tls with
  | none => simp [closing]
  | some t => simp [closing]

/-- A socket is closed by the provider it was released under. -/
theorem Justified.closing (h : Justified log)
    (hdue : ∀ key sp', lastRelease fd log = some (key, sp') → sp' = sp) :
    Justified (closing tls fd sp ++ log) := by
  cases tls with
  | none => exact ⟨hdue, h⟩
  | some t => exact ⟨hdue, trivial, trivial, h⟩

/-- A descriptor that was released was opened. -/
theorem Justified.opened (h : Justified log) {r : PoolKey × Option Nat}
    (hlast : lastRelease f log = some r) : 0 < log.countP (opens f) := by
  induction log with
  | nil => cases hlast
  | cons ev log ih =>
    refine lt_of_lt_of_le ?_ (sublist_cons_self ev log).countP_le
    unfold lastRelease at hlast
    split at hlast
    · cases hlast
    · next heq =>
      obtain ⟨rfl, rfl⟩ := cons.inj heq
      split at hlast
      · next hfd => exact hfd ▸ h.1
      · exact ih h.2 hlast
    · next heq =>
      obtain ⟨rfl, rfl⟩ := cons.inj heq
      exact ih h.2 hlast

end PoolEvent

open PoolEvent

/-! ## Keys -/

namespace KlHttpClientPoolEntry

/-- The key that an entry stores. -/
def key (e : KlHttpClientPoolEntry) : PoolKey :=
  { host := e.host, port := e.port, isTls := e.isTls, tk := ⟨e.tlsCtx, e.tlsFactory⟩,
    proxy := if e.proxyHost = [] then none else some (e.proxyHost, e.proxyPort) }

/-- The slot holds a connection of the key and the provider. -/
def under (k : PoolKey) (sp : Option Nat) (e : KlHttpClientPoolEntry) : Bool :=
  e.fd.isSome && e.key == k && e.sockets == sp

variable {e : KlHttpClientPoolEntry} {t : PoolTarget} {sp : Option Nat}

/-- Where a proxy that is given has a name, a match of a valid entry is equality of the keys. -/
theorem entryMatches_iff {fd : Nat} (hfd : e.fd = some fd) (ht : t.proxyHost ≠ some []) :
    e.entryMatches t = true ↔ e.key = t.key := by
  unfold entryMatches key PoolTarget.key
  cases hp : t.proxyHost with
  | none =>
    simp only [hfd, PoolKey.mk.injEq, PoolTlsKey.ext_iff, map_none]
    by_cases hnil : e.proxyHost = []
    · simp [hnil]
      tauto
    · simp [hnil]
  | some host =>
    have hne : host ≠ [] := fun h => ht (hp.trans (congrArg some h))
    simp only [hfd, PoolKey.mk.injEq, PoolTlsKey.ext_iff, map_some]
    by_cases hnil : e.proxyHost = []
    · simp [hnil, hne]
    · simp [hnil]
      tauto

/-- An entry matches when provider and key do. -/
theorem ours_iff (ht : t.proxyHost ≠ some []) :
    (e.sockets == sp && e.entryMatches t) = e.under t.key sp := by
  cases hfd : e.fd with
  | none => simp [under, entryMatches, hfd]
  | some fd =>
    have hiff := entryMatches_iff hfd ht
    rw [Bool.eq_iff_iff]
    simp [under, hfd, hiff, and_comm]

end KlHttpClientPoolEntry

/-! ## The invariant -/

namespace PoolState

/-- Slot `i` holds the entry `e` with the connection `fd`. -/
def At (s : PoolState) (i : Nat) (e : KlHttpClientPoolEntry) (fd : Nat) : Prop :=
  s.pool.entries[i]? = some e ∧ e.fd = some fd

/-- The number of slots that hold a descriptor. -/
def slots (s : PoolState) (fd : Nat) : Nat := s.pool.entries.countP (·.fd == some fd)

/-- The number of times callers hold it. -/
def handles (s : PoolState) (fd : Nat) : Nat := s.callers.countP (·.1 == fd)

/-- The table, its timers, and the log. -/
structure Table (s : PoolState) : Prop where
  keyed : ∀ i e fd, s.At i e fd → lastRelease fd s.log = some (e.key, e.sockets)
  clock : ∀ i e fd, s.At i e fd → e.idleSinceMs < UINT64_MAX
  limit : ∀ k sp, s.pool.entries.countP (·.under k sp) ≤ s.pool.maxPerHost
  limit_pos : 0 < s.pool.maxPerHost
  pending : ∀ id i, (id, i) ∈ s.timers → ∃ e fd, s.At i e fd ∧ e.timerId = some id ∧
    .armed id fd ∈ s.log
  unarmed : s.pool.evCtx = none → s.timers = []
  armed : ∀ id fd, .armed id fd ∈ s.log → id < s.nextTimer

/-- The owners of the descriptors. -/
structure Owned (s : PoolState) : Prop where
  owners : ∀ fd, s.slots fd + s.handles fd + s.log.countP (closes fd) = s.log.countP (opens fd)
  once : ∀ fd, s.log.countP (opens fd) ≤ 1
  lent : ∀ fd sp, (fd, sp) ∈ s.callers → ∀ key sp', lastRelease fd s.log = some (key, sp') →
    sp' = sp
  justified : Justified s.log

structure Core (s : PoolState) : Prop extends Table s, Owned s

structure Inv (s : PoolState) : Prop extends Core s where
  active : s.pool.active = s.pool.validSlots

variable {s : PoolState} {i fd : Nat} {e e' : KlHttpClientPoolEntry}
  {sp : Option Nat} {f : Nat} {d : KlHttpClientPoolEntry} {t : PoolTarget}
    {conn : KlHttpClientPoolConn}

/-- A caller holds its socket. -/
theorem handles_pos (h : (fd, sp) ∈ s.callers) : 0 < s.handles fd :=
  countP_pos_iff.mpr ⟨_, h, beq_self_eq_true _⟩

theorem handles_cons (callers : List (Nat × Option Nat)) :
    ((fd, sp) :: callers).countP (·.1 == f) =
      callers.countP (·.1 == f) + if fd = f then 1 else 0 := by
  simp [countP_cons]

theorem slots_pos (h : s.At i e fd) : 0 < s.slots fd :=
  countP_pos_iff.mpr ⟨e, mem_of_getElem? h.1, beq_iff_eq.mpr h.2⟩

/-- A caller's connection is in no slot, and no other caller holds it. -/
theorem Owned.of_caller (h : s.Owned) (hc : (fd, sp) ∈ s.callers) :
    s.slots fd = 0 ∧ s.handles fd = 1 ∧ s.log.countP (closes fd) = 0 := by
  have hpos := handles_pos hc
  have hsum := h.owners fd
  have honce := h.once fd
  omega

/-- A socket that a caller holds is in no slot. -/
theorem Owned.not_at (h : s.Owned) (hc : (fd, sp) ∈ s.callers) {i : Nat}
    {e : KlHttpClientPoolEntry} : ¬s.At i e fd :=
  fun hat => Nat.ne_of_gt (slots_pos hat) (h.of_caller hc).1

/-! ## Freeing a slot -/

/-- Freeing a slot leaves the others as they were. -/
theorem at_setSlot_free (he' : e'.fd = none) {j : Nat} (h : (s.setSlot i e').At j d f) :
    j ≠ i ∧ s.At j d f := by
  rcases getElem?_set_cases h.1 with ⟨-, rfl⟩ | ⟨hj, hd⟩
  · exact absurd (he'.symm.trans h.2) (some_ne_none f).symm
  · exact ⟨hj, hd, h.2⟩

theorem slots_setSlot_free (h : s.At i e fd) (he' : e'.fd = none) (f : Nat) :
    (s.setSlot i e').slots f + (if fd = f then 1 else 0) = s.slots f := by
  have hfree : (e'.fd == some f) = false := by rw [he']; rfl
  by_cases hf : fd = f
  · subst hf
    rw [if_pos rfl]
    exact countP_free h.1 (beq_iff_eq.mpr h.2) hfree
  · rw [if_neg hf]
    refine countP_keep h.1 (hfree.trans (Eq.symm ?_))
    rw [h.2]
    exact beq_eq_false_iff_ne.mpr fun heq => hf (some.inj heq)

theorem active_setSlot_free (hactive : s.pool.active = s.pool.validSlots) (h : s.At i e fd)
    (he' : e'.fd = none) : s.pool.active + -1 = ((s.setSlot i e').pool.validSlots : Int) := by
  have hvalid : (s.setSlot i e').pool.validSlots + 1 = s.pool.validSlots :=
    countP_free h.1 (by rw [h.2]; rfl) (by rw [he']; rfl)
  omega

theorem under_free (he' : e'.fd = none) (k : PoolKey) (sp : Option Nat) :
    e'.under k sp = false := by
  unfold KlHttpClientPoolEntry.under
  rw [he']
  rfl

/-- A slot that no pending timer refers to can be freed. -/
theorem Table.free (h : s.Table) (he : s.pool.entries[i]? = some e) (he' : e'.fd = none)
    (hno : ∀ id, (id, i) ∉ s.timers) : (s.setSlot i e').Table where
  keyed j d f hat := h.keyed j d f (at_setSlot_free he' hat).2
  clock j d f hat := h.clock j d f (at_setSlot_free he' hat).2
  limit k sp := (countP_set_le he (under_free he' k sp)).trans (h.limit k sp)
  __ := h
  pending := by
    intro id j hmem
    obtain ⟨d, f, hat, hid, harmed⟩ := h.pending id j hmem
    have hji : j ≠ i := by
      rintro rfl
      exact hno id hmem
    exact ⟨d, f, ⟨(getElem?_set_ne hji.symm).trans hat.1, hat.2⟩, hid, harmed⟩

/-- The table does not depend on what callers hold, nor on events that are neither releases nor
armed timers. -/
theorem Table.relog (h : s.Table) (callers : List (Nat × Option Nat)) (log : List PoolEvent)
    (hlast : ∀ f, lastRelease f log = lastRelease f s.log)
    (harmed : ∀ id f, .armed id f ∈ log ↔ .armed id f ∈ s.log) : Table { s with callers, log } where
  keyed j d f hat := (hlast f).trans (h.keyed j d f hat)
  __ := h
  pending := by
    intro id j hmem
    obtain ⟨d, f, hat, hid, ha⟩ := h.pending id j hmem
    exact ⟨d, f, hat, hid, (harmed id f).mpr ha⟩
  armed id f ha := h.armed id f ((harmed id f).mp ha)

theorem closeEvents_of (hfd : e.fd = some fd) : e.closeEvents = closing e.tls fd e.sockets := by
  unfold KlHttpClientPoolEntry.closeEvents
  rw [hfd]

/-- A slot is closed and freed. -/
theorem Core.closeSlot (h : s.Core) (hat : s.At i e fd) (he' : e'.fd = none)
    (hno : ∀ id, (id, i) ∉ s.timers) : (s.closeSlot i e e').Core := by
  have hlast := h.keyed i e fd hat
  unfold PoolState.closeSlot
  rw [closeEvents_of hat.2]
  refine { (h.toTable.free hat.1 he' hno).relog s.callers _ (fun f => lastRelease_closing)
    (fun id f => armed_mem_closing) with
    owners := fun f => ?_, once := fun f => ?_, lent := fun f sp hc => ?_, justified := ?_ }
  · have hslots := slots_setSlot_free hat he' f
    have hsum := h.owners f
    show (s.setSlot i e').slots f + s.handles f + (closing e.tls fd e.sockets ++ s.log).countP
      (closes f) = (closing e.tls fd e.sockets ++ s.log).countP (opens f)
    rw [closes_closing, opens_closing]
    omega
  · rw [opens_closing]
    exact h.once f
  · rw [lastRelease_closing]
    exact h.lent f sp hc
  · refine h.justified.closing fun key sp' hrel => ?_
    rw [hlast] at hrel
    exact (congrArg Prod.snd (some.inj hrel)).symm

/-! ## Timers -/

theorem Core.dropTimer (h : s.Core) (id : Nat) : (s.dropTimer id).Core where
  __ := h
  pending id' j hmem := h.pending id' j (mem_of_mem_filter hmem)
  unarmed hev := by
    show s.timers.filter _ = []
    rw [h.unarmed hev]
    rfl

/-- The timers of a slot are dropped with the id that the slot stores. -/
theorem Core.not_pending (h : s.Core) (he : s.pool.entries[i]? = some e) {id : Nat}
    (hid : e.timerId = some id) : ∀ id', (id', i) ∉ (s.dropTimer id).timers := by
  intro id' hmem
  obtain ⟨hin, hne⟩ := mem_filter.mp hmem
  obtain ⟨d, f, hat, hid', -⟩ := h.pending id' i hin
  have hed : d = e := some.inj (hat.1.symm.trans he)
  rw [hed, hid] at hid'
  exact bne_iff_ne.mp hne (some.inj hid').symm

theorem cancelIdle_pool (s : PoolState) (e : KlHttpClientPoolEntry) :
    (s.cancelIdle e).pool = s.pool := by
  unfold cancelIdle
  split <;> rfl

theorem cancelIdle_log (s : PoolState) (e : KlHttpClientPoolEntry) :
    (s.cancelIdle e).log = s.log := by
  unfold cancelIdle
  split <;> rfl

theorem cancelIdle_callers (s : PoolState) (e : KlHttpClientPoolEntry) :
    (s.cancelIdle e).callers = s.callers := by
  unfold cancelIdle
  split <;> rfl

/-- The timer of a slot is cancelled with it. -/
theorem Core.cancelIdle (h : s.Core) (he : s.At i e fd) :
    (s.cancelIdle e).Core ∧ (s.cancelIdle e).At i e fd ∧
    ∀ id, (id, i) ∉ (s.cancelIdle e).timers := by
  unfold PoolState.cancelIdle
  split
  · next id _ hid => exact ⟨h.dropTimer id, he, h.not_pending he.1 hid⟩
  next hnone =>
  refine ⟨h, he, fun id hmem => ?_⟩
  obtain ⟨d, f, hat, hid, -⟩ := h.pending id i hmem
  have hed : d = e := some.inj (hat.1.symm.trans he.1)
  cases hev : s.pool.evCtx with
  | none =>
    rw [h.unarmed hev] at hmem
    exact (not_mem_nil hmem).elim
  | some ctx => exact hnone ctx id hev (hed ▸ hid)

/-- An eviction closes one idle socket. -/
theorem Inv.evict (h : s.Inv) (hat : s.At i e fd) (clearHost : Bool) :
    (s.evict i e clearHost).Inv := by
  obtain ⟨hcore, hat', hno⟩ := h.toCore.cancelIdle hat
  exact { hcore.closeSlot hat' rfl hno with
    active := active_setSlot_free (by rw [cancelIdle_pool]; exact h.active) hat' rfl }

/-- The timer that fires is the one that its slot was filled with. -/
theorem Inv.idleTimerCb (h : s.Inv) {id : Nat} (hmem : (id, i) ∈ s.timers) :
    ((s.dropTimer id).idleTimerCb id i).Inv := by
  obtain ⟨e, fd, hat, hid, harmed⟩ := h.pending id i hmem
  have hat' : (s.dropTimer id).At i e fd := hat
  have hvacant : (e.vacate false).fd = none := rfl
  have hclosed := (h.toCore.dropTimer id).closeSlot hat' hvacant (h.toCore.not_pending hat.1 hid)
  have harmed' : .armed id fd ∈ ((s.dropTimer id).closeSlot i e (e.vacate false)).log :=
    mem_append_right e.closeEvents harmed
  have heq : (s.dropTimer id).idleTimerCb id i =
      { ((s.dropTimer id).closeSlot i e (e.vacate false)).addActive (-1) with
        log := .timedOut id fd :: ((s.dropTimer id).closeSlot i e (e.vacate false)).log } := by
    unfold PoolState.idleTimerCb
    rw [hat'.1]
    simp only [hat'.2]
    rfl
  rw [heq]
  exact { hclosed.toTable.relog s.callers (.timedOut id fd :: _) (fun f => rfl) (fun id' f =>
    by simp) with
    owners := hclosed.owners, once := hclosed.once, lent := hclosed.lent,
    justified := ⟨harmed', hclosed.justified⟩, active := active_setSlot_free h.active hat' hvacant }

/-! ## Acquire -/

/-- A socket that is still open goes to the caller. -/
theorem Inv.takeSlot (h : s.Inv) (hat : s.At i e fd) (hkey : e.key = t.key) :
    (s.takeSlot i fd e e.sockets t .wouldBlock).Inv := by
  obtain ⟨hcore, hat', hno⟩ := h.toCore.cancelIdle hat
  have hvacant : (e.vacate true).fd = none := rfl
  have htable := hcore.toTable.free hat'.1 hvacant hno
  have hlast := hcore.keyed i e fd hat'
  refine { htable.relog ((fd, e.sockets) :: (s.cancelIdle e).callers)
    (.acquired fd t.key e.sockets .wouldBlock :: _)
      (fun f => rfl) (fun id' f => by simp) with
    owners := fun f => ?_, once := hcore.once, lent := ?_, justified := ⟨⟨hkey ▸ hlast, rfl⟩,
      hcore.justified⟩,
    active := active_setSlot_free (by rw [cancelIdle_pool]; exact h.active) hat' hvacant }
  · have hslots := slots_setSlot_free hat' hvacant f
    have hsum := hcore.owners f
    show ((s.cancelIdle e).setSlot i (e.vacate true)).slots f +
      ((fd, e.sockets) :: (s.cancelIdle e).callers).countP (·.1 == f)
      + (s.cancelIdle e).log.countP (closes f) = (s.cancelIdle e).log.countP (opens f)
    rw [handles_cons]
    unfold handles at hsum
    omega
  · intro f sp hc key sp' hrel
    rcases mem_cons.mp hc with heq | hold
    · obtain ⟨rfl, rfl⟩ := Prod.mk.inj heq
      exact (congrArg Prod.snd (some.inj (hlast.symm.trans hrel))).symm
    · exact hcore.lent f sp hold key sp' hrel

/-- The search for a socket, with what it evicts on its way. -/
theorem Inv.acquireFrom (sp : Option Nat) (ht : t.proxyHost ≠ some []) (peek : Nat → Peek)
    (left i : Nat) (h : s.Inv) : (acquireFrom sp t peek left i s).1.Inv := by
  induction left generalizing i s with
  | zero => exact h
  | succ left ih =>
    unfold acquireFrom
    split
    · exact h
    rename_i e he
    split
    · exact ih (i + 1) h
    rename_i fd hfd
    split
    · exact ih (i + 1) h
    rename_i hmatch
    have hmatch : e.entryMatches t = true := by simpa using hmatch
    split
    · exact ih (i + 1) h
    next hsp =>
    split
    · exact ih (i + 1) (h.evict ⟨he, hfd⟩ false)
    · next hpeek =>
      rw [Decidable.not_not.mp hpeek, ← Decidable.not_not.mp hsp]
      exact h.takeSlot ⟨he, hfd⟩ ((KlHttpClientPoolEntry.entryMatches_iff hfd ht).mp hmatch)

/-! ## Release -/

/-- The state in which a caller has passed a connection to a release. -/
structure Releasing (sp : Option Nat) (fd : Nat) (t : PoolTarget) (s : PoolState) :
    Prop extends Inv s where
  caller : (fd, sp) ∈ s.callers
  last : lastRelease fd s.log = some (t.key, sp)

theorem handles_unhold (hfd : s.handles fd = 1) (f : Nat) :
    (s.callers.filter (·.1 != fd)).countP (·.1 == f) + (if fd = f then 1 else 0) = s.handles f := by
  unfold handles at hfd ⊢
  rw [countP_filter]
  split
  · next hf =>
    subst hf
    rw [hfd, countP_eq_zero.mpr fun c _ => by simp]
  · next hf =>
    refine countP_congr fun c _ => ?_
    simp only [Bool.and_eq_true, beq_iff_eq, bne_iff_ne]
    exact ⟨fun hand => hand.1, fun heq => ⟨heq, fun hc => hf (hc.symm.trans heq)⟩⟩

theorem lastRelease_released {key : PoolKey} {log : List PoolEvent} (hf : fd ≠ f) :
    lastRelease f (.released fd key sp :: log) = lastRelease f log := if_neg hf

/-- The caller hands its socket over. -/
theorem Inv.releasing (h : s.Inv) {sp₀ : Option Nat} (hc : (fd, sp₀) ∈ s.callers) (sp : Option Nat)
    (hconn : conn.fd = some fd) (t : PoolTarget) : Releasing sp fd t (s.releasing sp conn t) := by
  obtain ⟨-, hhandles, -⟩ := h.toOwned.of_caller hc
  have heq : s.releasing sp conn t =
      { s with callers := (fd, sp) :: s.callers.filter (·.1 != fd),
               log := .released fd t.key sp :: s.log } := by
    unfold PoolState.releasing
    rw [hconn]
  rw [heq]
  refine { keyed := ?_, clock := h.clock, limit := h.limit, limit_pos := h.limit_pos, pending := ?_,
           unarmed := h.unarmed,
           armed := ?_, owners := ?_, once := h.once, lent := ?_, justified := ⟨?_, h.justified⟩,
             active := h.active,
           caller := mem_cons_self, last := if_pos rfl }
  · intro j d f hat
    have hf : fd ≠ f := by
      rintro rfl
      exact h.toOwned.not_at hc hat
    exact (lastRelease_released hf).trans (h.keyed j d f hat)
  · intro id j hmem
    obtain ⟨d, f, hat, hid, ha⟩ := h.pending id j hmem
    exact ⟨d, f, hat, hid, mem_cons_of_mem _ ha⟩
  · intro id f ha
    rcases mem_cons.mp ha with hcontra | hin
    · cases hcontra
    · exact h.armed id f hin
  · intro f
    have hsum := h.owners f
    show s.slots f + ((fd, sp) :: s.callers.filter (·.1 != fd)).countP (·.1 == f) +
      s.log.countP (closes f) = s.log.countP (opens f)
    rw [handles_cons, handles_unhold hhandles, hsum]
  · intro f sp' hmem key sp'' hrel
    rcases mem_cons.mp hmem with heq | hold
    · obtain ⟨rfl, rfl⟩ := Prod.mk.inj heq
      have hlast := (if_pos rfl).symm.trans hrel
      exact (congrArg Prod.snd (some.inj hlast)).symm
    · obtain ⟨hin, hne⟩ := mem_filter.mp hold
      have hf : fd ≠ f := fun heq => bne_iff_ne.mp hne heq.symm
      exact h.lent f sp' hin key sp'' ((lastRelease_released hf).symm.trans hrel)
  · have hsum := h.owners fd
    show 0 < s.log.countP (opens fd)
    omega

/-- Evicting another connection does not touch the one that is released. -/
theorem Releasing.evict (h : Releasing sp f t s) (hat : s.At i e fd)
    (clearHost : Bool) : Releasing sp f t (s.evict i e clearHost) := by
  refine { h.toInv.evict hat clearHost with caller := ?_, last := ?_ }
  · show (f, sp) ∈ (s.cancelIdle e).callers
    rw [cancelIdle_callers]
    exact h.caller
  · show lastRelease f (e.closeEvents ++ (s.cancelIdle e).log) = _
    rw [closeEvents_of hat.2, lastRelease_closing, cancelIdle_log]
    exact h.last

theorem evict_entries (s : PoolState) (i : Nat) (e : KlHttpClientPoolEntry) (clearHost : Bool) :
    (s.evict i e clearHost).pool.entries = s.pool.entries.set i (e.vacate clearHost) := by
  show (s.cancelIdle e).pool.entries.set i _ = _
  rw [cancelIdle_pool]

theorem evict_maxPerHost (s : PoolState) (i : Nat) (e : KlHttpClientPoolEntry) (clearHost : Bool) :
    (s.evict i e clearHost).pool.maxPerHost = s.pool.maxPerHost := by
  show (s.cancelIdle e).pool.maxPerHost = _
  rw [cancelIdle_pool]

/-- There is room for one more connection of the key. -/
def Room (s : PoolState) (k : PoolKey) (sp : Option Nat) : Prop :=
  s.pool.entries.countP (·.under k sp) < s.pool.maxPerHost

/-- The scan finds a slot in use. -/
theorem scan_at {p : KlHttpClientPoolEntry → Bool} (hp : ∀ d, p d = true → d.fd.isSome)
    (h : scanMin p (·.idleSinceMs) s.pool.entries 0 none UINT64_MAX = some i) :
    ∃ e fd, s.At i e fd ∧ p e = true := by
  rcases scanMin_spec p (·.idleSinceMs) s.pool.entries 0 none UINT64_MAX with hnone | ⟨j, e, hj, he,
    hpe⟩
  · rw [hnone] at h
    cases h
  · rw [hj, Nat.zero_add] at h
    obtain ⟨fd, hfd⟩ := isSome_iff_exists.mp (hp e hpe)
    exact ⟨e, fd, ⟨some.inj h ▸ he, hfd⟩, hpe⟩

/-- With every slot filled at a time below the scan's start, a scan that finds nothing has seen
nothing. -/
theorem Table.scan_none (h : s.Table) {p : KlHttpClientPoolEntry → Bool}
    (hp : ∀ d, p d = true → d.fd.isSome)
    (hnone : scanMin p (·.idleSinceMs) s.pool.entries 0 none UINT64_MAX = none) :
    ∀ d ∈ s.pool.entries, p d = false := by
  intro d hd
  by_contra hpd
  have hpd : p d = true := by simpa using hpd
  obtain ⟨f, hf⟩ := isSome_iff_exists.mp (hp d hpd)
  obtain ⟨j, hj⟩ := getElem?_of_mem hd
  exact scanMin_ne_none (.inr ⟨d, hd, hpd, h.clock j d f ⟨hj, hf⟩⟩) hnone

theorem under_isSome {k : PoolKey} (h : d.under k sp = true) : d.fd.isSome := by
  unfold KlHttpClientPoolEntry.under at h
  simp only [Bool.and_eq_true] at h
  exact h.1.1

/-- A host at its limit loses its oldest socket. -/
theorem Releasing.evictAtHost (h : Releasing sp f t s)
    (ht : t.proxyHost ≠ some []) :
    Releasing sp f t (s.evictAtHost sp t) ∧ (s.evictAtHost sp t).Room t.key sp := by
  have hours : (fun e : KlHttpClientPoolEntry => e.sockets == sp && e.entryMatches t) =
      (·.under t.key sp) :=
    funext fun e => KlHttpClientPoolEntry.ours_iff ht
  have hat_host : s.pool.atHost sp t = (s.pool.entries.countP (·.under t.key sp),
      scanMin (·.under t.key sp) (·.idleSinceMs) s.pool.entries 0 none UINT64_MAX) := by
    unfold KlHttpClientPool.atHost
    simp only [hours]
  have hlimit := h.limit t.key sp
  unfold PoolState.evictAtHost
  rw [hat_host]
  cases hscan : scanMin (·.under t.key sp) (·.idleSinceMs) s.pool.entries 0 none UINT64_MAX with
  | none =>
    refine ⟨h, ?_⟩
    have hzero : s.pool.entries.countP (·.under t.key sp) = 0 :=
      countP_eq_zero.mpr fun d hd => by
        rw [h.scan_none (fun _ => under_isSome) hscan d hd]
        exact Bool.false_ne_true
    unfold Room
    rw [hzero]
    exact h.limit_pos
  | some i =>
    obtain ⟨e, fd, hat, hunder⟩ := scan_at (fun _ => under_isSome) hscan
    simp only
    split
    · rw [hat.1]
      refine ⟨h.evict hat true, ?_⟩
      have hcount :=
        @countP_free _ (·.under t.key sp) _ _ _ _ hat.1 hunder
        (@under_free (e.vacate true) rfl t.key sp)
      unfold Room
      rw [evict_entries, evict_maxPerHost]
      omega
    · next hroom => exact ⟨h, Nat.lt_of_not_le hroom⟩

/-- A free slot, or the oldest one freed. -/
theorem Releasing.findSlot (h : Releasing sp f t s) (hroom : s.Room t.key sp) :
    Releasing sp f t s.findSlot.1 ∧ s.findSlot.1.Room t.key sp ∧
      ∀ i, s.findSlot.2 = some i → ∃ e, s.findSlot.1.pool.entries[i]? = some e ∧ e.fd = none := by
  unfold PoolState.findSlot
  cases hfree : s.pool.freeSlot with
  | some i =>
    refine ⟨h, hroom, ?_⟩
    rintro j hj
    obtain ⟨e, he, hnone⟩ := exists_of_findIdx? hfree
    exact ⟨e, some.inj hj ▸ he, isNone_iff_eq_none.mp hnone⟩
  | none =>
    cases hscan : s.pool.oldest with
    | none => exact ⟨h, hroom, fun i hi => nomatch hi⟩
    | some i =>
      obtain ⟨e, fd, hat, -⟩ := scan_at (fun _ hd => hd) hscan
      simp only [hat.1]
      refine ⟨h.evict hat false, ?_, ?_⟩
      · unfold Room at hroom ⊢
        rw [evict_entries, evict_maxPerHost]
        exact (countP_set_le hat.1 (under_free rfl t.key sp)).trans_lt hroom
      · intro j hj
        obtain rfl := some.inj hj
        refine ⟨e.vacate false, ?_, rfl⟩
        rw [evict_entries]
        exact getElem?_set_self (List.getElem?_eq_some_iff.mp hat.1).1

theorem filled_key (sp : Option Nat) (fd : Nat) (tls : Option Nat) (ht : t.proxyHost ≠ some [])
    (now : Nat) : (filled sp fd tls t now).key = t.key := by
  unfold filled KlHttpClientPoolEntry.key PoolTarget.key
  cases hp : t.proxyHost with
  | none => simp
  | some host =>
    have hne : host ≠ [] := fun h => ht (hp.trans (congrArg some h))
    simp [hne]

theorem at_setSlot_fill (he : e.fd = some fd) {j : Nat} (h : (s.setSlot i e).At j d f) :
    (j = i ∧ d = e ∧ f = fd) ∨ (j ≠ i ∧ s.At j d f) := by
  rcases getElem?_set_cases h.1 with ⟨hj, hd⟩ | ⟨hj, hd⟩
  · exact .inl ⟨hj, hd, some.inj ((h.2.symm.trans (congrArg _ hd)).trans he)⟩
  · exact .inr ⟨hj, hd, h.2⟩

section

variable {e₀ : KlHttpClientPoolEntry} (h : Releasing sp fd t s) (hroom : s.Room t.key sp)
  (he₀ : s.pool.entries[i]? = some e₀)
  (hfree : e₀.fd = none) (hfd : e.fd = some fd) (hkey : e.key = t.key) (hsp : e.sockets = sp)
  (hclock : e.idleSinceMs < UINT64_MAX)
include h hroom he₀ hfree hfd hkey hsp hclock

/-- A free slot takes the connection that is released. -/
theorem Releasing.setSlot : (((s.setSlot i e).addActive 1).unhold fd).Inv := by
  obtain ⟨hslots₀, hhandles₀, -⟩ := h.toOwned.of_caller h.caller
  have hunder₀ := under_free hfree
  refine { keyed := ?_, clock := ?_, limit := ?_, limit_pos := h.limit_pos, pending := ?_,
           unarmed := h.unarmed,
           armed := h.armed, owners := ?_, once := h.once, lent := ?_, justified := h.justified,
             active := ?_ }
  · intro j d f hat
    rcases at_setSlot_fill hfd hat with ⟨-, rfl, rfl⟩ | ⟨-, hold⟩
    · rw [hkey, hsp]
      exact h.last
    · exact h.keyed j d f hold
  · intro j d f hat
    rcases at_setSlot_fill hfd hat with ⟨-, rfl, rfl⟩ | ⟨-, hold⟩
    · exact hclock
    · exact h.clock j d f hold
  · intro k sp'
    show (s.pool.entries.set i e).countP (·.under k sp') ≤ s.pool.maxPerHost
    cases hunder : e.under k sp' with
    | false =>
      rw [countP_keep he₀ (hunder.trans (hunder₀ k sp').symm)]
      exact h.limit k sp'
    | true =>
      rw [@countP_fill _ (·.under k sp') _ _ _ _ he₀ (hunder₀ k sp') hunder]
      unfold KlHttpClientPoolEntry.under at hunder
      simp only [Bool.and_eq_true, beq_iff_eq] at hunder
      obtain ⟨⟨-, rfl⟩, rfl⟩ := hunder
      rw [hkey, hsp]
      exact hroom
  · intro id j hmem
    obtain ⟨d, f, hat, hid, ha⟩ := h.pending id j hmem
    have hji : i ≠ j := by
      rintro rfl
      have hd : d = e₀ := some.inj (hat.1.symm.trans he₀)
      have hnone := hat.2
      rw [hd, hfree] at hnone
      cases hnone
    exact ⟨d, f, ⟨(getElem?_set_ne hji).trans hat.1, hat.2⟩, hid, ha⟩
  · intro f
    have hsum := h.owners f
    show (s.pool.entries.set i e).countP (·.fd == some f) + (s.callers.filter (·.1 != fd)).countP
      (·.1 == f) + s.log.countP (closes f) = s.log.countP (opens f)
    have hhandles := handles_unhold hhandles₀ f
    unfold slots at hsum
    by_cases hf : fd = f
    · subst hf
      rw [@countP_fill _ (·.fd == some fd) _ _ _ _ he₀ (by rw [hfree]; rfl) (beq_iff_eq.mpr hfd)]
      rw [if_pos rfl] at hhandles
      omega
    · rw [@countP_keep _ (·.fd == some f) _ _ _ _ he₀]
      · rw [if_neg hf] at hhandles
        omega
      · rw [hfree, hfd]
        exact beq_eq_false_iff_ne.mpr fun heq => hf (some.inj heq)
  · intro f sp' hmem
    exact h.lent f sp' (mem_of_mem_filter hmem)
  · have hvalid := @countP_fill _ (·.fd.isSome) _ _ _ _ he₀ (by rw [hfree]; rfl) (by rw [hfd]; rfl)
    have hactive := h.active
    show s.pool.active + 1 = (((s.pool.entries.set i e).countP (·.fd.isSome) : Nat) : Int)
    unfold KlHttpClientPool.validSlots at hactive
    omega

/-- The released socket goes to the slot. -/
theorem Releasing.fillSlot (timer : Bool) : (s.fillSlot i fd e timer).Inv := by
  unfold PoolState.fillSlot
  split
  · next ctx hev =>
    have hplain :=
      h.setSlot hroom he₀ hfree (e := { e with timerId := some s.nextTimer }) hfd hkey hsp hclock
    refine { hplain with keyed := hplain.keyed, pending := ?_, unarmed := ?_, armed := ?_,
                         justified := ⟨?_, h.justified⟩ }
    · intro id j hmem
      rcases mem_cons.mp hmem with heq | hold
      · obtain ⟨rfl, rfl⟩ := Prod.mk.inj heq
        have hlt := (List.getElem?_eq_some_iff.mp he₀).1
        exact ⟨_, fd, ⟨getElem?_set_self hlt, hfd⟩, rfl, mem_cons_self⟩
      · obtain ⟨d, f, hat, hid, ha⟩ := hplain.pending id j hold
        exact ⟨d, f, hat, hid, mem_cons_of_mem _ ha⟩
    · intro hnone
      have hev' : s.pool.evCtx = none := hnone
      rw [hev] at hev'
      cases hev'
    · intro id f hmem
      rcases mem_cons.mp hmem with heq | hold
      · obtain ⟨rfl, -⟩ := PoolEvent.armed.inj heq
        exact Nat.lt_succ_self _
      · exact Nat.lt_succ_of_lt (h.armed id f hold)
    · exact fun f hmem => Nat.lt_irrefl _ (h.armed s.nextTimer f hmem)
  · exact h.setSlot hroom he₀ hfree hfd hkey hsp hclock

end

theorem Inv.poolDiscardSp (h : s.Inv)
    (hc : ∀ fd, conn.fd = some fd → (fd, sp) ∈ s.callers) : (s.poolDiscardSp sp conn).Inv := by
  unfold PoolState.poolDiscardSp
  split
  · cases conn.tls with
    | none => exact h
    | some tls =>
      exact { h.toTable.relog s.callers (.destroyed tls :: s.log) (fun f => rfl) (fun id f =>
        by simp) with
        owners := h.owners, once := h.once, lent := h.lent, justified := ⟨trivial, h.justified⟩,
          active := h.active }
  rename_i fd hfd
  obtain ⟨-, hhandles, -⟩ := h.toOwned.of_caller (hc fd hfd)
  refine { h.toTable.relog (s.unhold fd).callers _ (fun f => lastRelease_closing) (fun id f =>
    armed_mem_closing) with
    owners := fun f => ?_, once := fun f => ?_, lent := fun f sp' hmem => ?_, justified := ?_,
      active := h.active }
  · have hsum := h.owners f
    show s.slots f + (s.callers.filter (·.1 != fd)).countP (·.1 == f) +
      (closing conn.tls fd sp ++ s.log).countP (closes f) = (closing conn.tls fd sp ++ s.log).countP
        (opens f)
    have hunheld := handles_unhold hhandles f
    rw [closes_closing, opens_closing]
    omega
  · rw [opens_closing]
    exact h.once f
  · rw [lastRelease_closing]
    exact h.lent f sp' (mem_of_mem_filter hmem)
  · exact h.justified.closing (h.lent fd sp (hc fd hfd))

/-- The release stores the socket or closes it. -/
theorem Releasing.poolRelease (h : Releasing sp fd t s) (ht : t.proxyHost ≠ some [])
    (hconn : conn.fd = some fd) {now : Nat} (hnow : now < UINT64_MAX) (timer : Bool) :
    (s.poolRelease sp conn t now timer).1.Inv := by
  have hheld {s' : PoolState} (h' : Releasing sp fd t s') : ∀ f, conn.fd = some f →
      (f, sp) ∈ s'.callers := by
    intro f hf
    rw [← some.inj (hconn.symm.trans hf)]
    exact h'.caller
  have hrefused : Releasing sp fd t { s with pool := { s.pool with lastError := .invalidArg } } :=
    { h with }
  unfold PoolState.poolRelease
  simp only [hconn]
  split_ifs
  · exact hrefused.toInv.poolDiscardSp (hheld hrefused)
  · exact hrefused.toInv.poolDiscardSp (hheld hrefused)
  obtain ⟨hevicted, hroom⟩ := h.evictAtHost ht
  obtain ⟨hfound, hroom', hslot⟩ := hevicted.findSlot hroom
  split
  · next s' heq =>
    rw [heq] at hfound
    exact hfound.toInv.poolDiscardSp (hheld hfound)
  · next s' i heq =>
    rw [heq] at hfound hroom' hslot
    obtain ⟨e₀, he₀, hfree⟩ := hslot i rfl
    exact hfound.fillSlot hroom' he₀ hfree rfl (filled_key sp fd conn.tls ht now) rfl hnow timer

theorem Inv.release (h : s.Inv) (sp : Option Nat) (ht : t.proxyHost ≠ some [])
    (hc : ∀ fd, conn.fd = some fd → ∃ sp₀, (fd, sp₀) ∈ s.callers) {now : Nat}
    (hnow : now < UINT64_MAX) (timer : Bool) :
    ((s.releasing sp conn t).poolRelease sp conn t now timer).1.Inv := by
  cases hconn : conn.fd with
  | none =>
    unfold PoolState.releasing PoolState.poolRelease
    simp only [hconn]
    exact h
  | some fd =>
    obtain ⟨sp₀, hheld⟩ := hc fd hconn
    exact (h.releasing hheld sp hconn t).poolRelease ht hconn hnow timer

/-! ## The sweep and the free -/

/-- The sweep of the sockets that idled too long. -/
theorem Inv.evictFrom (now left i : Nat) (h : s.Inv) : (evictFrom now left i s).1.Inv := by
  induction left generalizing i s with
  | zero => exact h
  | succ left ih =>
    unfold evictFrom
    split
    · exact h
    next e he =>
    split
    · next hold =>
      obtain ⟨fd, hfd⟩ := isSome_iff_exists.mp hold.1
      exact ih (i + 1) (h.evict ⟨he, hfd⟩ true)
    · exact ih (i + 1) h

/-- The loop of the free closes every slot that it passes. -/
theorem Core.freeFrom (left i : Nat) (h : s.Core) (hleft : i + left = s.pool.capacity)
    (hdone : ∀ j e fd, s.At j e fd → i ≤ j) :
    (freeFrom left i s).Core ∧ ∀ j e fd, ¬(freeFrom left i s).At j e fd := by
  induction left generalizing i s with
  | zero =>
    refine ⟨h, fun j e fd hat => ?_⟩
    have hlt : j < s.pool.capacity := (List.getElem?_eq_some_iff.mp hat.1).1
    have hle := hdone j e fd hat
    omega
  | succ left ih =>
    unfold freeFrom
    have hlt : i < s.pool.entries.length := by
      have hlen : s.pool.capacity = s.pool.entries.length := rfl
      omega
    rw [getElem?_eq_getElem hlt]
    have he := getElem?_eq_getElem hlt
    simp only
    generalize s.pool.entries[i] = e at he
    split
    · next hsome =>
      obtain ⟨fd, hfd⟩ := isSome_iff_exists.mp hsome
      obtain ⟨hcore, hat, hno⟩ := h.cancelIdle ⟨he, hfd⟩
      have hvacant : e.entryClose.fd = none := rfl
      refine ih (i + 1) (hcore.closeSlot hat hvacant hno) ?_ ?_
      · show i + 1 + left = ((s.cancelIdle e).pool.entries.set i _).length
        rw [cancelIdle_pool, length_set]
        have hlen : s.pool.capacity = s.pool.entries.length := rfl
        omega
      · intro j d f hatj
        obtain ⟨hne, hold⟩ := at_setSlot_free hvacant hatj
        unfold At at hold
        rw [cancelIdle_pool] at hold
        have hle := hdone j d f hold
        omega
    · next hnone =>
      refine ih (i + 1) h (by omega) ?_
      intro j d f hatj
      have hle := hdone j d f hatj
      have hne : j ≠ i := by
        rintro rfl
        have hd : d = e := some.inj (hatj.1.symm.trans he)
        rw [← hd, hatj.2] at hnone
        exact hnone rfl
      omega

/-- The end of the pool closes every socket it has. -/
theorem Inv.free (h : s.Inv) : s.free.Inv := by
  obtain ⟨hcore, hempty⟩ :=
    h.toCore.freeFrom s.pool.capacity 0 (Nat.zero_add _) (fun j _ _ _ => Nat.zero_le j)
  have hslots (f : Nat) : (freeFrom s.pool.capacity 0 s).slots f = 0 :=
    countP_eq_zero.mpr fun d hd hfd => by
      obtain ⟨j, hj⟩ := getElem?_of_mem hd
      exact hempty j d f ⟨hj, beq_iff_eq.mp hfd⟩
  have hnil {j f : Nat} {d : KlHttpClientPoolEntry} : ¬s.free.At j d f := fun hat => nomatch hat.1
  exact {
    keyed := fun j d f hat => (hnil hat).elim
    clock := fun j d f hat => (hnil hat).elim
    limit := fun k sp => Nat.zero_le _
    limit_pos := hcore.limit_pos
    pending := fun id j hmem => by
      obtain ⟨d, f, hat, -⟩ := hcore.pending id j hmem
      exact (hempty j d f hat).elim
    unarmed := hcore.unarmed
    armed := hcore.armed
    owners := fun f => by
      have hsum := hcore.owners f
      rw [hslots] at hsum
      exact hsum
    once := hcore.once
    lent := hcore.lent
    justified := hcore.justified
    active := rfl }

/-! ## Histories -/

/-- What callers owe to the pool: a new connection is one that never was opened before, a caller
gives back only what it holds, and discards it through the provider it uses it through. -/
def Kept (s : PoolState) : PoolOp → Prop
  | .connect fd _ => s.log.countP (opens fd) = 0
  | .release conn _ _ _ _ | .releaseTls conn _ _ _ _ | .releaseSp _ conn _ _ _ _ =>
    ∀ fd, conn.fd = some fd → ∃ sp, (fd, sp) ∈ s.callers
  | .discard conn => ∀ fd, conn.fd = some fd → (fd, s.pool.cpoolSp) ∈ s.callers
  | .discardSp sp conn => ∀ fd, conn.fd = some fd → (fd, sp) ∈ s.callers
  | _ => True

/-- A proxy that is given has a name, and the clock has not reached its last value. -/
def Named : PoolOp → Prop
  | .acquire site _ _ | .acquireTls site _ _ | .acquireSp _ site _ _ => site.proxyHost ≠ some []
  | .release _ site _ now _ | .releaseTls _ site _ now _ | .releaseSp _ _ site _ now _ =>
    site.proxyHost ≠ some [] ∧ now < UINT64_MAX
  | _ => True

/-- The states that a pool gets to by operations that meet `P`. -/
inductive Reach (P : PoolState → PoolOp → Prop) (cfg : Option KlHttpClientPoolConfig)
    (evCtx : Option PoolEvCtx) : PoolState → Prop
  | start : Reach P cfg evCtx (.start (.init cfg evCtx))
  | step {s : PoolState} {op : PoolOp} (h : Reach P cfg evCtx s) (hop : P s op) :
    Reach P cfg evCtx (s.step op)

/-- The number of idle connections that were last released under the key and the provider. -/
def idleUnder (s : PoolState) (key : PoolKey) (sp : Option Nat) : Nat :=
  s.pool.entries.countP fun e => e.fd.any fun fd => lastRelease fd s.log == some (key, sp)

/-- What the pool guarantees. A descriptor that was opened has one owner: a slot, a caller, or
the event that closed it. -/
structure Sound (s : PoolState) : Prop where
  active : s.pool.active = s.pool.validSlots
  capacity : s.pool.validSlots ≤ s.pool.capacity
  perKey : ∀ key sp, s.idleUnder key sp ≤ s.pool.maxPerHost
  owner : ∀ fd, s.slots fd + s.handles fd + s.log.countP (closes fd) = s.log.countP (opens fd)
  once : ∀ fd, s.log.countP (opens fd) ≤ 1
  justified : Justified s.log
  timers : ∀ id i, (id, i) ∈ s.timers → ∃ e fd, s.At i e fd ∧ .armed id fd ∈ s.log

theorem Inv.sound (h : s.Inv) : s.Sound where
  __ := h
  capacity := countP_le_length
  perKey key sp := by
    refine le_trans (countP_mono_left fun e he hany => ?_) (h.limit key sp)
    obtain ⟨j, hj⟩ := getElem?_of_mem he
    obtain ⟨fd, hfd, hlast⟩ := (any_eq_true _ _).mp hany
    have hkeyed := h.keyed j e fd ⟨hj, hfd⟩
    rw [beq_iff_eq.mp hlast] at hkeyed
    obtain ⟨rfl, rfl⟩ := Prod.mk.inj (some.inj hkeyed)
    simp [KlHttpClientPoolEntry.under, hfd]
  owner := h.owners
  timers id i hmem := by
    obtain ⟨e, fd, hat, -, harmed⟩ := h.pending id i hmem
    exact ⟨e, fd, hat, harmed⟩

variable (cfg : Option KlHttpClientPoolConfig) (evCtx : Option PoolEvCtx)

theorem init_fd :
    ∀ e ∈ (KlHttpClientPool.init cfg evCtx).entries, e = .free :=
  fun _ he => eq_of_mem_replicate he

theorem init_maxPerHost_pos :
    0 < (KlHttpClientPool.init cfg evCtx).maxPerHost := by
  show 0 < Int.toNat (Option.getD (Option.filter _ (cfg.map (·.maxPerHost))) _)
  cases hm : Option.filter (fun m : Int => decide (0 < m)) (cfg.map (·.maxPerHost)) with
  | none => decide
  | some m =>
    have hpos := of_decide_eq_true (Option.filter_eq_some_iff.mp hm).2
    exact Int.lt_toNat.mpr hpos

/-- A new pool has no socket. -/
theorem Inv.init :
    (PoolState.start (.init cfg evCtx)).Inv := by
  have hnone {i fd : Nat} {e : KlHttpClientPoolEntry} : ¬(start (.init cfg evCtx)).At i e fd := by
    intro hat
    have hfree := init_fd cfg evCtx e (mem_of_getElem? hat.1)
    have hfd := hat.2
    rw [hfree] at hfd
    cases hfd
  have hzero {p : KlHttpClientPoolEntry → Bool} (hp : p .free = false) :
      (KlHttpClientPool.init cfg evCtx).entries.countP p = 0 :=
    countP_eq_zero.mpr fun e he hpe => by
      rw [init_fd cfg evCtx e he, hp] at hpe
      cases hpe
  exact {
    keyed := fun i e fd hat => (hnone hat).elim
    clock := fun i e fd hat => (hnone hat).elim
    limit := fun k sp => (hzero rfl).trans_le (Nat.zero_le _)
    limit_pos := init_maxPerHost_pos cfg evCtx
    pending := fun id i hmem => (not_mem_nil hmem).elim
    unarmed := fun _ => rfl
    armed := fun id fd hmem => (not_mem_nil hmem).elim
    owners := fun fd => hzero rfl
    once := fun fd => Nat.zero_le 1
    lent := fun fd sp hmem => (not_mem_nil hmem).elim
    justified := trivial
    active := (congrArg Nat.cast (hzero rfl)).symm }

/-- A caller opens a socket. -/
theorem Inv.connect (h : s.Inv) (hnew : s.log.countP (opens fd) = 0) (sp : Option Nat) :
    (s.step (.connect fd sp)).Inv := by
  refine { h.toTable.relog ((fd, sp) :: s.callers) (.opened fd :: s.log) (fun f => rfl) (fun id f =>
    by simp) with
    owners := fun f => ?_, once := fun f => ?_, lent := ?_, justified := ⟨trivial, h.justified⟩,
      active := h.active }
  · have hsum := h.owners f
    show s.slots f + ((fd, sp) :: s.callers).countP (·.1 == f) + s.log.countP (closes f) =
      (opened fd :: s.log).countP (opens f)
    have hopens : opens f (.opened fd) = (fd == f) := rfl
    rw [countP_cons, countP_cons, ← hsum, hopens]
    unfold handles
    simp only
    omega
  · show (opened fd :: s.log).countP (opens f) ≤ 1
    rw [countP_cons]
    by_cases hf : fd = f
    · subst hf
      rw [hnew]
      split <;> decide
    · have hne : opens f (.opened fd) = false := beq_eq_false_iff_ne.mpr hf
      rw [hne]
      exact h.once f
  · intro f sp' hmem key sp'' hrel
    rcases mem_cons.mp hmem with heq | hold
    · obtain ⟨rfl, -⟩ := Prod.mk.inj heq
      exact absurd (h.justified.opened hrel) (Nat.not_lt.mpr (Nat.le_of_eq hnew))
    · exact h.lent f sp' hold key sp'' hrel

theorem Inv.step (h : s.Inv) {op : PoolOp} (hkept : s.Kept op) (hnamed : Named op) :
    (s.step op).Inv := by
  cases op with
  | connect fd sp => exact h.connect hkept sp
  | acquire site isTls peek => exact h.acquireFrom _ (t := site.plain isTls) hnamed peek _ 0
  | acquireTls site tls peek => exact h.acquireFrom _ (t := site.secured tls) hnamed peek _ 0
  | acquireSp sp site tls peek => exact h.acquireFrom sp (t := site.secured tls) hnamed peek _ 0
  | release conn site isTls now timer => exact h.release _ hnamed.1 hkept hnamed.2 timer
  | releaseTls conn site tls now timer => exact h.release _ hnamed.1 hkept hnamed.2 timer
  | releaseSp sp conn site tls now timer => exact h.release sp hnamed.1 hkept hnamed.2 timer
  | discard conn => exact h.poolDiscardSp hkept
  | discardSp sp conn => exact h.poolDiscardSp hkept
  | idleTimer id =>
    unfold PoolState.step
    simp only
    split
    · exact h
    · next id' i hfind =>
      have hid : (id' == id) = true :=
        find?_some (p := fun timer : Nat × Nat => timer.1 == id) hfind
      exact h.idleTimerCb (beq_iff_eq.mp hid ▸ mem_of_find?_eq_some hfind)
  | evictExpired now => exact h.evictFrom now _ 0
  | free => exact h.free

/-- In every history whose operations keep the callers' side, give no empty name for a proxy and
read the clock below its last value, the pool is sound in every state. -/
theorem pool_ownership {cfg : Option KlHttpClientPoolConfig} {evCtx : Option PoolEvCtx}
    (h : Reach (fun s op => s.Kept op ∧ Named op) cfg evCtx s) : s.Sound := by
  have hinv : s.Inv := by
    induction h with
    | start => exact Inv.init cfg evCtx
    | step _ hop ih => exact ih.step hop.1 hop.2
  exact hinv.sound

/-! Concrete histories. -/

def run (s : PoolState) (ops : List PoolOp) : PoolState := ops.foldl step s

/-- Every operation of a history meets `P` when it is made. -/
def Along (P : PoolState → PoolOp → Prop) (s : PoolState) : List PoolOp → Prop
  | [] => True
  | op :: ops => P s op ∧ Along P (s.step op) ops

/-- A list of operations leads to a state that is reached. -/
theorem Reach.run {P : PoolState → PoolOp → Prop} {cfg : Option KlHttpClientPoolConfig}
    {evCtx : Option PoolEvCtx}
    (h : Reach P cfg evCtx s) {ops : List PoolOp} (hops : Along P s ops) :
    Reach P cfg evCtx (s.run ops) := by
  induction ops generalizing s with
  | nil => exact h
  | cons op ops ih => exact ih (h.step hops.1) hops.2

/-- A pool of two slots with one connection per key, and a request to one host. -/
def twoSlots : Option KlHttpClientPoolConfig :=
  some { capacity := 2, maxPerHost := 1, idleMs := 1000 }

def toHost (proxyHost : Option (List UInt8)) : PoolSite :=
  { host := [97], port := 80, proxyHost, proxyPort := 8080 }

def plainConn (fd : Nat) : KlHttpClientPoolConn := { fd := some fd, tls := none, reused := false }

theorem holds_first {fd : Nat} {rest : List (Nat × Option Nat)}
    (hs : s.callers = (fd, none) :: rest) :
    ∀ f, (plainConn fd).fd = some f → ∃ sp, (f, sp) ∈ s.callers := by
  rintro f ⟨⟩
  exact ⟨none, hs ▸ mem_cons_self⟩

/-- A connection is pooled, borrowed, pooled again and closed by its second timer. -/
theorem pool_ownership_reuse :
    ∃ s, Reach (fun s op => s.Kept op ∧ Named op) twoSlots (some ⟨none⟩) s ∧ .timedOut 1 0 ∈ s.log ∧
    s.Sound := by
  have hreach : Reach (fun s op => s.Kept op ∧ Named op) twoSlots (some ⟨none⟩)
      (run (.start (.init twoSlots (some ⟨none⟩)))
        [.connect 0 none, .release (plainConn 0) (toHost none) 0 5 true,
          .acquire (toHost none) 0 fun _ => .wouldBlock,
          .release (plainConn 0) (toHost none) 0 9 true, .idleTimer 1]) := by
    have hdirect : (toHost none).proxyHost ≠ some [] := (some_ne_none []).symm
    exact Reach.start.run ⟨⟨rfl, trivial⟩, ⟨holds_first rfl, hdirect, by decide⟩,
      ⟨trivial, hdirect⟩, ⟨holds_first rfl, hdirect, by decide⟩, ⟨trivial, trivial⟩, trivial⟩
  exact ⟨_, hreach, mem_cons_self, pool_ownership hreach⟩

/-- A connection that was released under a proxy with an empty name is handed to a direct
request, and at the last value of the clock a second connection of one key is kept beside the
first. -/
theorem empty_proxy_and_last_clock :
    (∃ s fd key key' peek before, Reach Kept twoSlots none s ∧
      s.log = .acquired fd key none peek :: before ∧
      lastRelease fd before = some (key', none) ∧ key' ≠ key) ∧
    (∃ s key, Reach Kept twoSlots none s ∧ s.pool.maxPerHost < s.idleUnder key none) := by
  have hshared : Reach Kept twoSlots none
      (run (.start (.init twoSlots none))
        [.connect 0 none, .release (plainConn 0) (toHost (some [])) 0 5 true,
          .acquire (toHost none) 0 fun _ => .wouldBlock]) :=
    Reach.start.run ⟨rfl, holds_first rfl, trivial, trivial⟩
  have hlast : Reach Kept twoSlots none
      (run (.start (.init twoSlots none))
        [.connect 0 none, .release (plainConn 0) (toHost none) 0 UINT64_MAX true,
          .connect 1 none, .release (plainConn 1) (toHost none) 0 UINT64_MAX true]) :=
    Reach.start.run ⟨rfl, holds_first rfl, rfl, holds_first rfl, trivial⟩
  exact ⟨⟨_, 0, ((toHost none).plain 0).key, ((toHost (some [])).plain 0).key, .wouldBlock, _,
    hshared, rfl, rfl, by decide⟩, ⟨_, ((toHost none).plain 0).key, hlast, by decide⟩⟩

end PoolState
