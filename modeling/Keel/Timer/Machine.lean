-- SUMMARY: The timers of an event context (src/timer.c) as a machine.
import Keel.Limits
import Keel.Reentrant.Machine
import Keel.Heap.Binary
import Mathlib.Data.Prod.Lex

/-!
# Timers

The timers of an event context are a binary heap ordered by deadline and, among equal
deadlines, by age. `kl_timer_fire` takes due timers off the top and runs their callbacks.
A callback may add and cancel timers, and time passes while it runs.
-/

open Reentrant BinaryHeap

/-- `cb` and `user_data` are one value: which callback it is. -/
structure KlTimerEntry where
  deadlineMs : Nat
  cb : Nat
  id : Nat
deriving DecidableEq, Repr

/-- What happened to a timer. -/
inductive TimerEvent where
  | added (e : KlTimerEntry)
  | cancelled (e : KlTimerEntry)
  /-- The callback is called when the clock shows `now`. -/
  | fired (e : KlTimerEntry) (now : Nat)
deriving DecidableEq, Repr

/-- The part of the event context that the timers use; `timers` has `timer_count` entries.
`clock` is what `kl_monotonic_ms` returns, and `log` is the history of all timers. -/
structure KlEventCtx where
  timers : Array KlTimerEntry := #[]
  timerCap : Nat := 0
  timerNextId : Nat := 0
  clock : Nat
  log : List TimerEvent := []
deriving DecidableEq, Repr

/-! ## The heap -/

def heapBefore (a b : KlTimerEntry) : Bool :=
  if a.deadlineMs ≠ b.deadlineMs then a.deadlineMs < b.deadlineMs else a.id < b.id

def heapSiftUp (entries : Array KlTimerEntry) (idx : Nat) : Array KlTimerEntry :=
  siftUp heapBefore entries.size entries idx

def heapSiftDown (entries : Array KlTimerEntry) (idx : Nat) : Array KlTimerEntry :=
  siftDown heapBefore entries.size entries idx

/-- Deadline first, then age. -/
def heapKey (e : KlTimerEntry) : Nat ×ₗ Nat := toLex (e.deadlineMs, e.id)

theorem heapBefore_reflects : Reflects heapBefore heapKey := by
  intro a b
  rw [heapKey, heapKey, Prod.Lex.toLex_lt_toLex]
  unfold heapBefore
  split
  · next hne =>
    simp only [decide_eq_true_eq]
    exact ⟨.inl, fun h => h.resolve_right fun heq => hne heq.1⟩
  · next heq =>
    have heq := not_not.mp heq
    simp only [decide_eq_true_eq]
    exact ⟨fun h => .inr ⟨heq, h⟩, fun h => h.elim (fun hlt => absurd heq hlt.ne) (·.2)⟩

namespace KlEventCtx

/-! ## The operations -/

def timerInitCap : Nat := 8

def timerNewCap (cap : Nat) : Nat := if cap = 0 then timerInitCap else cap * 2

variable (s : KlEventCtx)

/-- Room for one more entry; `room` is the answer of the allocator. -/
def timerGrow (room : Bool) : Option KlEventCtx :=
  if s.timerCap ≤ s.timers.size then
    -- an int that wrapped is below the old capacity
    if INT_MAX < timerNewCap s.timerCap then none
    else if room then some { s with timerCap := timerNewCap s.timerCap } else none
  else some s

def timerDeadline (now delayMs : Nat) : Nat :=
  if UINT64_MAX - now < delayMs then UINT64_MAX else now + delayMs

def timerAdd (delayMs : Nat) (cb : Option Nat) (room : Bool) : KlEventCtx × Option Nat :=
  match cb with
  | none => (s, none)
  | some cb =>
    match s.timerGrow room with
    | none => (s, none)
    | some s =>
      let e : KlTimerEntry :=
        { deadlineMs := timerDeadline s.clock delayMs, cb, id := s.timerNextId }
      ({ s with
          timers := heapSiftUp (s.timers.push e) s.timers.size
          timerNextId := s.timerNextId + 1
          log := s.log ++ [.added e] },
        some s.timerNextId)

/-- The entry at `idx` leaves the heap. -/
def heapRemove (timers : Array KlTimerEntry) (idx : Nat) : Array KlTimerEntry :=
  let left := fillWithLast timers idx
  if idx < left.size then heapSiftDown (heapSiftUp left idx) idx else left

def timerCancel (timerId : Nat) : KlEventCtx × Bool :=
  match s.timers.toList.findIdx? (·.id == timerId) with
  | none => (s, false)
  | some idx =>
    match s.timers[idx]? with
    | none => (s, false)
    | some e => ({ s with timers := heapRemove s.timers idx, log := s.log ++ [.cancelled e] }, true)

/-- The context as a call of `kl_timer_fire` finds it. -/
structure Entered where
  timers : List KlTimerEntry
  now : Nat
  log : List TimerEvent
  watermark : Nat
deriving DecidableEq, Repr

/-- A call of `kl_timer_fire` inside the callback of `timer`. -/
structure Firing where
  since : Entered
  fired : Nat
  timer : KlTimerEntry
deriving DecidableEq, Repr

inductive TimerOp where
  | add (delayMs : Nat) (cb : Option Nat) (room : Bool)
  | cancel (timerId : Nat)
  | fire
  /-- The clock moves on. -/
  | elapse (now : Nat)
deriving DecidableEq, Repr

inductive TimerResult where
  | added (id : Option Nat)
  | cancelled (found : Bool)
  | fired (n : Nat) (since : Entered)
  | elapsed
deriving DecidableEq, Repr

/-- The first entry leaves the heap. -/
def heapPop (timers : Array KlTimerEntry) : Array KlTimerEntry :=
  let left := fillWithLast timers 0
  if 0 < left.size then heapSiftDown left 0 else left

/-- The head of the loop of `kl_timer_fire`, which reads the clock before it. -/
def fireNext (since : Entered) (fired : Nat) : Out KlEventCtx Firing TimerResult :=
  match s.timers[0]? with
  | none => .done s (.fired fired since)
  | some top =>
    if top.deadlineMs ≤ s.clock ∧ top.id < since.watermark then
      .call { s with timers := heapPop s.timers, log := s.log ++ [.fired top s.clock] }
        { since, fired, timer := top }
    else .done s (.fired fired since)

def entered : Entered :=
  { timers := s.timers.toList, now := s.clock, log := s.log, watermark := s.timerNextId }

def timerFire : Out KlEventCtx Firing TimerResult :=
  if s.timers.size = 0 then .done s (.fired 0 s.entered) else s.fireNext s.entered 0

def machine : Machine KlEventCtx TimerOp Firing Unit TimerResult where
  enter op s :=
    match op with
    | .add delayMs cb room =>
      let (s, id) := s.timerAdd delayMs cb room
      .done s (.added id)
    | .cancel timerId =>
      let (s, found) := s.timerCancel timerId
      .done s (.cancelled found)
    | .fire => s.timerFire
    | .elapse now => .done { s with clock := now } .elapsed
  resume f _ s := s.fireNext f.since (f.fired + 1)

/-- Callbacks add and cancel timers, and the clock, an unsigned 64-bit number of
milliseconds, does not go back. -/
def Steady (c : Config KlEventCtx TimerOp Firing Unit TimerResult) : Act TimerOp Unit → Prop
  | .call .fire => c.stack = []
  | .call (.elapse now) => c.state.clock ≤ now ∧ now ≤ UINT64_MAX
  | .call (.add _ _ _) => True
  | .call (.cancel _) => True
  | .ret _ => True

instance (c : Config KlEventCtx TimerOp Firing Unit TimerResult) (a : Act TimerOp Unit) :
    Decidable (Steady c a) := by
  unfold Steady
  split <;> exact inferInstance

/-! ## What the operations do to the heap -/

/-- The array is a heap. -/
def Heaped : Prop := Ordered (rank heapKey s.timers)

/-- A timer came into the heap. -/
structure Adds (s : KlEventCtx) (e : KlTimerEntry) (s' : KlEventCtx) : Prop where
  heap : s'.Heaped
  perm : s'.timers.toList.Perm (e :: s.timers.toList)
  log : s'.log = s.log ++ [.added e]
  clock : s'.clock = s.clock
  id : e.id = s.timerNextId
  nextId : s'.timerNextId = s.timerNextId + 1
  deadline : s.clock ≤ e.deadlineMs

/-- A timer left the heap. -/
structure Drops (s : KlEventCtx) (e : KlTimerEntry) (ev : TimerEvent) (s' : KlEventCtx) : Prop where
  heap : s'.Heaped
  perm : s.timers.toList.Perm (e :: s'.timers.toList)
  log : s'.log = s.log ++ [ev]
  clock : s'.clock = s.clock
  nextId : s'.timerNextId = s.timerNextId

variable {s : KlEventCtx} {timers : Array KlTimerEntry}

theorem timerDeadline_eq {now : Nat} (h : now ≤ UINT64_MAX) (delayMs : Nat) :
    timerDeadline now delayMs = min (now + delayMs) UINT64_MAX := by
  unfold timerDeadline
  split <;> omega

theorem timerGrow_spec {s' : KlEventCtx} {room : Bool} (h : s.timerGrow room = some s') :
    ∃ cap, s' = { s with timerCap := cap } := by
  unfold timerGrow at h
  split at h
  · split at h
    · cases h
    · split at h
      · exact ⟨_, (Option.some.inj h).symm⟩
      · cases h
  · exact ⟨s.timerCap, (Option.some.inj h).symm⟩

/-- A timer that is added is due after its delay, or at the end of the clock. -/
theorem timerAdd_spec (hs : s.Heaped) (hclock : s.clock ≤ UINT64_MAX) (delayMs : Nat)
    (cb : Option Nat) (room : Bool) : s.timerAdd delayMs cb room = (s, none) ∨ ∃ e s',
      s.timerAdd delayMs cb room = (s', some e.id) ∧ cb = some e.cb ∧
        e.deadlineMs = min (s.clock + delayMs) UINT64_MAX ∧ s.Adds e s' := by
  unfold timerAdd
  split
  · exact .inl rfl
  split
  · exact .inl rfl
  next cb _ _ hgrow =>
  obtain ⟨cap, rfl⟩ := timerGrow_spec hgrow
  have hdeadline := timerDeadline_eq hclock delayMs
  refine .inr ⟨{ deadlineMs := timerDeadline s.clock delayMs, cb, id := s.timerNextId }, _, rfl,
    rfl, hdeadline, ?_, ?_, rfl, rfl, rfl, rfl, ?_⟩
  · exact push_ordered heapBefore_reflects hs _ (by simp)
  · exact push_perm _ _ _
  · show s.clock ≤ timerDeadline s.clock delayMs
    omega

theorem heapSiftDown_perm (xs : Array KlTimerEntry) (idx : Nat) :
    (heapSiftDown xs idx).toList.Perm xs.toList :=
  siftDown_perm _ _ _

theorem heapSiftUp_perm (xs : Array KlTimerEntry) (idx : Nat) :
    (heapSiftUp xs idx).toList.Perm xs.toList :=
  siftUp_perm _ _ _

theorem heapRemove_perm {idx : Nat} (hidx : idx < timers.size) :
    timers.toList.Perm (timers[idx] :: (heapRemove timers idx).toList) := by
  refine (fillWithLast_perm hidx).trans (List.Perm.cons _ ?_)
  unfold heapRemove
  simp only
  split
  · exact ((heapSiftDown_perm _ _).trans (heapSiftUp_perm _ _)).symm
  · exact List.Perm.refl _

theorem heapRemove_ordered {idx : Nat} (h : Ordered (rank heapKey timers))
    (hidx : idx < timers.size) : Ordered (rank heapKey (heapRemove timers idx)) := by
  unfold heapRemove
  simp only
  split
  · next hlt =>
    unfold heapSiftDown heapSiftUp
    rw [size_siftUp]
    exact sift_both_ordered heapBefore_reflects (Nat.le_refl _) hlt (fillWithLast_offAt h hidx)
  · next hge => exact fillWithLast_ordered h hidx (Nat.le_of_not_lt hge)

/-- The timer of the number leaves the heap. -/
theorem timerCancel_spec (hs : s.Heaped) (timerId : Nat) :
    s.timerCancel timerId = (s, false) ∨ ∃ e s',
    s.timerCancel timerId = (s', true) ∧ e.id = timerId ∧ s.Drops e (.cancelled e) s' := by
  unfold timerCancel
  split
  · exact .inl rfl
  next idx hfind =>
  split
  · exact .inl rfl
  · next e he =>
    obtain ⟨hidx, rfl⟩ := Array.getElem?_eq_some_iff.mp he
    obtain ⟨_, hid, -⟩ := List.findIdx?_eq_some_iff_getElem.mp hfind
    exact .inr ⟨_, _, rfl, by simpa using hid, heapRemove_ordered hs hidx, heapRemove_perm hidx,
      rfl, rfl, rfl⟩

theorem heapPop_perm (h : 0 < timers.size) :
    timers.toList.Perm (timers[0] :: (heapPop timers).toList) := by
  refine (fillWithLast_perm h).trans (List.Perm.cons _ ?_)
  unfold heapPop
  simp only
  split
  · exact (heapSiftDown_perm _ _).symm
  · exact List.Perm.refl _

theorem heapPop_ordered (h : Ordered (rank heapKey timers)) (hpos : 0 < timers.size) :
    Ordered (rank heapKey (heapPop timers)) := by
  unfold heapPop
  simp only
  split
  · next hlt =>
    exact siftDown_ordered heapBefore_reflects (by omega) hlt
      ⟨fillWithLast_offAt h hpos, fun hzero => absurd hzero (Nat.lt_irrefl 0)⟩
  · next hge => exact fillWithLast_ordered h hpos (Nat.le_of_not_lt hge)

/-- The timer at the root comes first. -/
theorem Heaped.root_le (hs : s.Heaped) {top t : KlTimerEntry} (htop : s.timers[0]? = some top)
    (ht : t ∈ s.timers.toList) : heapKey top ≤ heapKey t := by
  obtain ⟨i, hi, rfl⟩ := List.mem_iff_getElem.mp ht
  have hle := Ordered.root_le hs i
  rw [rank_of_lt hi] at hle
  simp only [rank, htop, WithTop.coe_le_coe] at hle
  simpa using hle

/-- What the head of the loop finds: a timer that is due and first, or a first timer that is
not for this call. -/
theorem fireNext_spec (hs : s.Heaped) (since : Entered) (fired : Nat) :
    (∃ s' e, s.fireNext since fired = .call s' ⟨since, fired, e⟩ ∧ s.Drops e (.fired e s.clock) s' ∧
        e.deadlineMs ≤ s.clock ∧ e.id < since.watermark ∧ ∀ t ∈ s.timers.toList,
        heapKey e ≤ heapKey t) ∨
      (s.fireNext since fired = .done s (.fired fired since) ∧
        ∀ t ∈ s.timers.toList, ∃ top ∈ s.timers.toList, heapKey top ≤ heapKey t ∧
          (top.deadlineMs ≤ s.clock → since.watermark ≤ top.id)) := by
  unfold fireNext
  split
  · next hnone =>
    refine .inr ⟨rfl, fun t ht => ?_⟩
    have hsize : s.timers.size = 0 := by simpa using hnone
    rw [Array.toList_eq_nil_iff.mpr (Array.size_eq_zero_iff.mp hsize)] at ht
    cases ht
  rename_i top htop
  obtain ⟨hpos, hget⟩ := Array.getElem?_eq_some_iff.mp htop
  have hfirst : ∀ t ∈ s.timers.toList, heapKey top ≤ heapKey t := fun t => hs.root_le htop
  split
  · next hdue =>
    have hperm := heapPop_perm hpos
    rw [hget] at hperm
    exact .inl ⟨_, top, rfl, ⟨heapPop_ordered hs hpos, hperm, rfl, rfl, rfl⟩, hdue.1, hdue.2,
      hfirst⟩
  · next hnot =>
    have hmem : top ∈ s.timers.toList := by
      rw [← hget]
      exact Array.getElem_mem_toList hpos
    exact .inr ⟨rfl, fun t ht => ⟨top, hmem, hfirst t ht, fun hdue => not_lt.mp fun hid =>
      hnot ⟨hdue, hid⟩⟩⟩

/-! ## Waiting -/

/-- The conversion of an unsigned 64-bit number to an int. -/
def toInt (n : Nat) : Int := Int.bmod n (2 ^ 32)

def timerNextTimeout (s : KlEventCtx) (maxMs : Int) : Int :=
  match s.timers[0]? with
  | none => maxMs
  | some top =>
    if top.deadlineMs ≤ s.clock then 0
    else
      -- unsigned subtraction
      let rem := (top.deadlineMs + 2 ^ 64 - s.clock) % 2 ^ 64
      if maxMs < 0 then if INT_MAX < rem then INT_MAX else toInt rem
      else if rem < maxMs.toNat then toInt rem else maxMs

theorem toInt_of_le {n : Nat} (h : n ≤ INT_MAX) : toInt n = n := by
  unfold INT_MAX at h
  exact Int.bmod_eq_of_le (by omega) (by omega)

/-- The time to the first deadline, or the cap. -/
theorem timerNextTimeout_eq {top : KlTimerEntry} {maxMs : Int} (htop : s.timers[0]? = some top)
    (hdeadline : top.deadlineMs ≤ UINT64_MAX) (hmax : maxMs ≤ INT_MAX) : s.timerNextTimeout maxMs =
      min ((top.deadlineMs - s.clock : Nat) : Int) (if maxMs < 0 then INT_MAX else maxMs) := by
  simp only [timerNextTimeout, htop]
  split
  · split <;> omega
  have hrem : (top.deadlineMs + 2 ^ 64 - s.clock) % 2 ^ 64 = top.deadlineMs - s.clock := by
    unfold UINT64_MAX at hdeadline
    omega
  rw [hrem]
  split
  · split
    · omega
    · next hle => rw [toInt_of_le (by omega)]; omega
  · split
    · next hlt => rw [toInt_of_le (by omega)]; omega
    · omega

theorem deadlineMs_le {a b : KlTimerEntry} (h : heapKey a ≤ heapKey b) :
    a.deadlineMs ≤ b.deadlineMs := by
  rw [heapKey, heapKey, Prod.Lex.toLex_le_toLex] at h
  omega

/-- The wait ends at the first deadline or before, so that a call of `kl_timer_fire` after it runs
the first timer that is due, late by no more than the wait itself was late. -/
theorem timer_wait_bound (hs : s.Heaped)
    (hdeadline : ∀ t ∈ s.timers.toList, t.deadlineMs ≤ UINT64_MAX)
    (hid : ∀ t ∈ s.timers.toList, t.id < s.timerNextId) (maxMs : Int) (hmax : maxMs ≤ INT_MAX) :
    let wait := s.timerNextTimeout maxMs
    (0 ≤ maxMs → wait ≤ maxMs) ∧ wait ≤ INT_MAX ∧ (wait < 0 ↔ s.timers.toList = [] ∧ maxMs < 0) ∧
      (∀ t ∈ s.timers.toList, s.clock + wait ≤ max s.clock t.deadlineMs) ∧
      ∀ now late : Nat, now ≤ s.clock + wait + late → (∃ t ∈ s.timers.toList, t.deadlineMs ≤ now) →
        ∃ e s' f, e ∈ s.timers.toList ∧ timerFire { s with clock := now } = .call s' f ∧
          s'.log = s.log ++ [.fired e now] ∧ (∀ t ∈ s.timers.toList, e.deadlineMs ≤ t.deadlineMs) ∧
          now ≤ max s.clock e.deadlineMs + late := by
  intro wait
  cases htop : s.timers[0]? with
  | none =>
    have hwait : wait = maxMs := by
      simp only [wait, timerNextTimeout, htop]
    have hnil : s.timers.toList = [] := by simpa using htop
    rw [hwait, hnil]
    exact ⟨fun _ => le_refl _, hmax, by simp, by rintro _ ⟨⟩, by rintro _ _ _ ⟨_, ⟨⟩, _⟩⟩
  | some top =>
    have hmem : top ∈ s.timers.toList := by simpa using Array.mem_of_getElem? htop
    have hfirst (t) (ht : t ∈ s.timers.toList) : top.deadlineMs ≤ t.deadlineMs :=
      deadlineMs_le (hs.root_le htop ht)
    have hwait : wait = _ := timerNextTimeout_eq htop (hdeadline top hmem) hmax
    have hle : s.clock + wait ≤ max s.clock top.deadlineMs := by omega
    refine ⟨by omega, by omega, ?_, fun t ht => ?_, fun now late hnow ⟨t, ht, hdue⟩ => ?_⟩
    · have hne : s.timers.toList ≠ [] := List.ne_nil_of_mem hmem
      simp only [hne, false_and, iff_false]
      omega
    · have := hfirst t ht
      omega
    have hstart : timerFire { s with clock := now } = _ :=
      if_neg (Array.size_pos_of_mem (by simpa using hmem)).ne'
    rw [hstart]
    obtain ⟨s', e, heq, hdrops, -, -, hmin⟩ | ⟨-, hlate⟩ :=
      fireNext_spec (s := { s with clock := now }) hs (entered { s with clock := now }) 0
    · have he : e ∈ s.timers.toList := hdrops.perm.mem_iff.mpr List.mem_cons_self
      refine ⟨e, s', _, he, heq, hdrops.log, fun t ht => deadlineMs_le (hmin t ht), ?_⟩
      have := hfirst e he
      omega
    · obtain ⟨first, hin, hkey, hwatermark⟩ := hlate t ht
      exact absurd (hid first hin) (not_lt.mpr (hwatermark ((deadlineMs_le hkey).trans hdue)))

/-- Three timers, the first of them two milliseconds ahead, at a wait of at most a hundred. -/
theorem timer_wait_bound_three :
    let s : KlEventCtx :=
  { clock := 3, timers := #[⟨5, 1, 0⟩, ⟨9, 2, 1⟩, ⟨7, 3, 2⟩], timerNextId := 3 }
    s.timerNextTimeout 100 = 2 ∧
      (∀ t ∈ s.timers.toList, s.clock + s.timerNextTimeout 100 ≤ max s.clock t.deadlineMs) ∧
      ∃ e s' f, e ∈ s.timers.toList ∧ timerFire { s with clock := 8 } = .call s' f ∧
        s'.log = s.log ++ [.fired e 8] ∧ (∀ t ∈ s.timers.toList, e.deadlineMs ≤ t.deadlineMs) ∧
        8 ≤ max s.clock e.deadlineMs + 3 := by
  intro s
  have hs : s.Heaped := fun i hi => by
    by_cases hlarge : 3 ≤ i
    · exact le_top.trans (rank_of_le hlarge).ge
    · obtain rfl | rfl : i = 1 ∨ i = 2 := by omega
      · exact WithTop.coe_le_coe.mpr (by decide)
      · exact WithTop.coe_le_coe.mpr (by decide)
  have hwait : s.timerNextTimeout 100 = 2 := by decide
  obtain ⟨-, -, -, hbound, hfire⟩ := timer_wait_bound hs (by decide) (by decide) 100 (by decide)
  exact ⟨hwait, hbound, hfire 8 3 (by rw [hwait]; decide) ⟨⟨5, 1, 0⟩, by decide, by decide⟩⟩

end KlEventCtx
