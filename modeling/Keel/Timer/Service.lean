-- SUMMARY: The timer service over whole histories.
import Keel.Timer.Machine
import Mathlib.Data.List.Nodup
import Mathlib.Data.List.Perm.Subperm

/-!
# The timer service

What happened to the timers is read off the calls of a run, their arguments and their
results. Two invariants carry the results. The books say that each timer added is present,
cancelled or fired. While a callback runs, the timers older than the call of
`kl_timer_fire` are accounted for one by one, and every timer that is younger than the
call has a deadline no earlier than the moment of the call.
-/

open Reentrant BinaryHeap List

def TimerEvent.addition : TimerEvent → Option KlTimerEntry
  | .added e => some e
  | _ => none

def TimerEvent.cancellation : TimerEvent → Option KlTimerEntry
  | .cancelled e => some e
  | _ => none

def TimerEvent.firing : TimerEvent → Option KlTimerEntry
  | .fired e _ => some e
  | _ => none

/-- The timers added, cancelled and fired in a history. -/
def addedIn (log : List TimerEvent) : List KlTimerEntry := log.filterMap (·.addition)
def cancelledIn (log : List TimerEvent) : List KlTimerEntry := log.filterMap (·.cancellation)
def firedIn (log : List TimerEvent) : List KlTimerEntry := log.filterMap (·.firing)

@[simp] theorem addedIn_append (l m : List TimerEvent) :
    addedIn (l ++ m) = addedIn l ++ addedIn m :=
  filterMap_append

@[simp] theorem cancelledIn_append (l m : List TimerEvent) :
    cancelledIn (l ++ m) = cancelledIn l ++ cancelledIn m :=
  filterMap_append

@[simp] theorem firedIn_append (l m : List TimerEvent) :
    firedIn (l ++ m) = firedIn l ++ firedIn m :=
  filterMap_append

namespace KlEventCtx

abbrev TimerStep := Step KlEventCtx TimerOp Firing Unit TimerResult
abbrev History := List TimerStep

/-! ## What happened -/

/-- What a stretch of a run did to the timers, by its call and its result. A timer that is added is
due after its delay, or at the end of the clock; the one cancelled is the one that was added with
the number. -/
def happened (log : List TimerEvent) (x : TimerStep) : List TimerEvent :=
  match x.cause, x.out with
  | .enter (.add delayMs (some cb) _), .done _ (.added (some id)) =>
    [.added ⟨min (x.pre.clock + delayMs) UINT64_MAX, cb, id⟩]
  | .enter (.cancel timerId), .done _ (.cancelled true) =>
    (((addedIn log).find? (·.id = timerId)).map .cancelled).toList
  | _, .call _ f => [.fired f.timer x.pre.clock]
  | _, _ => []

def history (tr : History) : List TimerEvent := tr.foldl (fun log x => log ++ happened log x) []

/-- What the calls of `kl_timer_fire` found. -/
def calls (tr : History) : List Entered :=
  tr.filterMap fun x => match x.cause with
    | .enter .fire => some x.pre.entered
    | _ => none

theorem history_snoc (tr : History) (x : TimerStep) :
    history (tr ++ [x]) = history tr ++ happened (history tr) x := by
  simp [history]

/-- Only `kl_timer_fire` is recorded. -/
theorem calls_snoc (tr : History) (x : TimerStep) (h : x.cause ≠ .enter .fire) :
    calls (tr ++ [x]) = calls tr := by
  refine filterMap_append.trans (append_right_eq_self.mpr ?_)
  obtain ⟨pre, cause, out⟩ := x
  cases cause with
  | resume f v => rfl
  | enter op =>
    cases op with
    | fire => exact absurd rfl h
    | add _ _ _ => rfl
    | cancel _ => rfl
    | elapse _ => rfl

/-! ## The books -/

/-- Each timer added is in exactly one place, and no two have the same number. -/
structure Books (s : KlEventCtx) : Prop where
  heap : s.Heaped
  fates : (addedIn s.log).Perm (s.timers.toList ++ cancelledIn s.log ++ firedIn s.log)
  ids : ((addedIn s.log).map (·.id)).Nodup
  below : ∀ e ∈ addedIn s.log, e.id < s.timerNextId
  clock : s.clock ≤ UINT64_MAX

variable {s s' : KlEventCtx} {e : KlTimerEntry} {now : Nat} {stack : List Firing}

theorem Books.start (h : now ≤ UINT64_MAX) : Books { clock := now } where
  heap := fun _ _ => le_top
  fates := List.Perm.refl _
  ids := nodup_nil
  below := fun _ he => nomatch he
  clock := h

/-- A timer in the heap was added. -/
theorem Books.present_added (h : s.Books) (he : e ∈ s.timers.toList) : e ∈ addedIn s.log :=
  h.fates.mem_iff.mpr (mem_append_left _ (mem_append_left _ he))

/-- The timer that was added with a number. -/
theorem Books.find_added (h : s.Books) (he : e ∈ addedIn s.log) :
    (addedIn s.log).find? (·.id = e.id) = some e := by
  cases hfind : (addedIn s.log).find? (·.id = e.id) with
  | none => exact absurd (decide_eq_true rfl) (find?_eq_none.mp hfind e he)
  | some x =>
    have hid : x.id = e.id := by simpa using find?_some hfind
    rw [inj_on_of_nodup_map h.ids (mem_of_find?_eq_some hfind) he hid]

/-- A new timer has a new number. -/
theorem Books.adds (h : s.Books) (ha : s.Adds e s') : s'.Books where
  heap := ha.heap
  fates := by
    rw [ha.log, addedIn_append, cancelledIn_append, firedIn_append]
    show (addedIn s.log ++ [e]).Perm (s'.timers.toList ++ (cancelledIn s.log ++ []) ++
      (firedIn s.log ++ []))
    rw [append_nil, append_nil]
    refine (perm_append_singleton e _).trans ((h.fates.cons e).trans ?_)
    exact (ha.perm.append_right _).append_right _ |>.symm
  ids := by
    have hnew : e.id ∉ (addedIn s.log).map (·.id) := by
      rw [mem_map]
      rintro ⟨e', he', hid⟩
      have := h.below e' he'
      rw [hid, ha.id] at this
      exact absurd this (Nat.lt_irrefl _)
    rw [ha.log, addedIn_append, map_append]
    exact nodup_append'.mpr ⟨h.ids, nodup_singleton _, disjoint_singleton.mpr hnew⟩
  below := by
    rw [ha.log, addedIn_append, ha.nextId]
    intro e' he'
    rcases mem_append.mp he' with hold | hnew
    · exact Nat.lt_succ_of_lt (h.below e' hold)
    · rw [mem_singleton.mp hnew, ha.id]
      exact Nat.lt_succ_self _
  clock := ha.clock ▸ h.clock

variable {ev : TimerEvent} {tr : History}

/-- A timer that left is cancelled or fired. -/
theorem Books.drops (h : s.Books) (hd : s.Drops e ev s') (hev : ev.addition = none)
    (hfates : (e :: (cancelledIn s.log ++ firedIn s.log)).Perm
      (cancelledIn s'.log ++ firedIn s'.log)) : s'.Books := by
  have hsame : addedIn s'.log = addedIn s.log := by simp [hd.log, addedIn, hev]
  constructor
  case heap => exact hd.heap
  case fates =>
    rw [hsame, append_assoc]
    refine h.fates.trans ?_
    rw [append_assoc]
    exact (hd.perm.append_right _).trans (perm_middle.symm.trans (hfates.append_left _))
  case ids => exact hsame ▸ h.ids
  case below => exact hsame ▸ hd.nextId ▸ h.below
  case clock => exact hd.clock ▸ h.clock

theorem Books.cancels (h : s.Books) (hd : s.Drops e (.cancelled e) s') : s'.Books :=
  h.drops hd rfl (by simpa [hd.log, cancelledIn, firedIn, TimerEvent.cancellation,
    TimerEvent.firing] using
    perm_middle.symm)

theorem Books.fires (h : s.Books) (hd : s.Drops e (.fired e now) s') : s'.Books :=
  h.drops hd rfl (by simpa [hd.log, cancelledIn, firedIn, TimerEvent.cancellation,
    TimerEvent.firing] using
    (perm_append_singleton e (cancelledIn s.log ++ firedIn s.log)).symm)

/-- No two timers in the heap have the same number. -/
theorem Books.present_nodup (h : s.Books) : (s.timers.toList.map (·.id)).Nodup := by
  have hall := (h.fates.map (·.id)).nodup_iff.mp h.ids
  rw [map_append, map_append] at hall
  exact (nodup_append.mp (nodup_append.mp hall).1).1

/-! ## One call of `kl_timer_fire` -/

/-- What a call that found `since` has called back when `during` has happened since: each timer
at most once, in order, none early, none that was not there. -/
structure Fires (since : Entered) (during : List TimerEvent) : Prop where
  order : (firedIn during).Pairwise (heapKey · < heapKey ·)
  due : ∀ e now, .fired e now ∈ during → e.deadlineMs ≤ now
  existed : ∀ e ∈ firedIn during, e ∈ since.timers
  bound : (firedIn during).length ≤ since.timers.length

/-- A call that found `since`, with the timers as they are after `during`. -/
structure Under (since : Entered) (during : List TimerEvent) (s : KlEventCtx) : Prop where
  log : s.log = since.log ++ during
  now : since.now ≤ s.clock
  watermark : since.watermark ≤ s.timerNextId
  order : (firedIn during).Pairwise (heapKey · < heapKey ·)
  due : ∀ e now, .fired e now ∈ during → e.deadlineMs ≤ now
  existed : ∀ e ∈ firedIn during, e ∈ since.timers
  ahead : ∀ e ∈ firedIn during, ∀ t ∈ s.timers.toList, t.id < since.watermark →
    heapKey e < heapKey t
  known : ∀ t ∈ s.timers.toList, t.id < since.watermark → t ∈ since.timers
  fates : ∀ t ∈ since.timers, t ∈ s.timers.toList ∨ t ∈ firedIn during ∨ t ∈ cancelledIn during
  old : ∀ t ∈ since.timers, t.id < since.watermark
  late : ∀ t ∈ s.timers.toList, since.watermark ≤ t.id → since.now ≤ t.deadlineMs

variable {since : Entered} {during : List TimerEvent}

/-- A call that has just been made. -/
theorem Under.entered (h : s.Books) : Under s.entered [] s where
  log := (append_nil _).symm
  now := Nat.le_refl _
  watermark := Nat.le_refl _
  order := List.Pairwise.nil
  due := fun _ _ he => nomatch he
  existed := fun _ he => nomatch he
  ahead := fun _ he => nomatch he
  known := fun _ ht _ => ht
  fates := fun _ ht => .inl ht
  old := fun t ht => h.below t (h.present_added ht)
  late := fun t ht hid => absurd (h.below t (h.present_added ht)) (Nat.not_lt.mpr hid)

/-- Different timers that fired are different timers of those found. -/
theorem Under.fires (h : Under since during s) : Fires since during where
  __ := h
  bound := by
    have hnodup : (firedIn during).Nodup :=
      h.order.imp fun hlt heq => absurd (heq ▸ hlt) (lt_irrefl _)
    exact (subperm_of_subset hnodup h.existed).length_le

/-- An event that fires no timer. A timer that came in is younger than the call. -/
theorem Under.quiet (h : Under since during s) (hquiet : ev.firing = none)
    (hlog : s'.log = s.log ++ [ev])
    (hclock : s'.clock = s.clock) (hnext : s.timerNextId ≤ s'.timerNextId)
    (hnew : ∀ t ∈ s'.timers.toList, t ∈ s.timers.toList ∨ since.watermark ≤ t.id ∧
      s.clock ≤ t.deadlineMs)
    (hgone : ∀ t ∈ s.timers.toList, t ∈ s'.timers.toList ∨ ev = .cancelled t) :
    ∃ during', Under since during' s' ∧ firedIn during' = firedIn during := by
  have hfired : firedIn (during ++ [ev]) = firedIn during := by simp [firedIn, hquiet]
  have hyoung : ∀ t ∈ s'.timers.toList, t.id < since.watermark → t ∈ s.timers.toList :=
    fun t ht hid => (hnew t ht).resolve_right fun hn => absurd hid (Nat.not_lt.mpr hn.1)
  refine ⟨during ++ [ev], ?_, hfired⟩
  constructor
  case log => rw [hlog, h.log, append_assoc]
  case now => exact hclock ▸ h.now
  case watermark => exact h.watermark.trans hnext
  case order => exact hfired ▸ h.order
  case due =>
    intro e' now he'
    rcases mem_append.mp he' with hold | hnew
    · exact h.due e' now hold
    · rw [← mem_singleton.mp hnew] at hquiet
      cases hquiet
  case existed => exact hfired ▸ h.existed
  case ahead => exact hfired ▸ fun e' he' t ht hid => h.ahead e' he' t (hyoung t ht hid) hid
  case known => exact fun t ht hid => h.known t (hyoung t ht hid) hid
  case fates =>
    rw [hfired, cancelledIn_append]
    intro t ht
    rcases h.fates t ht with hpresent | hgone' | hgone'
    · rcases hgone t hpresent with hstill | rfl
      · exact .inl hstill
      · exact .inr (.inr (mem_append_right _ mem_cons_self))
    · exact .inr (.inl hgone')
    · exact .inr (.inr (mem_append_left _ hgone'))
  case old => exact h.old
  case late =>
    intro t ht hid
    rcases hnew t ht with hold | ⟨-, hlate⟩
    · exact h.late t hold hid
    · exact h.now.trans hlate

/-- A timer added by a callback is younger than the call. -/
theorem Under.adds (h : Under since during s) (ha : s.Adds e s') :
    ∃ during', Under since during' s' ∧ firedIn during' = firedIn during := by
  refine h.quiet rfl ha.log ha.clock (ha.nextId ▸ Nat.le_succ _) (fun t ht => ?_) fun t ht => ?_
  · rcases mem_cons.mp (ha.perm.mem_iff.mp ht) with rfl | hold
    · exact .inr ⟨ha.id ▸ h.watermark, ha.deadline⟩
    · exact .inl hold
  · exact .inl (ha.perm.mem_iff.mpr (mem_cons_of_mem _ ht))

/-- A timer cancelled by a callback. -/
theorem Under.cancels (h : Under since during s) (hd : s.Drops e (.cancelled e) s') :
    ∃ during', Under since during' s' ∧ firedIn during' = firedIn during := by
  refine h.quiet rfl hd.log hd.clock hd.nextId.ge (fun t ht => ?_) fun t ht => ?_
  · exact .inl (hd.perm.mem_iff.mpr (mem_cons_of_mem _ ht))
  · rcases mem_cons.mp (hd.perm.mem_iff.mp ht) with rfl | hstill
    · exact .inr rfl
    · exact .inl hstill

/-- Two timers with the same key are the same one. -/
theorem heapKey_inj_on (hs : (s.timers.toList.map (·.id)).Nodup) {t : KlTimerEntry}
    (he : e ∈ s.timers.toList) (ht : t ∈ s.timers.toList) (h : heapKey e = heapKey t) : e = t := by
  have hid : e.id = t.id := congrArg (fun k : Nat ×ₗ Nat => (ofLex k).2) h
  exact inj_on_of_nodup_map hs he ht hid

/-- The call runs the first timer that is due. -/
theorem Under.callsBack (hb : s.Books) (h : Under since during s)
    (hd : s.Drops e (.fired e s.clock) s')
    (hdue : e.deadlineMs ≤ s.clock) (hid : e.id < since.watermark)
    (hfirst : ∀ t ∈ s.timers.toList, heapKey e ≤ heapKey t) :
    Under since (during ++ [.fired e s.clock]) s' := by
  have hfired : firedIn (during ++ [.fired e s.clock]) = firedIn during ++ [e] := firedIn_append _ _
  have hcancelled : cancelledIn (during ++ [.fired e s.clock]) = cancelledIn during := by
    rw [cancelledIn_append]
    exact append_nil _
  have hkept : ∀ t ∈ s'.timers.toList, t ∈ s.timers.toList :=
    fun t ht => hd.perm.mem_iff.mpr (mem_cons_of_mem _ ht)
  have hpresent : e ∈ s.timers.toList := hd.perm.mem_iff.mpr mem_cons_self
  -- the timer that fires is not among those left
  have hgone : e ∉ s'.timers.toList := by
    intro hin
    have hnodup := (hd.perm.map (·.id)).nodup_iff.mp hb.present_nodup
    exact (nodup_cons.mp hnodup).1 (mem_map_of_mem hin)
  constructor
  case log => rw [hd.log, h.log, append_assoc]
  case now => exact hd.clock ▸ h.now
  case watermark => exact hd.nextId ▸ h.watermark
  case order =>
    rw [hfired, pairwise_append]
    refine ⟨h.order, pairwise_singleton _ _, fun e' he' t ht => ?_⟩
    rw [mem_singleton.mp ht]
    exact h.ahead e' he' e hpresent hid
  case due =>
    intro e' now he'
    rcases mem_append.mp he' with hold | hnew
    · exact h.due e' now hold
    · cases mem_singleton.mp hnew
      exact hdue
  case existed =>
    rw [hfired]
    intro e' he'
    rcases mem_append.mp he' with hold | hnew
    · exact h.existed e' hold
    · rw [mem_singleton.mp hnew]
      exact h.known e hpresent hid
  case ahead =>
    rw [hfired]
    intro e' he' t ht htid
    rcases mem_append.mp he' with hold | hnew
    · exact h.ahead e' hold t (hkept t ht) htid
    · rw [mem_singleton.mp hnew]
      refine lt_of_le_of_ne (hfirst t (hkept t ht)) fun heq => hgone ?_
      rwa [heapKey_inj_on hb.present_nodup hpresent (hkept t ht) heq]
  case known => exact fun t ht htid => h.known t (hkept t ht) htid
  case fates =>
    rw [hfired, hcancelled]
    intro t ht
    rcases h.fates t ht with hin | hin | hin
    · rcases mem_cons.mp (hd.perm.mem_iff.mp hin) with rfl | hstill
      · exact .inr (.inl (mem_append_right _ mem_cons_self))
      · exact .inl hstill
    · exact .inr (.inl (mem_append_left _ hin))
    · exact .inr (.inr hin)
  case old => exact h.old
  case late => exact fun t ht htid => h.late t (hkept t ht) htid

/-- What a call that returns `n` leaves: the callbacks it made, and no timer behind that was due
when it was made. -/
def Served (since : Entered) (n : Nat) (s : KlEventCtx) : Prop :=
  ∃ during, s.log = since.log ++ during ∧ Fires since during ∧ n = (firedIn during).length ∧
    ∀ t ∈ since.timers, t.deadlineMs ≤ since.now → t ∈ firedIn during ∨ t ∈ cancelledIn during

/-- The loop ends at a timer that is not due or younger than the call. Any timer due on entry
comes before both kinds. -/
theorem Under.served (h : Under since during s)
    (hstop : ∀ t ∈ s.timers.toList, ∃ top ∈ s.timers.toList, heapKey top ≤ heapKey t ∧
      (top.deadlineMs ≤ s.clock → since.watermark ≤ top.id)) :
    Served since (firedIn during).length s := by
  refine ⟨during, h.log, h.fires, rfl, fun t ht hdue => (h.fates t ht).resolve_left fun hin => ?_⟩
  obtain ⟨top, htop, hle, hyoung⟩ := hstop t hin
  have hnow := h.now
  have hold := h.old t ht
  rw [heapKey, heapKey, Prod.Lex.toLex_le_toLex] at hle
  have hdead : top.deadlineMs ≤ t.deadlineMs :=
    hle.elim Nat.le_of_lt (fun heq => Nat.le_of_eq heq.1)
  have htopid := hyoung (by omega)
  have hlate := h.late top htop htopid
  rcases hle with hlt | ⟨-, hid⟩
  · simp only at hlt
    omega
  · simp only at hid
    omega

/-! ## Histories -/

/-- The call in progress. -/
def Progress (s : KlEventCtx) (stack : List Firing) : Prop :=
  stack = [] ∨ ∃ f during, stack = [f] ∧ Under f.since during s ∧
    (firedIn during).length = f.fired + 1

/-- The calls of `kl_timer_fire` that have returned, each with what it found. -/
def Returned (tr : History) : Prop :=
  ∀ before x, before ++ [x] <+: tr → ∀ n since, x.out.result = some (.fired n since) →
    (calls (before ++ [x])).getLast? = some since ∧ Served since n x.out.state

structure Inv (tr : History) (s : KlEventCtx) (stack : List Firing) : Prop where
  books : s.Books
  log : s.log = history tr
  progress : s.Progress stack
  found : ∀ f ∈ stack, (calls tr).getLast? = some f.since
  returned : Returned tr

/-- One more stretch of the history. -/
theorem Returned.snoc {tr : History} (h : Returned tr) {x : TimerStep}
    (hx : ∀ n since, x.out.result = some (.fired n since) →
      (calls (tr ++ [x])).getLast? = some since ∧ Served since n x.out.state) : Returned
      (tr ++ [x]) := by
  intro before y hy
  rcases prefix_concat_iff.mp hy with heq | hold
  · obtain ⟨rfl, hlast⟩ := append_inj' heq rfl
    rw [singleton_inj.mp hlast]
    exact hx
  · exact h before y hold

/-- The head of the loop, entered or resumed. -/
theorem fireNext_inv {n : Nat} {cause : Cause TimerOp Firing Unit} (hb : s.Books)
    (hlog : s.log = history tr) (hr : Returned tr)
    (hcause : ∀ op, cause = .enter op → op = .fire)
    (hfound : (calls (tr ++ [⟨s, cause, s.fireNext since n⟩])).getLast? = some since)
    (h : Under since during s) (hn : (firedIn during).length = n) :
    Inv (tr ++ [⟨s, cause, s.fireNext since n⟩]) (s.fireNext since n).state
      ((s.fireNext since n).stack []) := by
  have hcall (s' f) : happened (history tr) ⟨s, cause, .call s' f⟩ = [.fired f.timer s.clock] := by
    cases cause with
    | resume g v => rfl
    | enter op => obtain rfl := hcause op rfl; rfl
  have hdone (s' r) : happened (history tr) ⟨s, cause, .done s' r⟩ = [] := by
    cases cause with
    | resume g v => rfl
    | enter op => obtain rfl := hcause op rfl; rfl
  rcases fireNext_spec hb.heap since n with ⟨s', e, heq, hd, hdue, hid, hfirst⟩ | ⟨heq, hstop⟩
  · rw [heq] at hfound ⊢
    refine ⟨hb.fires hd, ?_, .inr ⟨_, _, rfl, h.callsBack hb hd hdue hid hfirst, ?_⟩, fun f hf =>
      ?_, hr.snoc (fun _ _ hres => nomatch hres)⟩
    · rw [Out.state_call, hd.log, history_snoc, hcall, hlog]
    · rw [firedIn_append, length_append, hn]
      rfl
    · rw [mem_singleton.mp hf]
      exact hfound
  · rw [heq] at hfound ⊢
    refine ⟨hb, ?_, .inl rfl, nofun, hr.snoc fun m since' hres => ?_⟩
    · rw [Out.state_done, history_snoc, hdone, append_nil]
      exact hlog
    · cases hres
      refine ⟨hfound, ?_⟩
      rw [← hn]
      exact h.served hstop

/-- An operation that does not call back. -/
theorem Inv.plain {op : TimerOp} {r : TimerResult} (h : Inv tr s stack)
    (hop : op ≠ .fire) (hr : ∀ n since, r ≠ .fired n since) (hb : s'.Books)
    (hlog : s'.log = s.log ++ happened s.log ⟨s, .enter op, .done s' r⟩) (hp : s'.Progress stack) :
    Inv (tr ++ [⟨s, .enter op, .done s' r⟩]) s' stack := by
  refine ⟨hb, ?_, hp, fun f hf => ?_, h.returned.snoc fun n since hres => ?_⟩
  · rw [hlog, history_snoc, ← h.log]
  · rw [calls_snoc _ _ fun heq => hop (Cause.enter.inj heq)]
    exact h.found f hf
  · exact absurd (Option.some.inj hres) (hr n since)

/-- The callback adds and cancels. -/
theorem Progress.quiet (h : s.Progress stack) (hu : ∀ {since during}, Under since during s →
    ∃ during', Under since during' s' ∧ firedIn during' = firedIn during) : s'.Progress stack := by
  rcases h with hempty | ⟨f, during, hstack, h, hn⟩
  · exact .inl hempty
  · obtain ⟨during', h', hfired⟩ := hu h
    exact .inr ⟨f, during', hstack, h', hfired ▸ hn⟩

/-- Every stretch keeps the invariant. -/
theorem inv_preserved : machine.Preserves Steady Inv where
  enter tr s st op h hp := by
    cases op with
    | add delayMs cb room =>
      simp only [machine]
      rcases timerAdd_spec h.books.heap h.books.clock delayMs cb room with
        heq | ⟨e, s', heq, rfl, hdead, ha⟩
      · rw [heq]
        refine h.plain nofun nofun h.books ?_ h.progress
        cases cb <;> exact (append_nil _).symm
      · rw [heq]
        refine h.plain nofun nofun (h.books.adds ha) ?_ (h.progress.quiet (·.adds ha))
        rw [ha.log]
        show _ = s.log ++ [.added ⟨min (s.clock + delayMs) UINT64_MAX, e.cb, e.id⟩]
        rw [← hdead]
    | cancel timerId =>
      simp only [machine]
      rcases timerCancel_spec h.books.heap timerId with heq | ⟨e, s', heq, rfl, hd⟩
      · rw [heq]
        exact h.plain nofun nofun h.books (append_nil _).symm h.progress
      · rw [heq]
        refine h.plain nofun nofun (h.books.cancels hd) ?_ (h.progress.quiet (·.cancels hd))
        have hadded : e ∈ addedIn s.log := h.books.present_added (hd.perm.mem_iff.mpr mem_cons_self)
        rw [hd.log]
        show _ = s.log ++ (((addedIn s.log).find? (·.id = e.id)).map .cancelled).toList
        rw [h.books.find_added hadded]
        rfl
    | elapse now =>
      exact h.plain nofun nofun { h.books with clock := hp.2 } (append_nil _).symm
        (h.progress.quiet fun hu => ⟨_, { hu with now := hu.now.trans hp.1 }, rfl⟩)
    | fire =>
      obtain rfl : st = [] := hp
      have hfound (o : Out KlEventCtx Firing TimerResult) :
          (calls (tr ++ [⟨s, .enter .fire, o⟩])).getLast? = some s.entered := by simp [calls]
      show Inv (tr ++ [⟨s, .enter .fire, s.timerFire⟩]) s.timerFire.state (s.timerFire.stack [])
      unfold timerFire
      split
      · next hzero =>
        refine ⟨h.books, ?_, .inl rfl, forall_mem_nil _, h.returned.snoc fun n since hres => ?_⟩
        · rw [history_snoc]
          exact h.log.trans (append_nil _).symm
        cases hres
        refine ⟨hfound _, (Under.entered h.books).served fun t ht => ?_⟩
        rw [Array.toList_eq_nil_iff.mpr (Array.size_eq_zero_iff.mp hzero)] at ht
        cases ht
      · exact fireNext_inv h.books h.log h.returned (fun op heq => (Cause.enter.inj heq).symm)
          (hfound _)
          (Under.entered h.books) rfl
  resume tr s st f v h _ := by
    have hfound := h.found f mem_cons_self
    rcases h.progress with hempty | ⟨f', during, hstack, hu, hn⟩
    · cases hempty
    · cases hstack
      refine fireNext_inv h.books h.log h.returned nofun ?_ hu hn
      exact (congrArg getLast? (calls_snoc tr ⟨s, .resume f v, _⟩ nofun)).trans hfound

theorem inv_of_reach (hnow : now ≤ UINT64_MAX)
    {c : Config KlEventCtx TimerOp Firing Unit TimerResult}
    (hc : machine.Reach Steady { clock := now } c) : Inv c.trace c.state c.stack :=
  hc.invariant ⟨.start hnow, rfl, .inl rfl, nofun, fun before x h =>
    by simpa using h.length_le⟩ inv_preserved

/-- In every history the timers present are those added and neither cancelled nor fired, in a
heap, where what was added, cancelled and fired is read off the calls; a call of `kl_timer_fire`
that is inside a callback has made the callbacks of `Fires`; and one that returned has served every
timer that was due when it was made. -/
theorem timer_service {now : Nat} (hnow : now ≤ UINT64_MAX)
    {c : Config KlEventCtx TimerOp Firing Unit TimerResult}
    (hc : machine.Reach Steady { clock := now } c) : c.state.log = history c.trace ∧
    ((addedIn c.state.log).Perm (c.state.timers.toList ++ cancelledIn c.state.log ++
      firedIn c.state.log) ∧
        ((addedIn c.state.log).map (·.id)).Nodup ∧ Ordered (rank heapKey c.state.timers)) ∧
      (∀ f ∈ c.stack, (calls c.trace).getLast? = some f.since ∧
        ∃ during, c.state.log = f.since.log ++ during ∧ Fires f.since during) ∧
      ∀ before x, before ++ [x] <+: c.trace → ∀ n since, x.out.result = some (.fired n since) →
        (calls (before ++ [x])).getLast? = some since ∧ Served since n x.out.state := by
  have h := inv_of_reach hnow hc
  refine ⟨h.log, ⟨h.books.fates, h.books.ids, h.books.heap⟩, fun f hf => ⟨h.found f hf, ?_⟩,
    h.returned⟩
  rcases h.progress with hempty | ⟨f', during, hstack, hu, -⟩
  · rw [hempty] at hf
    cases hf
  · rw [hstack] at hf
    obtain rfl := mem_singleton.mp hf
    exact ⟨during, hu.log, hu.fires⟩

/-- Two timers fire in one call. The callback of the first adds a timer that is due at once and
cancels a third one that was due. -/
def twoFire : List (Act TimerOp Unit) :=
  [.call (.add 3 (some 1) true), .call (.add 1 (some 2) true), .call (.add 2 (some 3) true),
    .call (.elapse 9), .call .fire, .call (.add 0 (some 2) true), .call (.cancel 2), .ret (),
      .ret ()]

/-- The call of `twoFire` serves two timers, and the log tells what happened. -/
theorem timer_service_callback :
    ∃ c, machine.run Steady (Machine.start { clock := 5 }) twoFire = some c ∧
    history c.trace = [.added ⟨8, 1, 0⟩, .added ⟨6, 2, 1⟩, .added ⟨7, 3, 2⟩, .fired ⟨6, 2, 1⟩ 9,
      .added ⟨9, 2, 3⟩, .cancelled ⟨7, 3, 2⟩, .fired ⟨8, 1, 0⟩ 9] ∧
    c.state.log = history c.trace ∧ ∃ since, Served since 2 c.state := by
  obtain ⟨c, x, since, hrun, hx, hres, hlog⟩ : ∃ c x since,
      machine.run Steady (Machine.start { clock := 5 }) twoFire = some c ∧
        c.trace.getLast? = some x ∧
      x.out.result = some (.fired 2 since) ∧ history c.trace =
        [.added ⟨8, 1, 0⟩, .added ⟨6, 2, 1⟩, .added ⟨7, 3, 2⟩, .fired ⟨6, 2, 1⟩ 9,
          .added ⟨9, 2, 3⟩, .cancelled ⟨7, 3, 2⟩, .fired ⟨8, 1, 0⟩ 9] :=
    ⟨_, _, _, rfl, rfl, rfl, by decide⟩
  have hc := Machine.Reach.run .start hrun
  obtain ⟨hbooks, -, -, hserved⟩ := timer_service (by decide) hc
  refine ⟨c, hrun, hlog, hbooks, since, ?_⟩
  rw [hc.state_of_last hx]
  have hlast : c.trace.dropLast ++ [x] <+: c.trace :=
    (dropLast_append_getLast? x hx).symm ▸ List.prefix_rfl
  exact (hserved _ x hlast 2 since hres).2

end KlEventCtx
