-- SUMMARY: No wakeup is lost, and the pool's own steps come to an end.
import Keel.ThreadPool.Outcomes

/-!
# Threads

The flags of the pool say where the loop thread is. A worker waits only while there is nothing to
take, and a result in the done queue is on its way to the loop thread.
-/

open List Option

namespace ThreadPool

open Interleaved

def Loop.destroying : Loop → Bool
  | .joining | .drain _ | .cancel _ | .freed => true
  | _ => false

def Loop.dispatching : Loop → Bool
  | .done _ => true
  | _ => false

def Loop.cancelling : Loop → Bool
  | .cancel _ | .freed => true
  | _ => false

variable {l : Loop}

theorem Loop.not_cancelling (h : l.disposing = false) : l.cancelling = false ∧ l ≠ .freed := by
  cases l <;> simp_all [Loop.disposing, Loop.cancelling]

theorem Loop.not_disposing (h : l.destroying = false) : l.disposing = false := by
  cases l <;> simp_all [Loop.disposing, Loop.destroying]

theorem Loop.of_disposing (h : l.disposing = true) :
    l.destroying = true ∧ l.dispatching = false ∧ l ≠ .idle := by
  cases l <;> simp_all [Loop.disposing, Loop.destroying, Loop.dispatching]

/-- The loop is in one place at a time. -/
theorem Loop.not_dispatching (h : l.destroying = true) : l.dispatching = false := by
  cases l <;> simp_all [Loop.destroying, Loop.dispatching]

namespace KlThreadPool

structure Control (s : KlThreadPool) : Prop where
  destroying : s.destroying = s.loop.destroying
  shutdown : s.shutdown = s.loop.destroying
  dispatching : s.dispatching = s.loop.dispatching
  requested : s.freeRequested = true → s.loop ≠ .idle
  watched : s.loop.destroying = false → s.freeRequested = false → s.watched = true
  unwatched : s.disposing = true → s.watched = false
  waiting : s.shutdown = true → .waiting ∉ s.workers
  exited : .exited ∈ s.workers → s.shutdown = true
  joined : s.disposing = true → ∀ t ∈ s.workers, t = .exited
  some : s.workers ≠ []
  awake : 0 < s.workQueue.count → ∃ t ∈ s.workers, t ≠ .waiting
  wake : 0 < s.doneQueue.count → s.loop = .idle → s.wakeup = true ∨ .signalling ∈ s.workers
  cancelling : s.loop.cancelling = true → s.doneQueue.count = 0
  freed : s.loop = .freed → s.workQueue.count = 0

variable {s s' : KlThreadPool} {Q F : List Job} {stage : Nat → Stage} {job : Job} {t : Worker}
  {dq wq : Cyclic Job} {log : List Event} {wakeup dispatching : Bool} {ws : List Worker}
  {inflight : Int} {loop : Loop}

/-- Nothing is disposed of while a worker is there. -/
theorem Control.not_disposing (h : s.Control) (ht : t ∈ s.workers)
    (hlive : t ≠ .exited) : s.disposing = false := by
  by_contra hd
  exact hlive (h.joined (Bool.eq_true_of_not_eq_false hd) t ht)

/-- A step of one worker. -/
theorem Control.work (h : s.Control) {i : Nat} {t' : Worker} (ht : s.workers[i]? = Option.some t)
    (hlive : t ≠ .exited)
    (hwait : t' = .waiting → s.shutdown = false ∧ wq.count = 0)
    (hexit : t' = .exited → s.shutdown = true)
    (hwake : wakeup = true ∨ t' = .signalling ∨ (t ≠ .signalling ∧ wakeup = s.wakeup ∧
      dq.count = s.doneQueue.count)) :
    Control { s with workQueue := wq, doneQueue := dq, wakeup, workers := s.workers.set i t',
                     log } := by
  have hopen : s.loop.disposing = false := h.not_disposing (mem_of_getElem? ht) hlive
  obtain ⟨hearly, hthere⟩ := Loop.not_cancelling hopen
  obtain ⟨rest, hold, hnew⟩ := set_perm ht
  have hin : ∀ u, u ∈ s.workers.set i t' ↔ u = t' ∨ u ∈ rest := fun u =>
    (hnew t').mem_iff.trans mem_cons
  have hwas : ∀ u, u ∈ s.workers ↔ u = t ∨ u ∈ rest := fun u => hold.mem_iff.trans mem_cons
  have hself := (hin t').mpr (.inl rfl)
  exact { h with
    waiting := by grind [h.waiting]
    exited := by grind [h.exited]
    joined := by grind [disposing]
    some := ne_nil_of_mem hself
    awake := fun hc => ⟨t', hself, by grind⟩
    wake := by grind [h.wake]
    cancelling := by grind
    freed := by grind }

/-- A signal leaves a worker that is awake. -/
theorem condSignal_awake (hsome : ws ≠ []) (i : Nat) : ∃ t ∈ condSignal ws i, t ≠ .waiting := by
  rcases condSignal_cases ws i with ⟨heq, hnone⟩ | ⟨k, hk, heq⟩
  · obtain ⟨t, ht⟩ := exists_mem_of_ne_nil _ hsome
    exact ⟨t, heq.symm ▸ ht, fun hw => hnone (hw ▸ ht)⟩
  · rw [heq]
    exact ⟨.top, mem_set (List.getElem?_eq_some_iff.mp hk).1 _, by decide⟩

/-- A signal makes a waiting worker look again, and does nothing else. -/
theorem condSignal_mem {i : Nat} (ht : t ≠ .top) :
    (t ∈ condSignal ws i → t ∈ ws) ∧ (t ≠ .waiting → t ∈ ws → t ∈ condSignal ws i) := by
  rcases condSignal_cases ws i with ⟨heq, hnone⟩ | ⟨k, hk, heq⟩
  · rw [heq]
    exact ⟨id, fun _ h => h⟩
  · obtain ⟨rest, hold, hnew⟩ := set_perm hk
    rw [heq, (hnew .top).mem_iff, hold.mem_iff, mem_cons, mem_cons]
    exact ⟨fun h => .inr (h.resolve_left ht), fun hw h => .inr (h.resolve_left hw)⟩

/-- It takes no job away from a worker. -/
theorem condSignal_running (ws : List Worker) (i : Nat) :
    ((condSignal ws i).filterMap Worker.job).Perm (ws.filterMap Worker.job) := by
  rcases condSignal_cases ws i with ⟨heq, -⟩ | ⟨k, hk, heq⟩
  · rw [heq]
  · obtain ⟨rest, hold, hnew⟩ := set_perm hk
    rw [heq]
    exact ((hnew .top).filterMap Worker.job).trans (hold.filterMap Worker.job).symm

/-- An item is queued and a worker is woken. -/
theorem Control.accept (h : s.Control) (hopen : s.shutdown = false)
    {submitted : List KlWorkItem} (i : Nat) :
    Control { s with workQueue := wq, inflight, workers := condSignal s.workers i, submitted } := by
  have hclosed := Loop.not_disposing (h.shutdown.symm.trans hopen)
  have hawake := condSignal_awake h.some i
  exact { h with
    waiting := by grind
    exited := fun hu => h.exited ((condSignal_mem (by decide)).1 hu)
    joined := by grind [disposing]
    some := hawake.elim fun t ht => ne_nil_of_mem ht.1
    awake := fun _ => hawake
    wake := fun hc hidle => (h.wake hc hidle).imp_right ((condSignal_mem (by decide)).2 (by decide))
    freed := fun hf => absurd hf (Loop.not_cancelling hclosed).2 }

/-- A finished item is handed to the loop. -/
theorem Control.deliver (h : s.Control) (hopen : s.shutdown = false)
    (hreq : s.freeRequested = false)
    (hloop : loop.destroying = false)
    (hdisp : dispatching = loop.dispatching)
    (hwatched : s.watched = true) (hempty : loop = .idle → dq.count = 0) :
    Control { s with doneQueue := dq, inflight, wakeup, dispatching, loop, log } := by
  have hclosed := Loop.not_disposing hloop
  obtain ⟨hearly, hthere⟩ := Loop.not_cancelling hclosed
  exact { h with
    destroying := by grind [h.destroying, h.shutdown]
    shutdown := hopen.trans hloop.symm
    dispatching := hdisp
    requested := by grind
    watched := fun _ _ => hwatched
    unwatched := by grind [disposing]
    joined := by grind [disposing]
    wake := by grind
    cancelling := by grind
    freed := by grind }

theorem condBroadcast_mem (ht : t ∈ condBroadcast ws) : t ≠ .waiting := by
  obtain ⟨u, -, rfl⟩ := mem_map.mp ht
  split
  · decide
  · next hne => exact hne

theorem condBroadcast_running (ws : List Worker) :
    (condBroadcast ws).filterMap Worker.job = ws.filterMap Worker.job := by
  unfold condBroadcast
  rw [filterMap_map]
  refine filterMap_congr fun t _ => ?_
  simp only [Function.comp_apply]
  split
  · next h => rw [h]; rfl
  · rfl

/-- The shutdown wakes every worker. -/
theorem Control.beginFree (h : s.Control) (hdisp : dispatching = false) :
    Control { s with dispatching }.beginFree := by
  have hsome : condBroadcast s.workers ≠ [] := fun hnil => h.some (map_eq_nil_iff.mp hnil)
  obtain ⟨t, ht⟩ := exists_mem_of_ne_nil _ hsome
  exact {
    destroying := rfl
    shutdown := rfl
    dispatching := hdisp
    requested := by simp [KlThreadPool.beginFree]
    watched := by simp [KlThreadPool.beginFree, Loop.destroying]
    unwatched := by simp [KlThreadPool.beginFree, KlThreadPool.disposing, Loop.disposing]
    waiting := fun _ hw => condBroadcast_mem hw rfl
    exited := fun _ => rfl
    joined := by simp [KlThreadPool.beginFree, KlThreadPool.disposing, Loop.disposing]
    some := hsome
    awake := fun _ => ⟨t, ht, condBroadcast_mem ht⟩
    wake := by simp [KlThreadPool.beginFree]
    cancelling := by simp [KlThreadPool.beginFree, Loop.cancelling]
    freed := by simp [KlThreadPool.beginFree] }

/-- The teardown goes on: every worker is gone. -/
theorem Control.dispose (h : s.Control) (hgone : ∀ t ∈ s.workers, t = .exited) {watched : Bool}
    (hover : s.loop.destroying = true) (hloop : loop.disposing = true) (hwatch : watched = false)
    (hcancel : loop.cancelling = true → dq.count = 0) (hfreed : loop = .freed → wq.count = 0) :
    Control { s with workQueue := wq, doneQueue := dq, watched, loop, log } := by
  obtain ⟨hdestroying, hnot, hidle⟩ := Loop.of_disposing hloop
  have hdisp := Loop.not_dispatching hover
  obtain ⟨t, ht⟩ := exists_mem_of_ne_nil _ h.some
  exact { h with
    destroying := by grind [h.destroying]
    shutdown := by grind [h.shutdown]
    dispatching := by grind [h.dispatching]
    requested := fun _ => hidle
    watched := by grind
    unwatched := fun _ => hwatch
    joined := fun _ => hgone
    awake := fun _ => ⟨t, ht, by grind⟩
    wake := by grind
    cancelling := hcancel
    freed := hfreed }

/-! ## Steps -/

/-- The state of the pool is sound: its threads and where its items are. -/
def Sound (s : KlThreadPool) : Prop := s.Control ∧ ∃ Q F stage, s.Filed Q F stage

section

variable (h : s.Sound)
include h

/-- A submission is accepted with its record, or refused. -/
theorem Sound.submit (item : KlWorkItem) (i : Nat) : (s.submit item i).Sound := by
  unfold KlThreadPool.submit
  split
  · exact h
  split
  · exact h
  next hadmit =>
  obtain ⟨hcontrol, Q, F, stage, hfiled⟩ := h
  simp only [Bool.or_eq_true, decide_eq_true_eq, not_or, Bool.not_eq_true, Int.not_le] at hadmit
  obtain ⟨⟨hopen, -⟩, hroom⟩ := hadmit
  have hdisp := Loop.not_disposing (hcontrol.shutdown.symm.trans hopen)
  exact ⟨hcontrol.accept hopen i, _, _, _,
    hfiled.accept hroom hdisp (condSignal_running s.workers i)⟩

variable {i : Nat}

/-- A worker that takes up no job and ends none. -/
theorem Sound.move {t t' : Worker} (ht : s.workers[i]? = Option.some t)
    (hjob : t.job = none ∧ t'.job = none)
    (hcontrol : Control { s with wakeup, workers := s.workers.set i t' }) :
    Sound { s with wakeup, workers := s.workers.set i t' } := by
  obtain ⟨-, Q, F, stage, hfiled⟩ := h
  have hrun := @running_set s i t t' ht
  rw [hjob.1, hjob.2] at hrun
  exact ⟨hcontrol, Q, F, stage, hfiled.idle rfl rfl rfl hrun rfl rfl id⟩

/-- A worker takes an item, runs it, hands it on or ends. -/
theorem Sound.workerStep (hs : s.workerStep i = Option.some s') : s'.Sound := by
  have hcontrol := h.1
  unfold KlThreadPool.workerStep at hs
  split at hs
  · next ht =>
    split at hs
    · next hshut =>
      cases hs
      exact h.move ht ⟨rfl, rfl⟩ (hcontrol.work ht (by decide) (by simp) (fun _ =>
        hshut) (.inr (.inr ⟨by decide, rfl, rfl⟩)))
    next hshut =>
    have hopen : s.shutdown = false := Bool.eq_false_of_not_eq_true hshut
    split at hs
    · next hempty =>
      cases hs
      exact h.move ht ⟨rfl, rfl⟩ (hcontrol.work ht (by decide) (fun _ => ⟨hopen, hempty⟩) (by simp)
        (.inr (.inr ⟨by decide, rfl, rfl⟩)))
    next hcount =>
    obtain ⟨-, Q, F, stage, hfiled⟩ := h
    obtain ⟨job, Q, rfl, hpop⟩ := hfiled.work.pop_of_pos (Nat.pos_of_ne_zero hcount)
    rw [hpop] at hs
    cases hs
    have hdisp := Loop.not_disposing (hcontrol.shutdown.symm.trans hopen)
    exact ⟨hcontrol.work ht (by decide) (by simp) (by simp) (.inr (.inr ⟨by decide, rfl, rfl⟩)),
      _, _, _, hfiled.take hdisp (running_set ht)⟩
  · next job ht =>
    cases hs
    obtain ⟨-, Q, F, stage, hfiled⟩ := h
    have hdisp := hcontrol.not_disposing (mem_of_getElem? ht) fun heq => by cases heq
    have hrun : (job :: (s.workers.set i .signalling).filterMap Worker.job).Perm s.running :=
      running_set ht
    exact ⟨hcontrol.work ht (by simp) (by simp) (by simp) (.inr (.inl rfl)),
      _, _, _, hfiled.finish hdisp hrun.symm⟩
  · next ht =>
    cases hs
    exact h.move ht ⟨rfl, rfl⟩ (hcontrol.work ht (by decide) (by simp) (by simp) (.inl rfl))
  · cases hs

/-- A worker may wake up for nothing. -/
theorem Sound.spurious (hs : s.spurious i = Option.some s') : s'.Sound := by
  unfold KlThreadPool.spurious at hs
  split at hs
  · next ht =>
    cases hs
    exact h.move ht
      ⟨rfl, rfl⟩ (h.1.work ht (by decide) (by simp) (by simp) (.inr (.inr ⟨by decide, rfl, rfl⟩)))
  · cases hs

/-- The loop takes the next finished item. -/
theorem Sound.deliver (hopen : s.shutdown = false) (hreq : s.freeRequested = false)
    (hwatched : s.watched = true)
    (hs : { s with dispatching := true, wakeup }.deliver = some s') : s'.Sound := by
  obtain ⟨hcontrol, Q, F, stage, hfiled⟩ := h
  have hdisp := Loop.not_disposing (hcontrol.shutdown.symm.trans hopen)
  unfold KlThreadPool.deliver at hs
  split at hs
  · next hcount =>
    obtain ⟨job, F, rfl, hpop⟩ := hfiled.done.pop_of_pos hcount
    rw [hpop] at hs
    cases hs
    have hnext : Filed { s with doneQueue := s.doneQueue.pop.2, inflight := s.inflight - 1,
                                loop := .done job, log := s.log ++ [.done job] } Q F _ :=
      hfiled.deliver (Int.sub_le_self _ (by decide)) fun _ => ⟨hdisp, rfl⟩
    exact ⟨hcontrol.deliver hopen hreq rfl rfl hwatched fun heq => (by cases heq), Q, F, _,
      hnext.idle rfl rfl rfl (List.Perm.refl _) rfl rfl id⟩
  · next hcount =>
    cases hs
    have hempty : s.doneQueue.count = 0 := Nat.eq_zero_of_not_pos hcount
    exact ⟨hcontrol.deliver hopen hreq rfl rfl hwatched fun _ => hempty, Q, F, stage,
      hfiled.idle rfl rfl rfl (List.Perm.refl _) rfl rfl fun _ => hdisp⟩

theorem Sound.beginFree (hopen : s.shutdown = false) :
    Sound { s with dispatching := false }.beginFree := by
  obtain ⟨hcontrol, Q, F, stage, hfiled⟩ := h
  have hdisp := Loop.not_disposing (hcontrol.shutdown.symm.trans hopen)
  refine ⟨hcontrol.beginFree rfl, Q, F, stage, hfiled.idle rfl rfl rfl ?_ rfl rfl fun _ => hdisp⟩
  exact List.Perm.of_eq (condBroadcast_running s.workers)

/-- The pool is asked to go. -/
theorem Sound.free : s.free.Sound := by
  have hcontrol := h.1
  unfold KlThreadPool.free
  split
  · exact h
  next hlive =>
  have hopen : s.shutdown = false :=
    hcontrol.shutdown.trans (hcontrol.destroying.symm.trans (Bool.eq_false_of_not_eq_true hlive))
  split
  · next hdispatching =>
    obtain ⟨-, Q, F, stage, hfiled⟩ := h
    have hidle : s.loop ≠ .idle := by
      intro heq
      rw [hcontrol.dispatching, heq] at hdispatching
      cases hdispatching
    refine ⟨{ hcontrol with requested := fun _ => hidle, watched := fun _ hr => Bool.noConfusion hr,
                            unwatched := fun _ => rfl }, Q, F, stage,
      hfiled.idle rfl rfl rfl (List.Perm.refl _) rfl rfl id⟩
  · next hnot =>
    have hsame : { s with dispatching := false } = s := by
      rw [← Bool.eq_false_of_not_eq_true hnot]
    exact hsame ▸ h.beginFree hopen

/-- With the workers gone the items left are cancelled. -/
theorem Sound.cancelWork (hover : s.loop.destroying = true) (hgone : ∀ t ∈ s.workers, t = .exited)
    (hempty : s.doneQueue.count = 0) (hs : { s with watched := false }.cancelWork = some s') :
    s'.Sound := by
  obtain ⟨hcontrol, Q, F, stage, hfiled⟩ := h
  unfold KlThreadPool.cancelWork at hs
  split at hs
  · next hcount =>
    obtain ⟨job, Q, rfl, hpop⟩ := hfiled.work.pop_of_pos hcount
    rw [hpop] at hs
    cases hs
    exact ⟨hcontrol.dispose hgone hover rfl rfl (fun _ => hempty) fun heq => (by cases heq), Q,
      F, _, hfiled.drop.idle rfl rfl rfl (List.Perm.refl _) rfl rfl id⟩
  · next hcount =>
    cases hs
    exact ⟨hcontrol.dispose hgone hover rfl rfl (fun _ => hempty) fun _ =>
      Nat.eq_zero_of_not_pos hcount, Q, F, stage,
      hfiled.idle rfl rfl rfl (List.Perm.refl _) rfl rfl fun hd => Bool.noConfusion hd⟩

/-- Behind the join the finished items are handed out first. -/
theorem Sound.dispose (hover : s.loop.destroying = true) (hgone : ∀ t ∈ s.workers, t = .exited)
    (hs : { s with watched := false }.dispose = some s') : s'.Sound := by
  unfold KlThreadPool.dispose at hs
  split at hs
  · next hcount =>
    obtain ⟨hcontrol, Q, F, stage, hfiled⟩ := h
    obtain ⟨job, F, rfl, hpop⟩ := hfiled.done.pop_of_pos hcount
    rw [hpop] at hs
    cases hs
    have hnext : Filed { s with doneQueue := s.doneQueue.pop.2, inflight := s.inflight,
                                loop := .drain job, log := s.log ++ [.done job] } Q F _ :=
      hfiled.deliver (Int.le_refl _) fun hd => Bool.noConfusion hd
    exact ⟨hcontrol.dispose hgone hover rfl rfl (fun hc => Bool.noConfusion hc) fun heq =>
      (by cases heq), Q, F, _, hnext.idle rfl rfl rfl (List.Perm.refl _) rfl rfl id⟩
  · next hcount => exact h.cancelWork hover hgone (Nat.eq_zero_of_not_pos hcount) hs

/-- A callback of the loop returns. -/
theorem Sound.returns (hs : s.returns = Option.some s') : s'.Sound := by
  have hcontrol := h.1
  have hgone (hd : s.disposing = true) : s.loop.destroying = true ∧ (∀ t ∈ s.workers, t = .exited) ∧
      { s with watched := false } = s := by
    refine ⟨(Loop.of_disposing hd).1, hcontrol.joined hd, ?_⟩
    rw [← hcontrol.unwatched hd]
  unfold KlThreadPool.returns at hs
  split at hs
  · next job hloop =>
    have hopen : s.loop.destroying = false := by rw [hloop]; rfl
    split at hs
    · cases hs
      exact h.beginFree (hcontrol.shutdown.trans hopen)
    next hreq =>
    have hnone : s.freeRequested = false := Bool.eq_false_of_not_eq_true hreq
    have hdispatching : s.dispatching = true := by rw [hcontrol.dispatching, hloop]; rfl
    have hsame : { s with dispatching := true, wakeup := s.wakeup } = s := by rw [← hdispatching]
    exact h.deliver (hcontrol.shutdown.trans hopen) hnone (hcontrol.watched hopen hnone)
      (hsame.symm ▸ hs)
  · next job hloop =>
    obtain ⟨hover, hall, hsame⟩ := hgone (by unfold KlThreadPool.disposing; rw [hloop]; rfl)
    exact h.dispose hover hall (hsame.symm ▸ hs)
  · next job hloop =>
    obtain ⟨hover, hall, hsame⟩ := hgone (by unfold KlThreadPool.disposing; rw [hloop]; rfl)
    exact h.cancelWork hover hall (hcontrol.cancelling (by rw [hloop]; rfl)) (hsame.symm ▸ hs)
  · cases hs

/-- The pipe wakes the loop. -/
theorem Sound.onPipe (hopen : s.unblocked = true) (hwatched : s.watched = true)
    (hs : s.onPipe = Option.some s') : s'.Sound := by
  have hcontrol := h.1
  unfold KlThreadPool.onPipe at hs
  split at hs
  · cases hs
    exact h
  next hnot =>
  have hidle : s.loop = .idle := by
    cases hl : s.loop with
    | idle => rfl
    | done job =>
      rw [hcontrol.dispatching, hl] at hnot
      exact absurd rfl hnot
    | joining | freed =>
      unfold KlThreadPool.unblocked at hopen
      rw [hl] at hopen
      cases hopen
    | drain job | cancel job =>
      have hunwatched := hcontrol.unwatched (by unfold KlThreadPool.disposing; rw [hl]; rfl)
      exact absurd (hunwatched.symm.trans hwatched) (by decide)
  have hshut : s.shutdown = false := by rw [hcontrol.shutdown, hidle]; rfl
  exact h.deliver hshut (Bool.eq_false_of_not_eq_true fun hr =>
    hcontrol.requested hr hidle) hwatched hs

theorem Sound.step {a : Act} (hs : s.step a = Option.some s') : s'.Sound := by
  cases a with
  | submit item i =>
    simp only [KlThreadPool.step] at hs
    split at hs
    · cases hs
    · cases hs
      exact h.submit item i
  | worker i => exact h.workerStep hs
  | spurious i => exact h.spurious hs
  | onPipe =>
    simp only [KlThreadPool.step, ite_none_right_eq_some, Bool.and_eq_true] at hs
    exact h.onPipe hs.1.1.1 hs.1.1.2 hs.2
  | returns => exact h.returns hs
  | free =>
    simp only [KlThreadPool.step, ite_none_right_eq_some, some.injEq] at hs
    exact hs.2 ▸ h.free
  | joined =>
    simp only [KlThreadPool.step, ite_none_right_eq_some] at hs
    obtain ⟨⟨hloop, hall⟩, hs⟩ := hs
    refine h.dispose (by rw [hloop]; rfl) (fun t ht => beq_iff_eq.mp (all_eq_true.mp hall t ht)) hs

end

/-- A pool that was just made. -/
theorem sound_create {numWorkers queueCapacity cpus started : Nat}
    (hs : create numWorkers queueCapacity cpus started = Option.some s) : s.Sound := by
  simp only [create, ite_none_left_eq_some, some.injEq, not_or] at hs
  obtain ⟨-, ⟨hstarted, -⟩, rfl⟩ := hs
  have hcap : 0 < (if 0 < queueCapacity then queueCapacity else KL_TP_DEFAULT_CAPACITY) +
      if 0 < numWorkers then numWorkers else cpus := by
    refine Nat.add_pos_left ?_ _
    split
    · next hpos => exact hpos
    · decide
  have htop : ∀ t ∈ replicate started Worker.top, t = .top := fun t ht => eq_of_mem_replicate ht
  have hrun : (replicate started Worker.top).filterMap Worker.job = [] :=
    filterMap_eq_nil_iff.mpr fun t ht => htop t ht ▸ rfl
  have hnone {c : Stage} : Files [] (At 0 (fun _ => .queued) c) :=
    ⟨nodup_nil, fun i => ⟨fun hi => absurd hi not_mem_nil, fun hi =>
      absurd hi.1 (Nat.not_lt_zero _)⟩⟩
  refine ⟨?_, [], [], fun _ => .queued, .empty hcap, .empty hcap, rfl, fun job hjob => ?_, hnone,
    ?_, hnone, fun i => rfl, prefix_refl _, fun _ => rfl, fun _ => ?_, Int.natCast_nonneg _⟩
  · exact {
      destroying := rfl
      shutdown := rfl
      dispatching := rfl
      requested := fun hr => Bool.noConfusion hr
      watched := fun _ _ => rfl
      unwatched := fun hd => Bool.noConfusion hd
      waiting := fun hd => Bool.noConfusion hd
      exited := fun ht => absurd (htop _ ht) (by decide)
      joined := fun hd => Bool.noConfusion hd
      some := fun hnil => hstarted (by simpa using hnil)
      awake := fun hc => absurd hc (Nat.lt_irrefl _)
      wake := fun hc => absurd hc (Nat.lt_irrefl _)
      cancelling := fun hc => Bool.noConfusion hc
      freed := fun hf => by cases hf }
  · have hjob' : job ∈ (replicate started Worker.top).filterMap Worker.job ++ [] := hjob
    rw [hrun] at hjob'
    exact absurd hjob' not_mem_nil
  · show Files ((replicate started Worker.top).filterMap Worker.job) _
    rw [hrun]
    exact hnone
  · show (0 : Int) = 0 + (((replicate started Worker.top).filterMap Worker.job).length : Int) + 0
    rw [hrun]
    rfl

/-! ## Progress -/

/-- The steps of the workers and of the loop thread inside of the pool, and the returns of the
functions that they call. -/
def Moves (s : KlThreadPool) : Act → Prop
  | .worker _ | .returns | .joined => True
  | .onPipe => s.dispatching = false
  | _ => False

end KlThreadPool

/-- The steps that a worker takes on its own from where it is, counted with what they cause. -/
def Worker.weight : Worker → Nat
  | .top => 1
  | .running _ => 6
  | .signalling => 3
  | .waiting | .exited => 0

def Loop.weight : Loop → Nat
  | .idle | .freed => 0
  | .done _ | .drain _ | .cancel _ => 1
  | .joining => 2

@[simp] theorem Loop.weight_idle : Loop.idle.weight = 0 := rfl
@[simp] theorem Loop.weight_freed : Loop.freed.weight = 0 := rfl
@[simp] theorem Loop.weight_done (job : Job) : (Loop.done job).weight = 1 := rfl
@[simp] theorem Loop.weight_drain (job : Job) : (Loop.drain job).weight = 1 := rfl
@[simp] theorem Loop.weight_cancel (job : Job) : (Loop.cancel job).weight = 1 := rfl
@[simp] theorem Loop.weight_joining : Loop.joining.weight = 2 := rfl

namespace KlThreadPool

variable {s s' : KlThreadPool}

/-- An upper bound on the steps to come. -/
def remaining (s : KlThreadPool) : Nat :=
  8 * s.workQueue.count + (s.workers.map Worker.weight).sum + 2 * s.doneQueue.count +
    s.wakeup.toNat + s.loop.weight + if s.shutdown then 0 else s.workers.length + 2

theorem weight_set {ws : List Worker} {i : Nat} {t t' : Worker} (ht : ws[i]? = some t) :
    ((ws.set i t').map Worker.weight).sum + t.weight = (ws.map Worker.weight).sum + t'.weight := by
  obtain ⟨rest, hold, hnew⟩ := set_perm ht
  rw [((hnew t').map _).sum_nat, (hold.map Worker.weight).sum_nat, map_cons, map_cons, sum_cons,
    sum_cons]
  omega

theorem weight_broadcast (ws : List Worker) :
    ((condBroadcast ws).map Worker.weight).sum ≤ (ws.map Worker.weight).sum + ws.length := by
  induction ws with
  | nil => exact Nat.le_refl _
  | cons t ws ih =>
    have hone : (if t = .waiting then Worker.top else t).weight ≤ t.weight + 1 := by
      split
      · exact Nat.le_add_left _ _
      · exact Nat.le_succ _
    show (if t = .waiting then Worker.top else t).weight +
      ((condBroadcast ws).map Worker.weight).sum ≤ _
    rw [map_cons, sum_cons, length_cons]
    omega

variable {i : Nat} {b : Bool} {item : KlWorkItem} {F Q : List Job}

/-- A worker that makes a step has less to do. -/
theorem remaining_worker (hs : s.workerStep i = Option.some s') : s'.remaining < s.remaining := by
  unfold workerStep at hs
  split at hs
  · next ht =>
    split at hs
    · cases hs
      have hset := @weight_set s.workers i .top .exited ht
      simp only [remaining, length_set, Worker.weight] at hset ⊢
      omega
    split at hs
    · cases hs
      have hset := @weight_set s.workers i .top .waiting ht
      simp only [remaining, length_set, Worker.weight] at hset ⊢
      omega
    · next hcount =>
      obtain ⟨job, -, rfl⟩ := map_eq_some_iff.mp hs
      have hset := @weight_set s.workers i .top (.running job) ht
      have hpop : s.workQueue.pop.2.count = s.workQueue.count - 1 := rfl
      simp only [remaining, length_set, Worker.weight, hpop] at hset ⊢
      omega
  · next job ht =>
    cases hs
    have hset := @weight_set s.workers i (.running job) .signalling ht
    have hpush : (s.doneQueue.push job).count = s.doneQueue.count + 1 := rfl
    simp only [remaining, length_set, Worker.weight, hpush] at hset ⊢
    omega
  · next ht =>
    cases hs
    have hset := @weight_set s.workers i .signalling .top ht
    simp only [remaining, length_set, Worker.weight, Bool.toNat_true] at hset ⊢
    omega
  · cases hs

theorem remaining_deliver (hs : { s with dispatching := true, wakeup := b }.deliver = some s')
    (hb : b.toNat ≤ s.wakeup.toNat)
    (hless : b.toNat < s.wakeup.toNat ∨ s.loop.weight = 1) : s'.remaining < s.remaining := by
  unfold deliver at hs
  split at hs
  · next hcount =>
    obtain ⟨job, -, rfl⟩ := map_eq_some_iff.mp hs
    have hpop : s.doneQueue.pop.2.count = s.doneQueue.count - 1 := rfl
    simp only [remaining, Loop.weight_done, hpop] at hcount ⊢
    omega
  · cases hs
    simp only [remaining, Loop.weight_idle]
    omega

/-- The shutdown leaves less to do. -/
theorem remaining_beginFree (hopen : s.shutdown = false) (hloop : s.loop.weight = 1) :
    ({ s with dispatching := b }.beginFree).remaining < s.remaining := by
  have hcast := weight_broadcast s.workers
  simp only [remaining, beginFree, Loop.weight_joining, hopen, hloop]
  simp only [reduceIte, Bool.false_eq_true]
  omega

theorem remaining_cancelWork (hs : { s with watched := b }.cancelWork = some s')
    (hloop : 0 < s.loop.weight) : s'.remaining < s.remaining := by
  unfold cancelWork at hs
  split at hs
  · next hcount =>
    obtain ⟨job, -, rfl⟩ := map_eq_some_iff.mp hs
    have hpop : s.workQueue.pop.2.count = s.workQueue.count - 1 := rfl
    simp only [remaining, Loop.weight_cancel, hpop] at hcount ⊢
    omega
  · cases hs
    simp only [remaining, Loop.weight_freed]
    omega

theorem remaining_dispose (hs : { s with watched := b }.dispose = some s')
    (hloop : 0 < s.loop.weight) : s'.remaining < s.remaining := by
  unfold dispose at hs
  split at hs
  · next hcount =>
    obtain ⟨job, -, rfl⟩ := map_eq_some_iff.mp hs
    have hpop : s.doneQueue.pop.2.count = s.doneQueue.count - 1 := rfl
    simp only [remaining, Loop.weight_drain, hpop] at hcount ⊢
    omega
  · exact remaining_cancelWork hs hloop

/-- Every step of the pool's own threads brings the end of their work nearer. -/
theorem Sound.remaining_step (h : s.Sound) {a : Act} (ha : s.Moves a)
    (hs : s.step a = Option.some s') : s'.remaining < s.remaining := by
  have hcontrol := h.1
  cases a with
  | worker i => exact remaining_worker hs
  | returns =>
    have hret : s.returns = some s' := hs
    unfold KlThreadPool.returns at hret
    split at hret
    · next job hloop =>
      have hweight : s.loop.weight = 1 := by rw [hloop]; rfl
      have hdispatching : s.dispatching = true := by rw [hcontrol.dispatching, hloop]; rfl
      split at hret
      · cases hret
        exact remaining_beginFree (by rw [hcontrol.shutdown, hloop]; rfl) hweight
      · have hsame : { s with dispatching := true, wakeup := s.wakeup } =
            s := by rw [← hdispatching]
        exact remaining_deliver (hsame.symm ▸ hret) (Nat.le_refl _) (.inr hweight)
    · next job hloop => exact remaining_dispose hret (hloop ▸ Nat.zero_lt_one)
    · next job hloop => exact remaining_cancelWork hret (hloop ▸ Nat.zero_lt_one)
    · cases hret
  | joined =>
    simp only [KlThreadPool.step, ite_none_right_eq_some] at hs
    exact remaining_dispose hs.2 (by rw [hs.1.1]; decide)
  | onPipe =>
    simp only [KlThreadPool.step, ite_none_right_eq_some, Bool.and_eq_true] at hs
    obtain ⟨⟨-, hwakeup⟩, hpipe⟩ := hs
    have hidle : s.dispatching = false := ha
    unfold KlThreadPool.onPipe at hpipe
    rw [hidle] at hpipe
    exact remaining_deliver hpipe (Nat.zero_le _) (.inl (hwakeup ▸ Nat.zero_lt_one))
  | submit | spurious | free => exact ha.elim

/-- An item that is neither queued nor running nor in the done queue has its outcome. -/
theorem Filed.settled {stage : Nat → Stage} (h : s.Filed [] [] stage) (hrun : s.running = [])
    (hi : s.submitted[i]? = some item) :
    s.calls i = Stage.delivered.calls ⟨i, item⟩ ∨ s.calls i = Stage.dropped.calls ⟨i, item⟩ := by
  have hlt : i < s.submitted.length := (List.getElem?_eq_some_iff.mp hi).1
  have hcalls := h.calls i
  rw [hi] at hcalls
  have hnot {l : List Job} {c : Stage} (hl : Files l (At s.submitted.length stage c)) (hnil : l =
      []) : stage i ≠ c := by
    intro hc
    have hmem := (hl.mem i).mpr ⟨hlt, hc⟩
    rw [hnil] at hmem
    exact not_mem_nil hmem
  cases hstage : stage i with
  | queued => exact absurd hstage (hnot h.queued rfl)
  | running => exact absurd hstage (hnot h.running hrun)
  | finished => exact absurd hstage (hnot h.finished rfl)
  | delivered => exact .inl (hcalls.trans (hstage ▸ rfl))
  | dropped => exact .inr (hcalls.trans (hstage ▸ rfl))

/-- A queue that holds its jobs has one to take as long as its count says so. -/
theorem pop_ne_none {q : Cyclic Job} {l : List Job} (h : q.Holds l) {f : Job → KlThreadPool}
    {x : Option KlThreadPool} (hx : x ≠ none) :
    (if 0 < q.count then q.pop.1.map f else x) ≠ none := by
  split
  · next hcount =>
    obtain ⟨_, _, -, hpop⟩ := h.pop_of_pos hcount
    simp [hpop]
  · exact hx

theorem deliver_ne_none (h : s.doneQueue.Holds F) : s.deliver ≠ none :=
  pop_ne_none h (some_ne_none _)

theorem cancelWork_ne_none (h : s.workQueue.Holds Q) : s.cancelWork ≠ none :=
  pop_ne_none h (some_ne_none _)

theorem dispose_ne_none (hwork : s.workQueue.Holds Q)
    (hdone : s.doneQueue.Holds F) : s.dispose ≠ none :=
  pop_ne_none hdone (cancelWork_ne_none hwork)

/-- Both queues are empty and no work function runs, once no step is left. -/
theorem Sound.quiet (h : s.Sound) (hquiet : ∀ a, s.Moves a → s.step a = none) :
    s.workQueue.count = 0 ∧ s.doneQueue.count = 0 ∧ s.running = [] := by
  obtain ⟨hcontrol, Q, F, stage, hfiled⟩ := h
  have hworker : ∀ t ∈ s.workers, t = .waiting ∨ t = .exited := by
    intro t ht
    obtain ⟨i, hi⟩ := getElem?_of_mem ht
    have hnone : s.workerStep i = none := hquiet (.worker i) trivial
    unfold KlThreadPool.workerStep at hnone
    rw [hi] at hnone
    cases t with
    | waiting => exact .inl rfl
    | exited => exact .inr rfl
    | running job => cases hnone
    | signalling => cases hnone
    | top =>
      simp only at hnone
      split at hnone
      · cases hnone
      split at hnone
      · cases hnone
      · next hcount =>
        obtain ⟨_, _, -, hpop⟩ := hfiled.work.pop_of_pos (Nat.pos_of_ne_zero hcount)
        simp [hpop] at hnone
  have hrun : s.running = [] := by
    refine filterMap_eq_nil_iff.mpr fun t ht => ?_
    rcases hworker t ht with rfl | rfl <;> rfl
  have hreturns : s.returns = none := hquiet .returns trivial
  unfold KlThreadPool.returns at hreturns
  cases hloop : s.loop with
  | idle =>
    have hshut : s.shutdown = false := by rw [hcontrol.shutdown, hloop]; rfl
    have hwaiting : ∀ t ∈ s.workers, t = .waiting := fun t ht =>
      (hworker t ht).resolve_right fun heq => absurd (hshut.symm.trans (hcontrol.exited (heq ▸ ht)))
        (by decide)
    have hwork : s.workQueue.count = 0 := by
      by_contra hcount
      obtain ⟨t, ht, hne⟩ := hcontrol.awake (Nat.pos_of_ne_zero hcount)
      exact hne (hwaiting t ht)
    refine ⟨hwork, ?_, hrun⟩
    by_contra hcount
    rcases hcontrol.wake (Nat.pos_of_ne_zero hcount) hloop with hwakeup | hsig
    · -- the wakeup channel is readable, so the loop thread would be told
      have hdispatching : s.dispatching = false := by rw [hcontrol.dispatching, hloop]; rfl
      have hopen : s.loop.destroying = false := by rw [hloop]; rfl
      have hwatched :=
        hcontrol.watched hopen (Bool.eq_false_of_not_eq_true fun hr => hcontrol.requested hr hloop)
      have htold : (s.unblocked && s.watched && s.wakeup) = true := by
        rw [hwatched, hwakeup]
        unfold KlThreadPool.unblocked
        rw [hloop]
        rfl
      have hpipe : s.onPipe = none := (if_pos htold).symm.trans (hquiet .onPipe hdispatching)
      unfold KlThreadPool.onPipe at hpipe
      rw [hdispatching] at hpipe
      exact deliver_ne_none (s := { s with dispatching := true, wakeup := false }) hfiled.done hpipe
    · exact absurd (hwaiting _ hsig) (by decide)
  | done job =>
    rw [hloop] at hreturns
    simp only at hreturns
    split at hreturns
    · cases hreturns
    · exact absurd hreturns (deliver_ne_none hfiled.done)
  | joining =>
    have hshut : s.shutdown = true := by rw [hcontrol.shutdown, hloop]; rfl
    have hall : s.workers.all (· == .exited) = true := all_eq_true.mpr fun t ht =>
      beq_iff_eq.mpr ((hworker t ht).resolve_left fun heq => hcontrol.waiting hshut (heq ▸ ht))
    have hjoined : s.step .joined = none := hquiet .joined trivial
    simp only [KlThreadPool.step, hloop, hall, and_self, if_true] at hjoined
    exact absurd hjoined (dispose_ne_none hfiled.work hfiled.done)
  | drain job =>
    rw [hloop] at hreturns
    exact absurd hreturns (dispose_ne_none hfiled.work hfiled.done)
  | cancel job =>
    rw [hloop] at hreturns
    exact absurd hreturns (cancelWork_ne_none hfiled.work)
  | freed => exact ⟨hcontrol.freed hloop, hcontrol.cancelling (by rw [hloop]; rfl), hrun⟩

/-- The items are accounted for in every state, with `settled` for those that have their outcome. -/
theorem Sound.outcome (h : s.Sound)
    (hi : s.submitted[i]? = some item) : ∃ c : Stage, s.calls i = c.calls ⟨i, item⟩ := by
  obtain ⟨-, Q, F, stage, hfiled⟩ := h
  refine ⟨stage i, ?_⟩
  have hcalls := hfiled.calls i
  rw [hi] at hcalls
  exact hcalls

/-- With nothing under way every item was delivered or dropped. -/
theorem Sound.settled (h : s.Sound)
    (hempty : s.workQueue.count = 0 ∧ s.doneQueue.count = 0 ∧ s.running = [])
    (hi : s.submitted[i]? = some item) :
    s.calls i = Stage.delivered.calls ⟨i, item⟩ ∨ s.calls i = Stage.dropped.calls ⟨i, item⟩ := by
  obtain ⟨-, Q, F, stage, hfiled⟩ := h
  obtain ⟨hwork, hdone, hrun⟩ := hempty
  have hQ : Q = [] := length_eq_zero_iff.mp (hfiled.work.count.symm.trans hwork)
  have hF : F = [] := length_eq_zero_iff.mp (hfiled.done.count.symm.trans hdone)
  subst hQ hF
  exact hfiled.settled hrun hi

/-- Nothing is left in a pool that was freed. -/
theorem Sound.freed (h : s.Sound) (hloop : s.loop = .freed) :
    s.workQueue.count = 0 ∧ s.doneQueue.count = 0 ∧ s.running = [] := by
  have hcontrol := h.1
  have hdisp : s.disposing = true := by unfold disposing; rw [hloop]; rfl
  refine ⟨hcontrol.freed hloop, hcontrol.cancelling (by rw [hloop]; rfl), ?_⟩
  exact filterMap_eq_nil_iff.mpr fun t ht => hcontrol.joined hdisp t ht ▸ rfl

end KlThreadPool

/-! ## Every interleaving -/

/-- The calls made for an item are always the beginning of one outcome: its work function is called,
returns, and its done function is called, or it is disposed of and its work function was never
called. When the pool is freed, and whenever its threads have nothing left to do, every item has its
whole outcome, and the threads do come to have nothing left to do. The queues hold what they can
hold, and the in-flight count is the number of items on their way until the teardown empties the
queues. -/
theorem every_item_has_one_outcome {numWorkers queueCapacity cpus started : Nat}
    {s₀ s : KlThreadPool}
    (hs₀ : create numWorkers queueCapacity cpus started = some s₀) (hs : system.Reach s₀ s) :
    (s.workQueue.count ≤ s.workQueue.cap ∧ s.doneQueue.count ≤ s.doneQueue.cap) ∧
    ((s.disposing = false → s.inflight = s.workQueue.count + s.running.length + s.doneQueue.count) ∧
      s.inflight ≤ s.doneQueue.cap) ∧
    s.started <+: List.range s.submitted.length ∧
    (∀ i item, s.submitted[i]? = some item → ∃ c : Stage, s.calls i = c.calls ⟨i, item⟩) ∧
    (s.loop = .freed ∨ (∀ a, s.Moves a → s.step a = none) → ∀ i item, s.submitted[i]? = some item →
      s.calls i = Stage.delivered.calls ⟨i, item⟩ ∨ s.calls i = Stage.dropped.calls ⟨i, item⟩) ∧
    ∀ a s', s.Moves a → s.step a = some s' → s'.remaining < s.remaining := by
  have h : s.Sound := hs.invariant (KlThreadPool.sound_create hs₀) fun _ _ _ h hstep => h.step hstep
  obtain ⟨hcontrol, Q, F, stage, hfiled⟩ := id h
  refine ⟨⟨?_, ?_⟩, ⟨fun hopen => ?_, hfiled.bound⟩, hfiled.order, fun i item => h.outcome,
    fun hend i item => ?_, fun a s' ha => h.remaining_step ha⟩
  · exact hfiled.work.count.symm ▸ hfiled.work.bound
  · exact hfiled.done.count.symm ▸ hfiled.done.bound
  · rw [hfiled.work.count, hfiled.done.count]
    exact hfiled.inflight hopen
  · exact h.settled (hend.elim h.freed h.quiet)

/-- An item with all three functions. -/
def plainItem : KlWorkItem :=
  { workFn := some 1, doneFn := some 2, cancelFn := some 3, userData := 0 }

/-- One worker, two items: one of them runs and is delivered by the teardown, the other is
cancelled. -/
theorem every_item_has_one_outcome_freed :
    ∃ s₀ s, create 1 1 0 1 = some s₀ ∧ system.Reach s₀ s ∧ s.loop = .freed ∧
    s.submitted.length = 2 ∧
      ∀ i item, s.submitted[i]? = some item → s.calls i = Stage.delivered.calls ⟨i, item⟩ ∨
      s.calls i = Stage.dropped.calls ⟨i, item⟩ := by
  obtain ⟨s₀, hs₀, s, hrun, hloop, hlen⟩ : ∃ s₀, create 1 1 0 1 = some s₀ ∧ ∃ s, system.run s₀
      [.submit plainItem 0, .submit plainItem 0, .worker 0, .free, .worker 0, .worker 0, .worker 0,
        .joined, .returns, .returns] = some s ∧
        s.loop = .freed ∧ s.submitted.length = 2 := ⟨_, rfl, _, rfl, rfl, rfl⟩
  have hreach : system.Reach s₀ s := .run .start hrun
  obtain ⟨-, -, -, -, hend, -⟩ := every_item_has_one_outcome hs₀ hreach
  exact ⟨s₀, s, hs₀, hreach, hloop, hlen, hend (.inl hloop)⟩

/-- The teardown takes a result from the done queue and leaves the in-flight count as it was. -/
theorem inflight_kept_by_teardown :
    ∃ s₀ s, create 1 1 0 1 = some s₀ ∧ system.Reach s₀ s ∧ s.inflight = 1 ∧ s.workQueue.count = 0 ∧
    s.running = [] ∧ s.doneQueue.count = 0 := by
  obtain ⟨s₀, hs₀, s, hrun, hrest⟩ : ∃ s₀, create 1 1 0 1 = some s₀ ∧ ∃ s, system.run s₀
      [.submit plainItem 0, .worker 0, .worker 0, .free, .worker 0, .worker 0, .joined] = some s ∧
        s.inflight = 1 ∧ s.workQueue.count = 0 ∧ s.running = [] ∧ s.doneQueue.count = 0 :=
          ⟨_, rfl, _, rfl, rfl, rfl, rfl, rfl⟩
  exact ⟨s₀, s, hs₀, .run .start hrun, hrest⟩

end ThreadPool
