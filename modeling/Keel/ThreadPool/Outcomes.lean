-- SUMMARY: Every accepted item has one outcome under every interleaving.
import Keel.ThreadPool.Pool
import Mathlib.Data.List.Perm.Basic
import Mathlib.Data.List.Nodup

/-!
# Outcomes

Every accepted item is at one stage of its way, and the calls that were made for it follow from the
stage. The first three stages are the contents of the work queue, of the workers and of the done
queue.
-/

open List

namespace ThreadPool

open Interleaved

inductive Stage where
  | queued
  | running
  | finished
  | delivered
  | dropped
deriving DecidableEq

/-- The calls made for an item up to a stage. -/
def Stage.calls (job : Job) : Stage → List Event
  | .queued => []
  | .running => [.start job]
  | .finished => [.start job, .finish job]
  | .delivered => [.start job, .finish job, .done job]
  | .dropped => [.disposed job]

@[simp] theorem Event.job_disposed (job : Job) : (Event.disposed job).job = job := by
  unfold Event.disposed
  split <;> rfl

@[simp] theorem Event.started_disposed (job : Job) : (Event.disposed job).started = none := by
  unfold Event.disposed
  split <;> rfl

/-! ## Files -/

/-- The items below `n` at a stage. -/
def At (n : Nat) (stage : Nat → Stage) (c : Stage) (i : Nat) : Prop := i < n ∧ stage i = c

/-- A list holds the jobs of the items at a stage, each once. -/
structure Files (l : List Job) (p : Nat → Prop) : Prop where
  nodup : (l.map (·.id)).Nodup
  mem : ∀ i, i ∈ l.map (·.id) ↔ p i

section Files

variable {l l' : List Job} {p p' : Nat → Prop} {n : Nat} {stage : Nat → Stage} {a b c : Stage}
  {job : Job}

theorem Files.congr (h : Files l p) (hp : ∀ i, p i ↔ p' i) : Files l p' :=
  ⟨h.nodup, fun i => (h.mem i).trans (hp i)⟩

theorem Files.perm (h : Files l p) (hperm : l'.Perm l) : Files l' p :=
  ⟨(hperm.map _).nodup_iff.mpr h.nodup, fun i => (hperm.map _).mem_iff.trans (h.mem i)⟩

theorem Files.cons (h : Files l p) (hnot : ¬p job.id) :
    Files (job :: l) fun i => i = job.id ∨ p i where
  nodup := nodup_cons.mpr ⟨fun hmem => hnot ((h.mem _).mp hmem), h.nodup⟩
  mem i := mem_cons.trans (or_congr Iff.rfl (h.mem i))

theorem Files.tail (h : Files (job :: l) p) : Files l fun i => p i ∧ i ≠ job.id where
  nodup := (nodup_cons.mp h.nodup).2
  mem i := by
    have hnot := (nodup_cons.mp h.nodup).1
    rw [← h.mem i]
    refine ⟨fun hi => ⟨mem_cons_of_mem _ hi, fun heq => hnot (show job.id ∈ _ from heq ▸ hi)⟩,
      fun ⟨hi, hne⟩ => ?_⟩
    exact (mem_cons.mp hi).resolve_left hne

theorem Files.at_of_mem (h : Files l (At n stage c)) (hj : job ∈ l) :
    job.id < n ∧ stage job.id = c :=
  (h.mem _).mp (mem_map_of_mem hj)

/-- A job goes on to another stage: the list it leaves, the list it comes to, and any other. -/
theorem Files.leave (h : Files l (At n stage a)) (hperm : l.Perm (job :: l')) (hne : b ≠ a) :
    Files l' (At n (Function.update stage job.id b) a) := by
  refine (h.perm hperm.symm).tail.congr fun i => ?_
  unfold At
  by_cases hi : i = job.id
  · subst hi
    simp [hne]
  · simp [hi]

theorem Files.arrive (h : Files l (At n stage b)) (hperm : l'.Perm (job :: l)) (hj : job.id < n)
    (hne : stage job.id ≠ b) : Files l' (At n (Function.update stage job.id b) b) := by
  refine ((h.cons fun hat => hne hat.2).perm hperm).congr fun i => ?_
  unfold At
  by_cases hi : i = job.id
  · subst hi
    simp [hj]
  · simp [hi]

theorem Files.stay (h : Files l (At n stage c)) (hold : stage job.id ≠ c) (hnew : b ≠ c) :
    Files l (At n (Function.update stage job.id b) c) := by
  refine h.congr fun i => ?_
  unfold At
  by_cases hi : i = job.id
  · subst hi
    simp [hold, hnew]
  · simp [hi]

/-- A new item: it is queued, and at no other stage. -/
theorem Files.grow (h : Files l (At n stage c)) (hc : c ≠ .queued) :
    Files l (At (n + 1) (Function.update stage n .queued) c) := by
  refine h.congr fun i => ?_
  unfold At
  by_cases hi : i = n
  · subst hi
    simp [Ne.symm hc]
  · simp only [Function.update_of_ne hi, and_congr_left_iff]
    intro _
    omega

theorem Files.enqueue (h : Files l (At n stage .queued)) (item : KlWorkItem) :
    Files (l ++ [⟨n, item⟩]) (At (n + 1) (Function.update stage n .queued) .queued) := by
  have hcons : Files (⟨n, item⟩ :: l) _ := h.cons fun hat => Nat.lt_irrefl _ hat.1
  refine (hcons.perm (perm_append_singleton _ _)).congr fun i => ?_
  unfold At
  by_cases hi : i = n
  · subst hi
    simp
  · simp only [Function.update_of_ne hi, hi, false_or, and_congr_left_iff]
    intro _
    omega

end Files

/-- What one worker does to the list of workers. -/
theorem set_perm {ws : List Worker} {i : Nat} {t : Worker} (h : ws[i]? = some t) :
    ∃ rest, ws.Perm (t :: rest) ∧ ∀ t', (ws.set i t').Perm (t' :: rest) := by
  obtain ⟨hi, rfl⟩ := List.getElem?_eq_some_iff.mp h
  refine ⟨ws.take i ++ ws.drop (i + 1), ?_, fun t' => ?_⟩
  · have hsplit : ws = ws.take i ++ ws[i] :: ws.drop (i + 1) := by
      rw [getElem_cons_drop, take_append_drop]
    exact (List.Perm.of_eq hsplit).trans perm_middle
  · rw [set_eq_take_append_cons_drop, if_pos hi]
    exact perm_middle

theorem condSignal_cases (ws : List Worker) (i : Nat) :
    (condSignal ws i = ws ∧ .waiting ∉ ws) ∨ ∃ k, ws[k]? = some .waiting ∧
    condSignal ws i = ws.set k .top := by
  unfold condSignal
  split
  · next h => exact .inr ⟨i, h, rfl⟩
  by_cases hmem : Worker.waiting ∈ ws
  · have hlt : ws.findIdx (· == .waiting) < ws.length :=
      findIdx_lt_length_of_exists ⟨.waiting, hmem, by decide⟩
    refine .inr ⟨_, ?_, rfl⟩
    rw [getElem?_eq_getElem hlt, beq_iff_eq.mp (findIdx_getElem (p := (· == Worker.waiting)))]
  · refine .inl ⟨?_, hmem⟩
    have hge : ws.findIdx (· == .waiting) = ws.length := findIdx_eq_length_of_false fun t ht => by
      simpa using fun heq : t = .waiting => hmem (heq ▸ ht)
    rw [hge, set_eq_of_length_le (Nat.le_refl _)]

namespace KlThreadPool

variable {s s' : KlThreadPool} {Q F : List Job} {stage : Nat → Stage} {job : Job}

/-! ## Where the items are -/

/-- `Q` waits in the work queue and `F` in the done queue. -/
structure Filed (s : KlThreadPool) (Q F : List Job) (stage : Nat → Stage) : Prop where
  work : s.workQueue.Holds Q
  done : s.doneQueue.Holds F
  cap : s.workQueue.cap = s.doneQueue.cap
  jobs : ∀ job ∈ Q ++ s.running ++ F, s.submitted[job.id]? = some job.item
  queued : Files Q (At s.submitted.length stage .queued)
  running : Files s.running (At s.submitted.length stage .running)
  finished : Files F (At s.submitted.length stage .finished)
  calls : ∀ i, s.calls i = s.submitted[i]?.elim [] fun item => (stage i).calls ⟨i, item⟩
  order : s.started <+: List.range s.submitted.length
  next : s.disposing = false → s.started ++ Q.map (·.id) = List.range s.submitted.length
  inflight : s.disposing = false → s.inflight = Q.length + s.running.length + F.length
  bound : s.inflight ≤ s.doneQueue.cap

/-- One more call is made for a job. -/
theorem calls_log {e : Event} (hlog : s'.log = s.log ++ [e]) (hsub : s'.submitted = s.submitted)
    {b : Stage}
    (hcalls : ∀ i, s.calls i = s.submitted[i]?.elim [] fun item => (stage i).calls ⟨i, item⟩)
    (hjob : s.submitted[e.job.id]? = some e.job.item)
    (hnext : (stage e.job.id).calls e.job ++ [e] = b.calls e.job) (i : Nat) :
    s'.calls i = s'.submitted[i]?.elim [] fun item => (Function.update stage e.job.id b i).calls
    ⟨i, item⟩ := by
  have hsplit : s'.calls i = s.calls i ++ if e.job.id = i then [e] else [] := by
    unfold KlThreadPool.calls
    rw [hlog, filter_append]
    by_cases heq : e.job.id = i
    · rw [if_pos heq, filter_singleton, beq_iff_eq.mpr heq]
      rfl
    · rw [if_neg heq, filter_singleton, beq_eq_false_iff_ne.mpr heq]
      rfl
  rw [hsplit, hsub, hcalls i]
  by_cases heq : e.job.id = i
  · subst heq
    rw [if_pos rfl, Function.update_self, hjob]
    exact hnext
  · rw [if_neg heq, append_nil, Function.update_of_ne (Ne.symm heq)]

/-- Workers move about, and none of them takes up or ends a job. -/
theorem Filed.idle (h : s.Filed Q F stage) (hwork : s'.workQueue = s.workQueue)
    (hdone : s'.doneQueue = s.doneQueue)
    (hin : s'.inflight = s.inflight) (hrun : s'.running.Perm s.running)
    (hsub : s'.submitted = s.submitted) (hlog : s'.log = s.log)
    (hphase : s'.disposing = false → s.disposing = false) : s'.Filed Q F stage := by
  refine ⟨hwork ▸ h.work, hdone ▸ h.done, hwork ▸ hdone ▸ h.cap, fun job hjob => ?_, ?_, ?_, ?_,
    fun i => ?_, ?_, fun hd => ?_, fun hd => ?_, ?_⟩
  · rw [hsub]
    exact h.jobs job (((hrun.append_left Q).append_right F).mem_iff.mp hjob)
  · rw [hsub]
    exact h.queued
  · rw [hsub]
    exact h.running.perm hrun
  · rw [hsub]
    exact h.finished
  · unfold KlThreadPool.calls
    rw [hlog, hsub]
    exact h.calls i
  · unfold KlThreadPool.started
    rw [hlog, hsub]
    exact h.order
  · unfold KlThreadPool.started
    rw [hlog, hsub]
    exact h.next (hphase hd)
  · rw [hin, hrun.length_eq]
    exact h.inflight (hphase hd)
  · rw [hin, hdone]
    exact h.bound

theorem running_set {i : Nat} {t t' : Worker} (ht : s.workers[i]? = some t) :
    (t.job.toList ++ (s.workers.set i t').filterMap Worker.job).Perm
    (t'.job.toList ++ s.running) := by
  obtain ⟨rest, hold, hnew⟩ := set_perm ht
  have hcons : ∀ t : Worker, (t :: rest).filterMap Worker.job =
      t.job.toList ++ rest.filterMap Worker.job := by
    intro t
    cases h : t.job with
    | none => rw [filterMap_cons_none h]; rfl
    | some job => rw [filterMap_cons_some h]; rfl
  have hold' : s.running.Perm (t.job.toList ++ rest.filterMap Worker.job) :=
    hcons t ▸ hold.filterMap _
  have hnew' : ((s.workers.set i t').filterMap Worker.job).Perm
      (t'.job.toList ++ rest.filterMap Worker.job) := hcons t' ▸ (hnew t').filterMap _
  refine (hnew'.append_left _).trans (List.Perm.trans ?_ (hold'.append_left _).symm)
  rw [← append_assoc, ← append_assoc]
  exact perm_append_comm.append_right _

theorem range_concat (n : Nat) : List.range n ++ [n] = List.range (n + 1) := range_succ.symm

variable {ws : List Worker}

/-- An item is accepted. -/
theorem Filed.accept (h : s.Filed Q F stage) {item : KlWorkItem}
    (hroom : s.inflight < s.doneQueue.cap) (hopen : s.disposing = false)
    (hrun : (ws.filterMap Worker.job).Perm s.running) :
    Filed { s with
      workQueue := s.workQueue.push ⟨s.submitted.length, item⟩, inflight := s.inflight + 1,
      workers := ws, submitted := s.submitted ++ [item] }
      (Q ++ [⟨s.submitted.length, item⟩]) F (Function.update stage s.submitted.length .queued) := by
  have hin := h.inflight hopen
  have hQ : Q.length < s.workQueue.cap := by
    rw [h.cap]
    omega
  have hlen : (s.submitted ++ [item]).length = s.submitted.length + 1 := length_append
  have hordered : s.started ++ (Q ++ [(⟨s.submitted.length, item⟩ : Job)]).map (·.id) =
      range (s.submitted ++ [item]).length := by
    rw [map_append, ← append_assoc, h.next hopen, hlen]
    exact range_concat _
  refine ⟨h.work.push hQ, h.done, h.cap, fun job hjob => ?_, ?_, ?_, ?_, fun i => ?_, ⟨_, hordered⟩,
    fun _ => hordered, fun _ => ?_, ?_⟩
  · have hmem : job ∈ Q ++ s.running ++ F ∨ job = ⟨s.submitted.length, item⟩ := by
      have hr : job ∈ ws.filterMap Worker.job ↔ job ∈ s.running := hrun.mem_iff
      simp only [mem_append, mem_singleton] at hjob ⊢
      rcases hjob with ((hjob | hjob) | hjob) | hjob
      · exact .inl (.inl (.inl hjob))
      · exact .inr hjob
      · exact .inl (.inl (.inr (hr.mp hjob)))
      · exact .inl (.inr hjob)
    rcases hmem with hmem | rfl
    · have hold := h.jobs job hmem
      exact (getElem?_append_left (List.getElem?_eq_some_iff.mp hold).1).trans hold
    · exact getElem?_concat_length
  · rw [hlen]
    exact h.queued.enqueue item
  · rw [hlen]
    exact (h.running.perm hrun).grow (by decide)
  · rw [hlen]
    exact h.finished.grow (by decide)
  · refine (h.calls i).trans ?_
    rcases Nat.lt_trichotomy i s.submitted.length with hlt | rfl | hgt
    · rw [getElem?_append_left hlt, Function.update_of_ne (Nat.ne_of_lt hlt)]
    · rw [getElem?_eq_none (Nat.le_refl _), getElem?_concat_length, Function.update_self]
      rfl
    · rw [getElem?_eq_none (Nat.le_of_lt hgt), getElem?_eq_none (hlen ▸ hgt)]
      rfl
  · have hsame : (ws.filterMap Worker.job).length = s.running.length := hrun.length_eq
    show s.inflight + 1 = ((Q ++ [_]).length : Int) + ((ws.filterMap Worker.job).length : Int) +
      (F.length : Int)
    rw [length_append, length_singleton, hsame, hin]
    omega
  · exact hroom

/-- A worker takes the oldest item and calls its work function. -/
theorem Filed.take (h : s.Filed (job :: Q) F stage) (hopen : s.disposing = false)
    (hrun : (ws.filterMap Worker.job).Perm (job :: s.running)) :
    Filed { s with workQueue := s.workQueue.pop.2, workers := ws, log := s.log ++ [.start job] } Q F
      (Function.update stage job.id .running) := by
  have hjob : s.submitted[job.id]? = some job.item :=
    h.jobs job (mem_append_left _ (mem_append_left _ mem_cons_self))
  obtain ⟨hlt, hstage⟩ := h.queued.at_of_mem mem_cons_self
  have hstarted : (s.log ++ [Event.start job]).filterMap Event.started = s.started ++ [job.id] :=
    filterMap_append
  have hordered : (s.log ++ [Event.start job]).filterMap Event.started ++ Q.map (·.id) =
      range s.submitted.length := by
    rw [hstarted, append_assoc]
    exact h.next hopen
  refine ⟨h.work.pop.2, h.done, h.cap, fun job' hjob' => ?_,
    h.queued.leave (List.Perm.refl _) (by decide),
    h.running.arrive hrun hlt (hstage.trans_ne (by decide)),
      h.finished.stay (hstage.trans_ne (by decide)) (by decide), ?_, ⟨_, hordered⟩, fun _ =>
      hordered, fun _ => ?_, h.bound⟩
  · refine h.jobs job' ?_
    have hr : job' ∈ ws.filterMap Worker.job ↔ job' ∈ job :: s.running := hrun.mem_iff
    have hmem : job' ∈ Q ++ ws.filterMap Worker.job ++ F := hjob'
    simp only [mem_append, mem_cons] at hmem hr ⊢
    tauto
  · refine @calls_log s { s with log := s.log ++ [.start job] } stage (.start job) rfl rfl .running
      h.calls hjob ?_
    show (stage job.id).calls job ++ _ = _
    rw [hstage]
    rfl
  · have hsame : (ws.filterMap Worker.job).length = s.running.length + 1 := hrun.length_eq
    show s.inflight = (Q.length : Int) + ((ws.filterMap Worker.job).length : Int) + (F.length : Int)
    rw [hsame, h.inflight hopen, length_cons]
    omega

/-- A work function returned, and its job goes to the done queue. -/
theorem Filed.finish (h : s.Filed Q F stage) (hopen : s.disposing = false)
    (hrun : s.running.Perm (job :: ws.filterMap Worker.job)) :
    Filed { s with doneQueue := s.doneQueue.push job, workers := ws,
                   log := s.log ++ [.finish job] } Q (F ++ [job])
      (Function.update stage job.id .finished) := by
  have hmem : job ∈ s.running := hrun.mem_iff.mpr mem_cons_self
  have hjob : s.submitted[job.id]? = some job.item :=
    h.jobs job (mem_append_left _ (mem_append_right _ hmem))
  obtain ⟨hlt, hstage⟩ := h.running.at_of_mem hmem
  have hsame : s.running.length = (ws.filterMap Worker.job).length + 1 := hrun.length_eq
  have hin := h.inflight hopen
  have hbound := h.bound
  have hF : F.length < s.doneQueue.cap := by omega
  have hstarted : (s.log ++ [Event.finish job]).filterMap Event.started = s.started :=
    filterMap_append.trans (append_nil _)
  have horder : (s.log ++ [Event.finish job]).filterMap Event.started <+:
      range s.submitted.length := hstarted.symm ▸ h.order
  have hnext (hd : s.disposing = false) : (s.log ++ [Event.finish job]).filterMap Event.started ++
      Q.map (·.id) = range s.submitted.length :=
    hstarted.symm ▸ h.next hd
  refine ⟨h.work, h.done.push hF, h.cap, fun job' hjob' => ?_,
    h.queued.stay (hstage.trans_ne (by decide)) (by decide), h.running.leave hrun (by decide),
    h.finished.arrive (perm_append_singleton job F) hlt (hstage.trans_ne (by decide)), ?_, horder,
      hnext, fun _ => ?_, h.bound⟩
  · refine h.jobs job' ?_
    have hr : job' ∈ s.running ↔ job' ∈ job :: ws.filterMap Worker.job := hrun.mem_iff
    have hmem' : job' ∈ Q ++ ws.filterMap Worker.job ++ (F ++ [job]) := hjob'
    simp only [mem_append, mem_cons, not_mem_nil, or_false] at hmem' hr ⊢
    tauto
  · refine @calls_log s { s with log := s.log ++ [.finish job] } stage
      (.finish job) rfl rfl .finished h.calls hjob ?_
    show (stage job.id).calls job ++ _ = _
    rw [hstage]
    rfl
  · show s.inflight = (Q.length : Int) + ((ws.filterMap Worker.job).length : Int) +
      ((F ++ [job]).length : Int)
    rw [length_append, length_singleton]
    omega

/-- A done function is called; `loop` is where the loop thread goes. -/
theorem Filed.deliver (h : s.Filed Q (job :: F) stage) {loop : Loop} {inflight : Int}
    (hle : inflight ≤ s.inflight)
    (hin : { s with loop }.disposing = false → s.disposing = false ∧ inflight = s.inflight - 1) :
    Filed { s with doneQueue := s.doneQueue.pop.2, inflight, loop, log := s.log ++ [.done job] } Q F
      (Function.update stage job.id .delivered) := by
  have hjob : s.submitted[job.id]? = some job.item := h.jobs job (mem_append_right _ mem_cons_self)
  obtain ⟨hlt, hstage⟩ := h.finished.at_of_mem mem_cons_self
  have hstarted : (s.log ++ [Event.done job]).filterMap Event.started = s.started :=
    filterMap_append.trans (append_nil _)
  have horder : (s.log ++ [Event.done job]).filterMap Event.started <+: range s.submitted.length :=
    hstarted.symm ▸ h.order
  have hnext (hd : s.disposing = false) : (s.log ++ [Event.done job]).filterMap Event.started ++
      Q.map (·.id) = range s.submitted.length :=
    hstarted.symm ▸ h.next hd
  refine ⟨h.work, h.done.pop.2, h.cap, fun job' hjob' => ?_,
    h.queued.stay (hstage.trans_ne (by decide)) (by decide),
    h.running.stay (hstage.trans_ne (by decide)) (by decide),
    h.finished.leave (List.Perm.refl _) (by decide), ?_, horder, fun hd => hnext (hin hd).1,
      fun hd => ?_, Int.le_trans hle h.bound⟩
  · refine h.jobs job' ?_
    rcases mem_append.mp hjob' with hjob' | hjob'
    · exact mem_append_left _ hjob'
    · exact mem_append_right _ (mem_cons_of_mem job hjob')
  · refine @calls_log s { s with log := s.log ++ [.done job] } stage (.done job) rfl rfl .delivered
      h.calls hjob ?_
    show (stage job.id).calls job ++ _ = _
    rw [hstage]
    rfl
  · obtain ⟨hopen, heq⟩ := hin hd
    show inflight = (Q.length : Int) + (s.running.length : Int) + (F.length : Int)
    rw [heq, h.inflight hopen, length_cons]
    omega

/-- The teardown disposes of an item that was never started. -/
theorem Filed.drop (h : s.Filed (job :: Q) F stage) :
    Filed { s with workQueue := s.workQueue.pop.2, loop := .cancel job,
                   log := s.log ++ [.disposed job] } Q F
      (Function.update stage job.id .dropped) := by
  have hjob : s.submitted[job.id]? = some job.item :=
    h.jobs job (mem_append_left _ (mem_append_left _ mem_cons_self))
  obtain ⟨hlt, hstage⟩ := h.queued.at_of_mem mem_cons_self
  have hstarted : (s.log ++ [Event.disposed job]).filterMap Event.started = s.started := by
    rw [filterMap_append, filterMap_cons_none (Event.started_disposed job)]
    exact append_nil _
  have horder : (s.log ++ [Event.disposed job]).filterMap Event.started <+:
      range s.submitted.length := hstarted.symm ▸ h.order
  have hshut {P : Prop} (hd : true = false) : P := absurd hd (by decide)
  refine ⟨h.work.pop.2, h.done, h.cap, fun job' hjob' => h.jobs job' (mem_cons_of_mem job hjob'),
    h.queued.leave (List.Perm.refl _) (by decide),
      h.running.stay (hstage.trans_ne (by decide)) (by decide),
    h.finished.stay (hstage.trans_ne (by decide)) (by decide), fun i => ?_, horder, hshut, hshut,
      h.bound⟩
  have hcalls :=
    @calls_log s { s with log := s.log ++ [.disposed job] } stage (.disposed job) rfl rfl .dropped
    h.calls
  rw [Event.job_disposed] at hcalls
  refine hcalls hjob ?_ i
  rw [hstage]
  rfl

end KlThreadPool

end ThreadPool
