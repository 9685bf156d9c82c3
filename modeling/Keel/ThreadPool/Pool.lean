-- SUMMARY: The thread pool as one step system.
import Keel.Limits
import Keel.Interleaved.System
import Keel.Queue.Cyclic

/-!
# Thread pool

The state of the pool and of the threads in it. A step is one critical section of one thread, or the
return of a function that the pool called. The condition variable keeps the workers that wait on it
apart from those that were woken.

Each item that is accepted gets a number, and the pool keeps a log of the calls made for it. Neither
is read by the code. -/

namespace ThreadPool

open Interleaved


def KL_TP_DEFAULT_CAPACITY : Nat := 64

structure KlWorkItem where
  workFn : Option Nat
  doneFn : Option Nat
  cancelFn : Option Nat
  userData : Nat
deriving DecidableEq, Repr

/-- An item that was accepted. -/
structure Job where
  id : Nat
  item : KlWorkItem
deriving DecidableEq, Repr

/-- Where a worker thread is: at the head of its loop, waiting for `work_avail`, in a work function,
between the done queue and the wakeup, or gone. -/
inductive Worker where
  | top
  | waiting
  | running (job : Job)
  | signalling
  | exited
deriving DecidableEq, Repr

def Worker.job : Worker → Option Job
  | .running job => some job
  | _ => none

/-- Where the loop thread is: outside of the pool, in a done function, joining the workers, in a
done function or at a cancel function of the teardown, or past it. -/
inductive Loop where
  | idle
  | done (job : Job)
  | joining
  | drain (job : Job)
  | cancel (job : Job)
  | freed
deriving DecidableEq, Repr

def Loop.disposing : Loop → Bool
  | .drain _ | .cancel _ | .freed => true
  | _ => false

/-- A work function is called and returns, a done function is called, a cancel function is called or
there is none. -/
inductive Event where
  | start (job : Job)
  | finish (job : Job)
  | done (job : Job)
  | cancel (job : Job)
  | discard (job : Job)
deriving DecidableEq, Repr

def Event.job : Event → Job
  | .start job | .finish job | .done job | .cancel job | .discard job => job

/-- How an item that was never started is disposed of. -/
def Event.disposed (job : Job) : Event :=
  if job.item.cancelFn.isSome then .cancel job else .discard job

def Event.started : Event → Option Nat
  | .start job => some job.id
  | _ => none

structure KlThreadPool where
  workQueue : Cyclic Job
  doneQueue : Cyclic Job
  inflight : Int
  /-- A byte waits in the wakeup channel, and its watcher is registered. -/
  wakeup : Bool
  watched : Bool
  shutdown : Bool
  dispatching : Bool
  freeRequested : Bool
  destroying : Bool
  workers : List Worker
  loop : Loop
  submitted : List KlWorkItem
  log : List Event

/-- `kl_thread_pool_create` with `started` of the workers running; `cpus` is what auto-detection
finds. -/
def create (numWorkers queueCapacity cpus started : Nat) : Option KlThreadPool :=
  let queueCap := if 0 < queueCapacity then queueCapacity else KL_TP_DEFAULT_CAPACITY
  let numWorkers := if 0 < numWorkers then numWorkers else cpus
  if INT_MAX / 2 < queueCap ∨ INT_MAX / 2 < numWorkers then none
  else if started = 0 ∨ numWorkers < started then none
  else
    some
      { workQueue := .empty (queueCap + numWorkers), doneQueue := .empty (queueCap + numWorkers),
        inflight := 0, wakeup := false
        watched := true, shutdown := false, dispatching := false, freeRequested := false,
          destroying := false
        workers := List.replicate started .top, loop := .idle, submitted := [], log := [] }

/-- What can happen next. `submit` may come from any thread; `signalled` is the worker that the
condition variable picks. -/
inductive Act where
  | submit (item : KlWorkItem) (signalled : Nat)
  | worker (i : Nat)
  | spurious (i : Nat)
  | onPipe
  | returns
  | free
  | joined
deriving DecidableEq, Repr

/-- `kl_plat_cond_signal`: one of the waiting workers is woken, if there is any. -/
def condSignal (workers : List Worker) (i : Nat) : List Worker :=
  if workers[i]? = some .waiting then workers.set i .top
  else workers.set (workers.findIdx (· == .waiting)) .top

/-- `kl_plat_cond_broadcast` -/
def condBroadcast (workers : List Worker) : List Worker :=
  workers.map fun t => if t = .waiting then .top else t

namespace KlThreadPool

variable (s : KlThreadPool)

/-- `kl_thread_pool_submit` -/
def submit (item : KlWorkItem) (signalled : Nat) : KlThreadPool :=
  if item.workFn.isNone || item.doneFn.isNone then s
  else if s.shutdown || s.freeRequested || decide ((s.doneQueue.cap : Int) ≤ s.inflight) then s
  else
    { s with
      workQueue := s.workQueue.push ⟨s.submitted.length, item⟩, inflight := s.inflight + 1,
        workers := condSignal s.workers signalled
      submitted := s.submitted ++ [item] }

/-- `worker_thread`: the next step of worker `i`. -/
def workerStep (i : Nat) : Option KlThreadPool :=
  match s.workers[i]? with
  | some .top =>
    if s.shutdown then some { s with workers := s.workers.set i .exited }
    else if s.workQueue.count = 0 then some { s with workers := s.workers.set i .waiting }
    else
      s.workQueue.pop.1.map fun job =>
        { s with workQueue := s.workQueue.pop.2, workers := s.workers.set i (.running job),
                 log := s.log ++ [.start job] }
  | some (.running job) =>
    some { s with doneQueue := s.doneQueue.push job, workers := s.workers.set i .signalling,
                  log := s.log ++ [.finish job] }
  | some .signalling => some { s with wakeup := true, workers := s.workers.set i .top }
  | _ => none

/-- A wait may end without a signal. -/
def spurious (i : Nat) : Option KlThreadPool :=
  if s.workers[i]? = some .waiting then some { s with workers := s.workers.set i .top } else none

/-- The loop of `thread_pool_on_pipe`, up to the next done function. -/
def deliver : Option KlThreadPool :=
  if 0 < s.doneQueue.count then
    s.doneQueue.pop.1.map fun job =>
      { s with doneQueue := s.doneQueue.pop.2, inflight := s.inflight - 1, loop := .done job,
               log := s.log ++ [.done job] }
  else some { s with dispatching := false, loop := .idle }

/-- `thread_pool_on_pipe` -/
def onPipe : Option KlThreadPool :=
  if s.dispatching then some s else { s with dispatching := true, wakeup := false }.deliver

/-- `kl_thread_pool_free` up to the join. -/
def beginFree : KlThreadPool :=
  { s with destroying := true, shutdown := true, workers := condBroadcast s.workers,
           loop := .joining }

/-- `kl_thread_pool_free` -/
def free : KlThreadPool :=
  if s.destroying then s
  else if s.dispatching then { s with freeRequested := true, watched := false }
  else s.beginFree

/-- The end of `kl_thread_pool_free`: what was never started, up to the next cancel function. -/
def cancelWork : Option KlThreadPool :=
  if 0 < s.workQueue.count then
    s.workQueue.pop.1.map fun job =>
      { s with workQueue := s.workQueue.pop.2, loop := .cancel job,
               log := s.log ++ [.disposed job] }
  else some { s with loop := .freed }

/-- The rest of `kl_thread_pool_free` after the join, up to the next function that it calls. -/
def dispose : Option KlThreadPool :=
  if 0 < s.doneQueue.count then
    s.doneQueue.pop.1.map fun job => { s with doneQueue := s.doneQueue.pop.2, loop := .drain job,
                                              log := s.log ++ [.done job] }
  else s.cancelWork

/-- The function that the loop thread is in returns. -/
def returns : Option KlThreadPool :=
  match s.loop with
  | .done _ => if s.freeRequested then some { s with dispatching := false }.beginFree else s.deliver
  | .drain _ => s.dispose
  | .cancel _ => s.cancelWork
  | _ => none

/-- The loop thread can run code of its own: it is not joining, and the pool exists. -/
def unblocked : Bool :=
  match s.loop with
  | .joining | .freed => false
  | _ => true

def step : Act → Option KlThreadPool
  | .submit item signalled => if s.loop = .freed then none else some (s.submit item signalled)
  | .worker i => s.workerStep i
  | .spurious i => s.spurious i
  | .onPipe => if s.unblocked && s.watched && s.wakeup then s.onPipe else none
  | .returns => s.returns
  | .free => if s.unblocked then some s.free else none
  | .joined =>
    if s.loop = .joining ∧ s.workers.all (· == .exited) then { s with watched := false }.dispose
    else none

end KlThreadPool

/-- The pool and its threads. -/
def system : System KlThreadPool Act := ⟨KlThreadPool.step⟩

namespace KlThreadPool

variable (s : KlThreadPool)

/-- The calls made for one item, in order. -/
def calls (i : Nat) : List Event := s.log.filter (·.job.id == i)

/-- The jobs whose work functions run. -/
def running : List Job := s.workers.filterMap Worker.job

/-- The items whose work functions were called, in order. -/
def started : List Nat := s.log.filterMap Event.started

/-- The teardown disposes of what is left in the queues. -/
def disposing : Bool := s.loop.disposing

end KlThreadPool

end ThreadPool
