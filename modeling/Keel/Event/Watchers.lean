-- SUMMARY: The watchers of an event context, and the nodes kept back.
import Keel.Limits
import Keel.Reentrant.Machine
import Mathlib.Data.List.Nodup
import Mathlib.Data.List.Perm.Basic

/-!
# Watchers

A watcher is a node of a list, and the backend knows it by its address. A batch of events names the
nodes that were registered when it was captured; a callback of the batch may delete them and add
others. An address that was freed may be given out again. What the allocator and the backend answer
is read from an `EventWorld`.

Each node that is linked gets a registration number, and the context keeps a record of the deleted
and the freed ones. Neither is read by the code.
-/

namespace Watch

open Reentrant

def KL_EVENT_WRITE : Nat := 2

structure KlWatcher where
  node : Nat
  fd : Nat
  mask : Nat
  onReady : Nat
  userData : Nat
  reg : Nat
deriving DecidableEq, Repr

/-- A captured event: the tagged pointer and what is ready, with the registration it was captured
for. -/
structure KlEvent where
  node : Nat
  ready : Nat
  reg : Nat
deriving DecidableEq, Repr

/-- The answers to the `n`-th question of each kind. -/
structure EventWorld where
  malloc : Nat → Option Nat
  eventAdd : Nat → Bool
  eventMod : Nat → Bool

structure KlEventCtx where
  watchers : List KlWatcher
  retired : List KlWatcher
  dispatchDepth : Nat
  dispatchDirty : Bool
  /-- The descriptors that the backend watches, with the nodes it names for them. -/
  loop : List (Nat × Nat)
  allocs : Nat
  adds : Nat
  mods : Nat
  nextReg : Nat
  /-- The brackets that were opened by `dispatchBegin`, and the events captured under them. -/
  own : Nat
  held : List KlEvent
  deleted : List Nat
  /-- The freed registrations, with the depth they were freed at. -/
  reclaimed : List (Nat × Nat)

/-- What a backend reports: a watched descriptor that is ready, or a connect that was posted with
the tag of a descriptor's watcher. -/
inductive Source where
  | ready (fd : Nat)
  | connect (fd : Nat)
deriving DecidableEq, Repr

namespace KlEventCtx

def start : KlEventCtx :=
  { watchers := [], retired := [], dispatchDepth := 0, dispatchDirty := false, loop := [],
    allocs := 0, adds := 0, mods := 0, nextReg := 0
    own := 0, held := [], deleted := [], reclaimed := [] }

variable (w : EventWorld) (s : KlEventCtx)

/-- The nodes that are not free. -/
def nodes : List Nat := (s.watchers ++ s.retired).map (·.node)

/-- `kl_malloc` of a node: any address that is free. -/
def mallocNode : Option Nat := (w.malloc s.allocs).filter fun a => !s.nodes.contains a

/-- `kl_event_mod` -/
def eventMod (fd node : Nat) : KlEventCtx × Int :=
  if w.eventMod s.mods then
    ({ s with mods := s.mods + 1, loop := (fd, node) :: s.loop.filter (·.1 != fd) }, 0)
  else ({ s with mods := s.mods + 1 }, -1)

/-- A watcher's fields are replaced in place. -/
def update (fd : Nat) (f : KlWatcher → KlWatcher) : KlEventCtx :=
  { s with watchers := s.watchers.map fun e => if e.fd = fd then f e else e }

/-- `kl_watcher_add` -/
def watcherAdd (fd mask onReady userData : Nat) : KlEventCtx × Int :=
  match s.watchers.find? (·.fd == fd) with
  | some e => { s.update fd fun e =>
    { e with mask, onReady, userData } with dispatchDirty := true }.eventMod w fd e.node
  | none =>
    match s.mallocNode w with
    | none => ({ s with allocs := s.allocs + 1 }, -1)
    | some node =>
      if w.eventAdd s.adds then
        ({ s with
           allocs := s.allocs + 1, adds := s.adds + 1, nextReg := s.nextReg + 1,
             loop := (fd, node) :: s.loop.filter (·.1 != fd)
           watchers := { node, fd, mask, onReady, userData, reg := s.nextReg } :: s.watchers }, 0)
      -- the node is unlinked and freed again
      else ({ s with allocs := s.allocs + 1, adds := s.adds + 1 }, -1)

/-- `kl_watcher_add_detached`: a node that the backend does not watch. -/
def watcherAddDetached (fd onReady userData : Nat) : KlEventCtx × Int :=
  match s.watchers.find? (·.fd == fd) with
  | some _ => (s.update fd fun e => { e with mask := KL_EVENT_WRITE, onReady, userData }, 0)
  | none =>
    match s.mallocNode w with
    | none => ({ s with allocs := s.allocs + 1 }, -1)
    | some node =>
      ({ s with
         allocs := s.allocs + 1, nextReg := s.nextReg + 1
         watchers := { node, fd, mask := KL_EVENT_WRITE, onReady, userData, reg := s.nextReg } ::
           s.watchers }, 0)

/-- `kl_watcher_mod` -/
def watcherMod (fd mask : Nat) : KlEventCtx × Int :=
  match s.watchers.find? (·.fd == fd) with
  | none => (s, -1)
  | some e =>
    { s.update fd fun e => { e with mask } with dispatchDirty := true }.eventMod w fd e.node

/-- `kl_watcher_rearm` -/
def watcherRearm (fd : Nat) : KlEventCtx × Int :=
  match s.watchers.find? (·.fd == fd) with
  | none => (s, 0)
  | some e => s.eventMod w fd e.node

/-- `kl_watcher_del`: during a batch the node is kept back. -/
def watcherDel (fd : Nat) : KlEventCtx :=
  match s.watchers.find? (·.fd == fd) with
  | none => s
  | some e =>
    let s := { s with
      watchers := s.watchers.eraseP (·.fd == fd), loop := s.loop.filter (·.1 != fd),
        dispatchDirty := true, deleted := s.deleted ++ [e.reg] }
    if 0 < s.dispatchDepth then { s with retired := e :: s.retired }
    else { s with reclaimed := s.reclaimed ++ [(e.reg, s.dispatchDepth)] }

/-- `kl_event_ctx_dispatch_begin` -/
def dispatchBegin : Option KlEventCtx :=
  if s.dispatchDepth = INT_MAX then none else some { s with dispatchDepth := s.dispatchDepth + 1 }

/-- `kl_ctx_reclaim_retired` -/
def reclaimRetired : KlEventCtx :=
  { s with retired := [], reclaimed := s.reclaimed ++ s.retired.map fun e =>
           (e.reg, s.dispatchDepth) }

/-- `kl_event_ctx_dispatch_end` -/
def dispatchEnd : KlEventCtx :=
  if s.dispatchDepth = 0 then s
  else
    let s := { s with dispatchDepth := s.dispatchDepth - 1 }
    if s.dispatchDepth = 0 then s.reclaimRetired else s

/-- The event that a backend reports for a node. -/
def eventFor (node ready : Nat) : KlEvent :=
  { node, ready
    reg :=
      match s.watchers.find? (·.node == node) with
      | some e => e.reg
      | none => s.nextReg }

/-- An event is captured. -/
def capture (src : Source) (ready : Nat) : Option KlEvent :=
  match src with
  | .ready fd => (s.loop.find? (·.1 == fd)).map fun p => s.eventFor p.2 ready
  | .connect fd => (s.watchers.find? (·.fd == fd)).map fun e => s.eventFor e.node ready

/-- `kl_event_wait` -/
def eventWait (reports : List (Source × Nat)) : List KlEvent :=
  reports.filterMap fun r => s.capture r.1 r.2

end KlEventCtx

/-- A callback `on_ready` and what is left of its batch. `captured` and `delivered` are the
registrations the event was captured for and is given to. -/
structure WatchFrame where
  fd : Nat
  ready : Nat
  onReady : Nat
  userData : Nat
  captured : Nat
  delivered : Nat
  rest : List KlEvent
  batch : Bool
deriving DecidableEq, Repr

inductive WatchOp where
  | add (fd mask onReady userData : Nat)
  | addDetached (fd onReady userData : Nat)
  | mod (fd mask : Nat)
  | rearm (fd : Nat)
  | del (fd : Nat)
  | dispatchBegin
  | dispatchEnd
  /-- A batch that is captured under a bracket of the caller's own, and one of its events. -/
  | wait (reports : List (Source × Nat))
  | dispatch (i : Nat)
  /-- One event that is no part of a batch. -/
  | dispatchOne (src : Source) (ready : Nat)
  /-- `kl_event_ctx_run` -/
  | run (reports : List (Source × Nat))

namespace KlEventCtx

variable (w : EventWorld)

/-- `kl_event_dispatch` over the events of a batch, up to the next callback. -/
def dispatchEvents (batch : Bool) : List KlEvent → KlEventCtx → Out KlEventCtx WatchFrame Int
  | [], s => .done (if batch then s.dispatchEnd else s) 0
  | ev :: rest, s =>
    match s.watchers.find? (·.node == ev.node) with
    | none => dispatchEvents batch rest s
    | some e =>
      .call { s with dispatchDirty := false }
        { fd := e.fd, ready := ev.ready, onReady := e.onReady, userData := e.userData,
          captured := ev.reg, delivered := e.reg, rest, batch }

/-- After a callback: the watcher is armed again, unless the callback changed a watcher. -/
def dispatched (s : KlEventCtx) (f : WatchFrame) : Out KlEventCtx WatchFrame Int :=
  dispatchEvents f.batch f.rest (if s.dispatchDirty then s else (s.watcherRearm w f.fd).1)

/-- The caller's own brackets. -/
def ownBegin (s : KlEventCtx) : Out KlEventCtx WatchFrame Int :=
  match s.dispatchBegin with
  | none => .done s (-1)
  | some s => .done { s with own := s.own + 1 } 0

def ownEnd (s : KlEventCtx) : Out KlEventCtx WatchFrame Int :=
  let s := s.dispatchEnd
  .done { s with own := s.own - 1, held := if s.own - 1 = 0 then [] else s.held } 0

end KlEventCtx

open KlEventCtx in
/-- The event context under its callbacks. -/
def machine (w : EventWorld) : Machine KlEventCtx WatchOp WatchFrame Unit Int where
  enter op s :=
    match op with
    | .add fd mask onReady userData =>
      .done (s.watcherAdd w fd mask onReady userData).1 (s.watcherAdd w fd mask onReady userData).2
    | .addDetached fd onReady userData =>
      .done (s.watcherAddDetached w fd onReady userData).1
      (s.watcherAddDetached w fd onReady userData).2
    | .mod fd mask => .done (s.watcherMod w fd mask).1 (s.watcherMod w fd mask).2
    | .rearm fd => .done (s.watcherRearm w fd).1 (s.watcherRearm w fd).2
    | .del fd => .done (s.watcherDel fd) 0
    | .dispatchBegin => s.ownBegin
    | .dispatchEnd => s.ownEnd
    | .wait reports => .done { s with held := s.held ++ s.eventWait reports } 0
    | .dispatch i =>
      match s.held[i]? with
      | none => .done s (-1)
      | some ev => dispatchEvents false [ev] { s with held := s.held.eraseIdx i }
    | .dispatchOne src ready => dispatchEvents false (s.capture src ready).toList s
    | .run reports =>
      match s.dispatchBegin with
      | none => .done s (-1)
      | some s => dispatchEvents true (s.eventWait reports) s
  resume f _ s := s.dispatched w f

end Watch
