-- SUMMARY: The client's connection pool.
import Keel.Table.Slots
import Keel.Timer.Machine

/-!
# The connection pool of the HTTP client

A flat table of idle connections. An entry is free when it holds no descriptor. A descriptor is
an open socket, not its number: two sockets that get the same number one after the other are
two descriptors. The pool is modelled with what surrounds it, the connections that callers hold
and the idle timers that are pending, and with a log of what was done.
-/

open Slots

/-- The TLS config of a request: its context and its factory, as pointers. -/
structure KlTlsConfig where
  ctx : Option Nat
  factory : Option Nat
deriving DecidableEq

@[ext] structure PoolTlsKey where
  ctx : Option Nat
  factory : Option Nat
deriving DecidableEq

def poolTlsKey : Option KlTlsConfig → PoolTlsKey
  | none => ⟨none, none⟩
  | some tls => ⟨tls.ctx, tls.factory⟩

/-- Where a connection goes, as the callers say it. -/
structure PoolSite where
  host : List UInt8
  port : Int
  proxyHost : Option (List UInt8)
  proxyPort : Int
deriving DecidableEq

/-- The arguments that `pool_acquire` and `pool_release` have in common. -/
structure PoolTarget extends PoolSite where
  isTls : Int
  tk : PoolTlsKey
deriving DecidableEq

/-- What a connection is pooled under. -/
structure PoolKey where
  host : List UInt8
  port : Int
  isTls : Int
  tk : PoolTlsKey
  proxy : Option (List UInt8 × Int)
deriving DecidableEq

def PoolTarget.key (t : PoolTarget) : PoolKey :=
  { host := t.host, port := t.port, isTls := t.isTls, tk := t.tk,
    proxy := t.proxyHost.map (·, t.proxyPort) }

/-- The target of the entry points that carry no TLS config. -/
def PoolSite.plain (site : PoolSite) (isTls : Int) : PoolTarget :=
  { site with isTls, tk := poolTlsKey none }

/-- The target of the entry points that carry one. -/
def PoolSite.secured (site : PoolSite) (tls : Option KlTlsConfig) : PoolTarget :=
  { site with isTls := if tls.isSome then 1 else 0, tk := poolTlsKey tls }

structure KlHttpClientPoolConn where
  fd : Option Nat
  tls : Option Nat
  reused : Bool
deriving DecidableEq

/-- What the peek at a pooled connection says. -/
inductive Peek where
  | peerClosed | data | wouldBlock | failed
deriving DecidableEq

/-- What is done to connections and timers, in the order newest first. -/
inductive PoolEvent where
  | opened (fd : Nat)
  | released (fd : Nat) (key : PoolKey) (sockets : Option Nat)
  | acquired (fd : Nat) (key : PoolKey) (sockets : Option Nat) (peek : Peek)
  | shutdown (tls fd : Nat)
  | destroyed (tls : Nat)
  | closed (fd : Nat) (sockets : Option Nat)
  | armed (id fd : Nat)
  | timedOut (id fd : Nat)
deriving DecidableEq

/-- End a TLS session, if there is one, and close the descriptor. -/
def closing (tls : Option Nat) (fd : Nat) (sockets : Option Nat) : List PoolEvent :=
  match tls with
  | none => [.closed fd sockets]
  | some t => [.closed fd sockets, .destroyed t, .shutdown t fd]

structure KlHttpClientPoolEntry where
  host : List UInt8
  port : Int
  isTls : Int
  tlsCtx : Option Nat
  tlsFactory : Option Nat
  proxyHost : List UInt8
  proxyPort : Int
  fd : Option Nat
  tls : Option Nat
  sockets : Option Nat
  idleSinceMs : Nat
  timerId : Option Nat
deriving DecidableEq

namespace KlHttpClientPoolEntry

/-- A free slot. The fields that the allocation leaves unset are zero. -/
def free : KlHttpClientPoolEntry :=
  { host := [], port := 0, isTls := 0, tlsCtx := none, tlsFactory := none, proxyHost := [],
    proxyPort := 0, fd := none, tls := none, sockets := none, idleSinceMs := 0, timerId := none }

variable (e : KlHttpClientPoolEntry)

def entryMatches (t : PoolTarget) : Bool :=
  if e.fd.isNone || e.port != t.port || e.isTls != t.isTls || e.host != t.host then false
  else if e.tlsCtx != t.tk.ctx || e.tlsFactory != t.tk.factory then false
  else
    match t.proxyHost with
    | some host => e.proxyPort == t.proxyPort && e.proxyHost == host
    | none => e.proxyHost.isEmpty

/-- The entry that `entry_close` leaves. -/
def entryClose : KlHttpClientPoolEntry := { e with fd := none, tls := none }

/-- What `entry_close` does to the connection. -/
def closeEvents : List PoolEvent :=
  match e.fd with
  | none => (e.tls.map PoolEvent.destroyed).toList
  | some fd => closing e.tls fd e.sockets

/-- A closed entry after its timer is forgotten, and its host where the caller clears it. -/
def vacate (clearHost : Bool) : KlHttpClientPoolEntry :=
  { e.entryClose with timerId := none, host := if clearHost then [] else e.host }

end KlHttpClientPoolEntry

/-- The event context of a pool, as far as the pool reads it. -/
structure PoolEvCtx where
  sockets : Option Nat

inductive PoolError where
  | none | invalidArg
deriving DecidableEq

structure KlHttpClientPool where
  entries : List KlHttpClientPoolEntry
  active : Int
  maxPerHost : Nat
  idleMs : Nat
  evCtx : Option PoolEvCtx
  lastError : PoolError

structure KlHttpClientPoolConfig where
  capacity : Int
  maxPerHost : Int
  idleMs : Nat

def KL_HTTP_CLIENT_POOL_DEFAULT_CAPACITY : Int := 32
def KL_HTTP_CLIENT_POOL_DEFAULT_MAX_PER_HOST : Int := 4
def KL_HTTP_CLIENT_POOL_DEFAULT_IDLE_MS : Nat := 60000
def KL_HTTP_CLIENT_HOSTNAME_MAX : Nat := 256

namespace KlHttpClientPool

/-- A pool that `kl_http_client_pool_init` has set up. -/
def init (cfg : Option KlHttpClientPoolConfig) (evCtx : Option PoolEvCtx) : KlHttpClientPool :=
  let cap := ((cfg.map (·.capacity)).filter (0 < ·)).getD KL_HTTP_CLIENT_POOL_DEFAULT_CAPACITY
  let mph := ((cfg.map (·.maxPerHost)).filter (0 < ·)).getD KL_HTTP_CLIENT_POOL_DEFAULT_MAX_PER_HOST
  let idle := ((cfg.map (·.idleMs)).filter (0 < ·)).getD KL_HTTP_CLIENT_POOL_DEFAULT_IDLE_MS
  { entries := List.replicate cap.toNat .free, active := 0, maxPerHost := mph.toNat, idleMs := idle,
    evCtx, lastError := .none }

variable (p : KlHttpClientPool)

def capacity : Nat := p.entries.length

/-- The provider of the entry points that carry none. -/
def cpoolSp : Option Nat := p.evCtx.bind (·.sockets)

/-- The number of valid slots. -/
def validSlots : Nat := p.entries.countP (·.fd.isSome)

/-- The first loop of a release: how many connections its key and provider have, and the oldest. -/
def atHost (sp : Option Nat) (t : PoolTarget) : Nat × Option Nat :=
  let ours (e : KlHttpClientPoolEntry) := e.sockets == sp && e.entryMatches t
  (p.entries.countP ours, scanMin ours (·.idleSinceMs) p.entries 0 none UINT64_MAX)

/-- The oldest connection of the whole pool. -/
def oldest : Option Nat := scanMin (·.fd.isSome) (·.idleSinceMs) p.entries 0 none UINT64_MAX

def freeSlot : Option Nat := p.entries.findIdx? (·.fd.isNone)

end KlHttpClientPool

/-- The pool, the idle timers that are pending, each with its slot, the connections that callers
hold, each with the provider it is used through, and the log. -/
structure PoolState where
  pool : KlHttpClientPool
  timers : List (Nat × Nat)
  nextTimer : Nat
  callers : List (Nat × Option Nat)
  log : List PoolEvent

namespace PoolState

def start (pool : KlHttpClientPool) : PoolState :=
  { pool, timers := [], nextTimer := 0, callers := [], log := [] }

variable (s : PoolState)

/-- `kl_timer_cancel`, and a timer that fires leaves the same way. -/
def dropTimer (id : Nat) : PoolState := { s with timers := s.timers.filter (·.1 != id) }

/-- Cancel the idle timer of an entry, where there is an event context. -/
def cancelIdle (e : KlHttpClientPoolEntry) : PoolState :=
  match s.pool.evCtx, e.timerId with
  | some _, some id => s.dropTimer id
  | _, _ => s

def setSlot (i : Nat) (e : KlHttpClientPoolEntry) : PoolState :=
  { s with pool := { s.pool with entries := s.pool.entries.set i e } }

def addActive (d : Int) : PoolState :=
  { s with pool := { s.pool with active := s.pool.active + d } }

/-- Close the connection of slot `i`, which held `e` and is left with `e'`. -/
def closeSlot (i : Nat) (e e' : KlHttpClientPoolEntry) : PoolState :=
  { s.setSlot i e' with log := e.closeEvents ++ s.log }

/-- The eviction that every function but the timer callback writes out. -/
def evict (i : Nat) (e : KlHttpClientPoolEntry) (clearHost : Bool) : PoolState :=
  (((s.cancelIdle e).closeSlot i e (e.vacate clearHost))).addActive (-1)

/-- `idle_timer_cb` for the timer `id` and the slot `i` it was armed with. -/
def idleTimerCb (id i : Nat) : PoolState :=
  match s.pool.entries[i]? with
  | none => s
  | some e =>
    match e.fd with
    | none => s
    | some fd =>
      let s := (s.closeSlot i e (e.vacate false)).addActive (-1)
      { s with log := .timedOut id fd :: s.log }

/-- A caller stops holding a descriptor. -/
def unhold (fd : Nat) : PoolState := { s with callers := s.callers.filter (·.1 != fd) }

variable (sp : Option Nat)

def poolDiscardSp (conn : KlHttpClientPoolConn) : PoolState :=
  match conn.fd with
  | none => { s with log := (conn.tls.map PoolEvent.destroyed).toList ++ s.log }
  | some fd => { s.unhold fd with log := closing conn.tls fd sp ++ s.log }

/-- Hand the connection of slot `i` to the caller. -/
def takeSlot (i fd : Nat) (e : KlHttpClientPoolEntry) (sp : Option Nat) (t : PoolTarget)
    (peek : Peek) : PoolState :=
  let s := ((s.cancelIdle e).setSlot i (e.vacate true)).addActive (-1)
  { s with callers := (fd, sp) :: s.callers, log := .acquired fd t.key sp peek :: s.log }

/-- The loop of `pool_acquire` from slot `i` on. -/
def acquireFrom (sp : Option Nat) (t : PoolTarget) (peek : Nat → Peek) :
    Nat → Nat → PoolState → PoolState × Option KlHttpClientPoolConn
  | 0, _, s => (s, none)
  | left + 1, i, s =>
    match s.pool.entries[i]? with
    | none => (s, none)
    | some e =>
      match e.fd with
      | none => acquireFrom sp t peek left (i + 1) s
      | some fd =>
        if !e.entryMatches t then acquireFrom sp t peek left (i + 1) s
        -- made through another provider: its I/O is not ours
        else if e.sockets ≠ sp then acquireFrom sp t peek left (i + 1) s
        else if peek fd ≠ .wouldBlock then acquireFrom sp t peek left (i + 1) (s.evict i e false)
        else (s.takeSlot i fd e sp t (peek fd),
          some { fd := some fd, tls := e.tls, reused := true })

/-- `pool_acquire`: the connection on a hit, nothing on a miss. -/
def poolAcquire (t : PoolTarget) (peek : Nat → Peek) :
    PoolState × Option KlHttpClientPoolConn :=
  acquireFrom sp t peek s.pool.capacity 0 s

/-- The first eviction of a release: its key has reached `max_per_host`. -/
def evictAtHost (t : PoolTarget) : PoolState :=
  match s.pool.atHost sp t with
  | (hostCount, some i) =>
    if s.pool.maxPerHost ≤ hostCount then
      match s.pool.entries[i]? with
      | none => s
      | some e => s.evict i e true
    else s
  | (_, none) => s

/-- The slot of a release: a free one, else that of the oldest connection, which is evicted. -/
def findSlot : PoolState × Option Nat :=
  match s.pool.freeSlot with
  | some i => (s, some i)
  | none =>
    match s.pool.oldest with
    | none => (s, none)
    | some i =>
      match s.pool.entries[i]? with
      | none => (s, none)
      | some e => (s.evict i e false, some i)

/-- The entry that a release writes, before its timer. -/
def filled (fd : Nat) (tls : Option Nat) (t : PoolTarget) (now : Nat) : KlHttpClientPoolEntry :=
  { host := t.host, port := t.port, isTls := t.isTls, tlsCtx := t.tk.ctx,
    tlsFactory := t.tk.factory,
    proxyHost := t.proxyHost.getD [], proxyPort := if t.proxyHost.isSome then t.proxyPort else 0,
    fd := some fd, tls, sockets := sp, idleSinceMs := now, timerId := none }

/-- Fill slot `i` and arm its idle timer, where there is an event context. `timer` says whether
`kl_timer_add` succeeds. -/
def fillSlot (i fd : Nat) (e : KlHttpClientPoolEntry) (timer : Bool) : PoolState :=
  let s := match s.pool.evCtx, timer with
    | some _, true =>
      { s.setSlot i { e with timerId := some s.nextTimer } with
        timers := (s.nextTimer, i) :: s.timers, nextTimer := s.nextTimer + 1,
          log := .armed s.nextTimer fd :: s.log }
    | _, _ => s.setSlot i e
  (s.addActive 1).unhold fd

/-- `pool_release`. -/
def poolRelease (conn : KlHttpClientPoolConn) (t : PoolTarget) (now : Nat) (timer : Bool) :
    PoolState × Int :=
  match conn.fd with
  | none => (s, -1)
  | some fd =>
    let refused := { s with pool := { s.pool with lastError := .invalidArg } }
    if KL_HTTP_CLIENT_HOSTNAME_MAX ≤ t.host.length then (refused.poolDiscardSp sp conn, -1)
    else if KL_HTTP_CLIENT_HOSTNAME_MAX ≤ (t.proxyHost.getD []).length then
      (refused.poolDiscardSp sp conn, -1)
    else
      match (s.evictAtHost sp t).findSlot with
      | (s, none) => (s.poolDiscardSp sp conn, -1)
      | (s, some i) => (s.fillSlot i fd (filled sp fd conn.tls t now) timer, 0)

/-- The loop of `kl_http_client_pool_evict_expired` from slot `i` on. -/
def evictFrom (now : Nat) : Nat → Nat → PoolState → PoolState × Nat
  | 0, _, s => (s, 0)
  | left + 1, i, s =>
    match s.pool.entries[i]? with
    | none => (s, 0)
    | some e =>
      if e.fd.isSome ∧ e.idleSinceMs ≤ now ∧ s.pool.idleMs ≤ now - e.idleSinceMs then
        let r := evictFrom now left (i + 1) (s.evict i e true)
        (r.1, r.2 + 1)
      else evictFrom now left (i + 1) s

def evictExpired (now : Nat) : PoolState × Nat := evictFrom now s.pool.capacity 0 s

/-- The loop of `kl_http_client_pool_free` from slot `i` on. -/
def freeFrom : Nat → Nat → PoolState → PoolState
  | 0, _, s => s
  | left + 1, i, s =>
    match s.pool.entries[i]? with
    | none => s
    | some e =>
      if e.fd.isSome then freeFrom left (i + 1) ((s.cancelIdle e).closeSlot i e e.entryClose)
      else freeFrom left (i + 1) s

def free : PoolState :=
  let s := freeFrom s.pool.capacity 0 s
  { s with pool := { s.pool with entries := [], active := 0 } }

end PoolState

/-- What happens to a pool. A `connect` is a caller that opens a connection of its own. -/
inductive PoolOp where
  | connect (fd : Nat) (sp : Option Nat)
  | acquire (site : PoolSite) (isTls : Int) (peek : Nat → Peek)
  | acquireTls (site : PoolSite) (tls : Option KlTlsConfig) (peek : Nat → Peek)
  | acquireSp (sp : Option Nat) (site : PoolSite) (tls : Option KlTlsConfig) (peek : Nat → Peek)
  | release (conn : KlHttpClientPoolConn) (site : PoolSite) (isTls : Int) (now : Nat) (timer : Bool)
  | releaseTls (conn : KlHttpClientPoolConn) (site : PoolSite) (tls : Option KlTlsConfig)
      (now : Nat) (timer : Bool)
  | releaseSp (sp : Option Nat) (conn : KlHttpClientPoolConn) (site : PoolSite)
      (tls : Option KlTlsConfig) (now : Nat)
      (timer : Bool)
  | discard (conn : KlHttpClientPoolConn)
  | discardSp (sp : Option Nat) (conn : KlHttpClientPoolConn)
  | idleTimer (id : Nat)
  | evictExpired (now : Nat)
  | free

namespace PoolState

/-- A caller passes a connection to a release: it is now the provider's of that release. -/
def releasing (s : PoolState) (sp : Option Nat) (conn : KlHttpClientPoolConn) (t : PoolTarget) :
    PoolState :=
  match conn.fd with
  | none => s
  | some fd =>
    { s with callers := (fd, sp) :: s.callers.filter (·.1 != fd),
             log := .released fd t.key sp :: s.log }

def step (s : PoolState) : PoolOp → PoolState
  | .connect fd sp => { s with callers := (fd, sp) :: s.callers, log := .opened fd :: s.log }
  | .acquire site isTls peek => (s.poolAcquire s.pool.cpoolSp (site.plain isTls) peek).1
  | .acquireTls site tls peek => (s.poolAcquire s.pool.cpoolSp (site.secured tls) peek).1
  | .acquireSp sp site tls peek => (s.poolAcquire sp (site.secured tls) peek).1
  | .release conn site isTls now timer =>
    let t := site.plain isTls
    ((s.releasing s.pool.cpoolSp conn t).poolRelease s.pool.cpoolSp conn t now timer).1
  | .releaseTls conn site tls now timer =>
    let t := site.secured tls
    ((s.releasing s.pool.cpoolSp conn t).poolRelease s.pool.cpoolSp conn t now timer).1
  | .releaseSp sp conn site tls now timer =>
    let t := site.secured tls
    ((s.releasing sp conn t).poolRelease sp conn t now timer).1
  | .discard conn => s.poolDiscardSp s.pool.cpoolSp conn
  | .discardSp sp conn => s.poolDiscardSp sp conn
  | .idleTimer id =>
    match s.timers.find? (·.1 == id) with
    | none => s
    | some (_, i) => (s.dropTimer id).idleTimerCb id i
  | .evictExpired now => (s.evictExpired now).1
  | .free => s.free

end PoolState
