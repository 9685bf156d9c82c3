-- SUMMARY: The readiness loop and the free list of its connection pool.
import Keel.Http.Async

/-!
# Readiness dispatch

`kl_event_wait` captures a batch of events that name pool slots. The loop then drives
the connection of each event, and a handler's outcome may end with the release of the
slot. The handlers are hooks: while one runs, the code it calls may release other
connections, that an async operation had suspended.
-/

open Reentrant Linked

/-- `KL_EVENT_READ` and `KL_EVENT_WRITE`. -/
structure KlEventMask where
  read : Bool := false
  write : Bool := false
deriving DecidableEq, Repr

/-- The fields of a connection that the code it runs writes too. -/
structure ConnWork where
  state : KlHttpConnState := .closed
  asyncOp : Bool := false
  /-- `file_io_phase` is FILE_IO_READING. -/
  fileReading : Bool := false
  readPaused : Bool := false
  tlsWant : KlEventMask := {}
  /-- The interest the descriptor is registered with, if it is in the event loop. -/
  mask : Option KlEventMask := none
deriving DecidableEq, Repr

/-- The fields of a pool slot that the loop and the pool read. -/
structure PoolConn extends ConnWork where
  /-- `stream.fd` is a valid handle. -/
  fd : Bool := false
  nextFree : Option Nat := none
deriving DecidableEq, Repr

structure KlHttpConnPool where
  capacity : Nat
  conns : Nat → PoolConn
  freeList : Option Nat
  activeCount : Int

/-- What `kl_event_wait` reports. The listen socket is registered without a connection. -/
inductive KlEvent where
  | watcher
  | listen
  | conn (c : Nat) (read write : Bool)
deriving DecidableEq, Repr

def KlEvent.slots : KlEvent → List Nat
  | .conn c _ _ => [c]
  | _ => []

structure ConnServer where
  pool : KlHttpConnPool
  tls : Bool := false
  wsHooks : Bool := true
  h2Hooks : Bool := true
  /-- The captured events that are not dispatched yet. -/
  batch : List KlEvent := []
  /-- The slots that were acquired and released, and those released since the batch was
  captured. No code reads these. -/
  acquired : List Nat := []
  released : List Nat := []
  stale : List Nat := []

namespace ConnServer

inductive Op where
  | wait (events : List KlEvent)
  | dispatch
  | fileComplete (c : Nat)
  | drive (c : Nat) (work : ConnWork)
  | release (c : Nat)
deriving DecidableEq, Repr

/-- What is left to do after a release. -/
inductive ReleaseK where
  | done
  | accept
deriving DecidableEq, Repr

inductive Frame where
  | watcher
  | accept
  | eventAdd (c : Nat)
  | fileComplete (c : Nat)
  | fileMod (c : Nat) (mask : KlEventMask)
  | proxyHeader (c : Nat) (read write : Bool)
  | recvPeek (c : Nat) (read write : Bool)
  | handshake (c : Nat)
  | wsReadable (c : Nat) (write : Bool)
  | wsWritable (c : Nat)
  | drainStep (c : Nat)
  | h2Readable (c : Nat) (write : Bool)
  | h2Writable (c : Nat)
  | readable (c : Nat) (write : Bool)
  | writable (c : Nat)
  | sendNow (c : Nat)
  | drainPending (c : Nat)
  | wantWrite (c : Nat)
  | eventMod (c : Nat) (mask : KlEventMask)
  | onCancel (c : Nat) (k : ReleaseK)
deriving DecidableEq, Repr

/-- A hook returns a state or a result code. -/
structure HookRet where
  state : KlHttpConnState := .closed
  rc : Int := 0
deriving DecidableEq, Repr

abbrev DOut := Out ConnServer Frame Unit

variable (s : ConnServer) (c : Nat)

def conn : PoolConn := s.pool.conns c

def setConn (f : PoolConn → PoolConn) : ConnServer :=
  { s with pool.conns := fun i => if i = c then f (s.pool.conns i) else s.pool.conns i }

/-! ## The pool -/

/-- `kl_http_conn_pool_init`. -/
def poolInit (capacity : Nat) : Option KlHttpConnPool :=
  if capacity = 0 then none
  else some
    { capacity
      conns := fun i => { nextFree := if i + 1 < capacity then some (i + 1) else none }
      freeList := some 0
      activeCount := 0 }

/-- `kl_http_conn_acquire`, of the first free slot `c`. -/
def connAcquire : ConnServer :=
  let s := { s with
    pool.freeList := (s.conn c).nextFree
    pool.activeCount := s.pool.activeCount + 1
    acquired := s.acquired ++ [c] }
  s.setConn c fun _ => { state := .reading, fd := true }

/-- `kl_http_conn_release`. The callers take the descriptor out of the event loop, and it
is closed here. -/
def connRelease : ConnServer :=
  let free := s.pool.freeList
  let s := { s with
    pool.freeList := some c
    pool.activeCount := s.pool.activeCount - 1
    released := s.released ++ [c]
    stale := s.stale ++ [c] }
  s.setConn c fun x =>
    { x with state := .closed, fd := false, asyncOp := false, mask := none, nextFree := free }

/-- `kl_http_server_conn_release`, after it cancelled the connection's operation. -/
def releaseConn : ReleaseK → DOut
  | .done => .done (s.connRelease c) ()
  | .accept => .call (s.connRelease c) .accept

/-- `kl_http_server_conn_release`. -/
def serverConnRelease (k : ReleaseK) : DOut :=
  if (s.conn c).asyncOp then
    .call (s.setConn c fun x => { x with asyncOp := false }) (.onCancel c k)
  else s.releaseConn c k

/-- `kl_event_add` or `kl_event_mod` registered the descriptor with the interest `mask`. -/
def register (mask : KlEventMask) : ConnServer := s.setConn c fun x => { x with mask := some mask }

/-! ## The loop -/

/-- The transition at the end of an event. -/
def transition : KlHttpConnState → DOut
  | .tlsHandshake => .call s (.eventMod c (s.conn c).tlsWant)
  | .sending =>
    if (s.conn c).fileReading then .done s () else .call s (.eventMod c { write := true })
  | .websocket => .call s (if s.wsHooks then .drainPending c else .eventMod c { read := true })
  | .http2 => .call s (if s.h2Hooks then .wantWrite c else .eventMod c { read := true })
  -- a paused body consumer keeps READ off
  | .readingBody => .call s (.eventMod c { read := !(s.conn c).readPaused })
  | .reading | .proxyHeader | .draining => .call s (.eventMod c { read := true })
  | .suspended | .processing => .done s ()
  | .closed => s.serverConnRelease c .done

/-- The immediate send after read, parse and handle. -/
def trySend (newState : KlHttpConnState) : DOut :=
  if newState = .sending then
    -- `kl_http_conn_on_writable` does nothing in any other state
    if (s.conn c).state = .sending then .call s (.sendNow c) else s.transition c (s.conn c).state
  else s.transition c newState

def onWrite (write : Bool) (newState : KlHttpConnState) : DOut :=
  if write && (newState = .sending || (s.conn c).state = .sending) then
    if (s.conn c).state = .sending then .call s (.writable c) else s.trySend c (s.conn c).state
  else s.trySend c newState

def onRead (read write : Bool) : DOut :=
  -- `kl_http_conn_on_readable` returns the state of a connection that reads nothing
  if read && ((s.conn c).state = .reading || (s.conn c).state = .readingBody) then
    .call s (.readable c write)
  else s.onWrite c write (s.conn c).state

def wsWrite (write : Bool) (newState : KlHttpConnState) : DOut :=
  if newState = .websocket && write then .call s (.wsWritable c) else s.transition c newState

def h2Write (write : Bool) (newState : KlHttpConnState) : DOut :=
  if newState = .http2 && write then .call s (.h2Writable c) else s.transition c newState

/-- A client connection event, once the PROXY header is out of the way. -/
def drive (read write : Bool) : DOut :=
  match (s.conn c).state with
  | .tlsHandshake => .call s (.handshake c)
  | .websocket =>
    if !s.wsHooks then s.transition c .closed
    else if read then .call s (.wsReadable c write)
    else s.wsWrite c write .websocket
  | .draining => .call s (.drainStep c)
  | .http2 =>
    if !s.h2Hooks then s.transition c .closed
    else if read then .call s (.h2Readable c write)
    else s.h2Write c write .http2
  | _ => s.onRead c read write

def clientEvent (read write : Bool) : DOut :=
  if (s.conn c).state = .proxyHeader then .call s (.proxyHeader c read write)
  else s.drive c read write

/-- One event of the batch. -/
def dispatch : DOut :=
  match s.batch with
  | [] => .done s ()
  | ev :: rest =>
    let s := { s with batch := rest }
    match ev with
    | .watcher => .call s .watcher
    | .listen => .call s .accept
    | .conn c read write => s.clientEvent c read write

/-- `server_accept_on_accept`. -/
def onAccept : DOut :=
  match s.pool.freeList with
  | none => .call s .accept
  | some c =>
    let s := s.connAcquire c
    .call (if s.tls then
        s.setConn c fun x => { x with state := .tlsHandshake, tlsWant := { read := true } }
      else s) (.eventAdd c)

def enter : Op → ConnServer → DOut
  | .wait events, s => .done { s with batch := events, stale := [] } ()
  | .dispatch, s => s.dispatch
  | .fileComplete c, s => .call s (.fileComplete c)
  | .drive c work, s => .done (s.setConn c fun x => { x with toConnWork := work }) ()
  | .release c, s => s.serverConnRelease c .done

def afterHook : Frame → HookRet → ConnServer → DOut
  | .watcher, _, s => .done s ()
  | .accept, v, s => if v.rc < 0 then .done s () else s.onAccept
  | .eventAdd c, v, s =>
    if v.rc < 0 then s.serverConnRelease c .accept
    else .call (s.register c { read := true }) .accept
  | .fileComplete c, v, s =>
    match v.state with
    | .sending =>
      if (s.conn c).fileReading then .done s () else .call s (.fileMod c { write := true })
    | .reading | .draining => .call s (.fileMod c { read := true })
    | .closed => s.serverConnRelease c .done
    | _ => .done s ()
  | .fileMod c mask, v, s => .done (if v.rc < 0 then s else s.register c mask) ()
  | .proxyHeader c read write, v, s =>
    if v.rc < 0 then s.transition c .closed
    else if v.rc = 0 then s.transition c .proxyHeader
    else
      .call (if s.tls then
          s.setConn c fun x => { x with state := .tlsHandshake, tlsWant := { read := true } }
        else s.setConn c fun x => { x with state := .reading }) (.recvPeek c read write)
  | .recvPeek c read write, v, s =>
    if v.rc ≤ 0 then s.transition c (s.conn c).state else s.drive c read write
  | .handshake c, v, s => s.transition c v.state
  | .wsReadable c write, v, s => s.wsWrite c write v.state
  | .wsWritable c, v, s => s.transition c v.state
  | .drainStep c, v, s => s.transition c v.state
  | .h2Readable c write, v, s => s.h2Write c write v.state
  | .h2Writable c, v, s => s.transition c v.state
  | .readable c write, v, s => s.onWrite c write v.state
  | .writable c, v, s => s.trySend c v.state
  | .sendNow c, v, s => s.transition c v.state
  | .drainPending c, v, s | .wantWrite c, v, s =>
    .call s (.eventMod c { read := true, write := v.rc ≠ 0 })
  | .eventMod c mask, v, s =>
    if v.rc < 0 then s.serverConnRelease c .done else .done (s.register c mask) ()
  | .onCancel c k, _, s => s.releaseConn c k

def machine : Machine ConnServer Op Frame HookRet Unit where
  enter := enter
  resume := afterHook

abbrev DConfig := Config ConnServer Op Frame HookRet Unit
abbrev DAct := Act Op HookRet

/-- The slot whose connection the frame drives. -/
def Frame.conn : Frame → Option Nat
  | .watcher | .accept => none
  | .eventAdd c | .fileComplete c | .handshake c | .wsWritable c | .drainStep c | .h2Writable c
  | .writable c | .sendNow c | .drainPending c | .wantWrite c => some c
  | .fileMod c _ | .eventMod c _ => some c
  | .proxyHeader c _ _ | .recvPeek c _ _ => some c
  | .wsReadable c _ | .h2Readable c _ | .readable c _ => some c
  | .onCancel c _ => some c

def driven (st : List Frame) : List Nat := st.filterMap Frame.conn

/-- What `kl_event_wait` can return: WRITE for a descriptor registered for it, READ for any
that is registered (a hang-up and an error are reported as READ). -/
def Reported (s : ConnServer) : KlEvent → Prop
  | .conn c _ write => (s.conn c).mask.any (fun m => !write || m.write) = true
  | _ => True

/-- What connection code may leave: a handshake waits for READ or for WRITE, and only a
WebSocket (`kl_http_conn_ws_request_write`) is registered for both outside the loop. -/
def Proper (w : ConnWork) : Prop :=
  w.tlsWant ≠ ⟨true, true⟩ ∧ (w.mask = some ⟨true, true⟩ → w.state = .websocket)

/-- The batch is captured, and its events are dispatched, by the loop. A file completion is
for a connection that waits for it. The async code releases a connection in use that
nothing drives. -/
def Legal (c : DConfig) (a : DAct) : Prop :=
  match a with
  | .call (.wait events) =>
    c.stack = [] ∧ c.state.batch = [] ∧ ∀ ev ∈ events, c.state.Reported ev
  | .call .dispatch => c.stack = []
  | .call (.drive i work) => (c.state.conn i).fd = true ∧ Proper work
  | .call (.fileComplete i) => c.stack = [] ∧ (c.state.conn i).fd = true
  | .call (.release i) => (c.state.conn i).fd = true ∧ i ∉ driven c.stack
  | _ => True

/-- The next event names no slot that was released since the batch was captured. -/
def Current (c : DConfig) (a : DAct) : Prop :=
  match a with
  | .call .dispatch => ∀ i ∈ c.state.batch.head?.toList.flatMap KlEvent.slots, i ∉ c.state.stale
  | _ => True

def Sound (c : DConfig) (a : DAct) : Prop := Legal c a ∧ Current c a

instance (s : ConnServer) : DecidablePred s.Reported := fun ev => by
  unfold Reported
  split <;> exact inferInstance

instance : DecidablePred Proper := fun _ => inferInstanceAs (Decidable (_ ∧ _))

instance (c : DConfig) (a : DAct) : Decidable (Legal c a) := by
  unfold Legal
  split <;> exact inferInstance

instance (c : DConfig) (a : DAct) : Decidable (Current c a) := by
  unfold Current
  split <;> exact inferInstance

instance (c : DConfig) (a : DAct) : Decidable (Sound c a) := inferInstanceAs (Decidable (_ ∧ _))

/-! ## The pool is sound -/

/-- The free list links the free slots, each once, and the slots in use are counted. -/
structure PoolOk (p : KlHttpConnPool) (free : List Nat) : Prop where
  chain : Chain (fun i => (p.conns i).nextFree) p.freeList free
  mem_iff : ∀ i, i ∈ free ↔ i < p.capacity ∧ (p.conns i).fd = false
  range : ∀ i, (p.conns i).fd = true → i < p.capacity
  active : p.activeCount = p.capacity - free.length

/-- What every run keeps; `D` are the slots that are driven. -/
structure Inv (s : ConnServer) (free D : List Nat) : Prop where
  pool : PoolOk s.pool free
  nodup : D.Nodup
  inUse : ∀ i ∈ D, (s.conn i).fd = true
  registered : ∀ i, (s.conn i).mask ≠ none → (s.conn i).fd = true
  batch : ∀ i ∈ s.batch.flatMap KlEvent.slots, (s.conn i).fd = true ∨ i ∈ s.stale
  counts : ∀ i, s.acquired.count i = s.released.count i + (s.conn i).fd.toNat

/-- The pool and the histories are left alone; only the descriptor of `c` is registered. -/
structure Keeps (c : Nat) (s s' : ConnServer) : Prop where
  capacity : s'.pool.capacity = s.pool.capacity
  freeList : s'.pool.freeList = s.pool.freeList
  activeCount : s'.pool.activeCount = s.pool.activeCount
  fd : ∀ i, (s'.conn i).fd = (s.conn i).fd
  nextFree : ∀ i, (s'.conn i).nextFree = (s.conn i).nextFree
  mask : ∀ i, i ≠ c → (s'.conn i).mask = (s.conn i).mask
  batch : s'.batch = s.batch
  acquired : s'.acquired = s.acquired
  released : s'.released = s.released
  stale : s'.stale = s.stale

section

variable {s s' : ConnServer} {c i : Nat} {free D D' : List Nat} {o : DOut}

theorem Keeps.rfl : Keeps c s s := by constructor <;> intros <;> trivial

/-- A write to a field that the pool does not use. -/
theorem Keeps.setConn {f : PoolConn → PoolConn} (hfd : ∀ x, (f x).fd = x.fd)
    (hn : ∀ x, (f x).nextFree = x.nextFree) : Keeps c s (s.setConn c f) where
  __ := (Keeps.rfl : Keeps c s s)
  fd i := by
    simp only [conn, ConnServer.setConn]
    split
    · exact hfd _
    · trivial
  nextFree i := by
    simp only [conn, ConnServer.setConn]
    split
    · exact hn _
    · trivial
  mask i hi := by simp only [conn, ConnServer.setConn, if_neg hi]

theorem Keeps.register (mask : KlEventMask) : Keeps c s (s.register c mask) :=
  .setConn (fun _ => by trivial) fun _ => by trivial

/-- The free list of the pool stays as it is. -/
theorem PoolOk.keeps (h : PoolOk s.pool free) (hk : Keeps c s s') : PoolOk s'.pool free where
  chain := by
    rw [hk.freeList]
    exact h.chain.congr fun i _ => hk.nextFree i
  mem_iff i := by
    rw [h.mem_iff i, hk.capacity]
    rw [show (s'.pool.conns i).fd = (s.pool.conns i).fd from hk.fd i]
  range i hi := by
    rw [hk.capacity]
    exact h.range i ((hk.fd i).symm.trans hi)
  active := by rw [hk.activeCount, hk.capacity, h.active]

/-- A stretch that keeps the other connections. -/
theorem Inv.keeps (h : Inv s free D) (hk : Keeps c s s') (hc : (s.conn c).fd = true)
    (hD : D'.Nodup) (hu : ∀ i ∈ D', (s.conn i).fd = true) : Inv s' free D' where
  pool := h.pool.keeps hk
  nodup := hD
  inUse i hi := (hk.fd i).trans (hu i hi)
  registered i hi := by
    rw [hk.fd i]
    by_cases hic : i = c
    · exact hic ▸ hc
    · rw [hk.mask i hic] at hi
      exact h.registered i hi
  batch i hi := by
    rw [hk.batch] at hi
    rw [hk.fd i, hk.stale]
    exact h.batch i hi
  counts i := by rw [hk.acquired, hk.released, hk.fd i, h.counts i]

theorem conn_connRelease (i : Nat) : (s.connRelease c).conn i =
    if i = c then { s.conn i with state := .closed, fd := false, asyncOp := false, mask := none,
                                  nextFree := s.pool.freeList } else s.conn i := rfl

theorem conn_connAcquire (i : Nat) : (s.connAcquire c).conn i =
    if i = c then { state := .reading, fd := true } else s.conn i := rfl

/-- A slot in use goes back to the free list. -/
theorem Inv.release (h : Inv s free D) (hc : (s.conn c).fd = true) (hD : D'.Sublist D)
    (hcD : c ∉ D') : Inv (s.connRelease c) (c :: free) D' where
  pool := by
    have hcf : c ∉ free := fun hm => by
      have := ((h.pool.mem_iff c).mp hm).2
      rw [← conn, hc] at this
      cases this
    refine ⟨?_, fun i => ?_, fun i hi => ?_, ?_⟩
    · refine h.pool.chain.push ?_ fun i hi => ?_
      · show ((s.connRelease c).conn c).nextFree = _
        rw [conn_connRelease, if_pos rfl]
      · have hne : i ≠ c := fun hic => hcf (hic ▸ hi)
        show ((s.connRelease c).conn i).nextFree = _
        rw [conn_connRelease, if_neg hne]
        rfl
    · show _ ↔ _ ∧ ((s.connRelease c).conn i).fd = false
      rw [conn_connRelease, List.mem_cons]
      by_cases hi : i = c
      · simp only [hi, if_true, true_or, and_true, true_iff]
        exact h.pool.range c hc
      · rw [if_neg hi, or_iff_right hi]
        exact h.pool.mem_iff i
    · have hi : ((s.connRelease c).conn i).fd = true := hi
      rw [conn_connRelease] at hi
      split at hi
      · cases hi
      · exact h.pool.range i hi
    · show s.pool.activeCount - 1 = _
      rw [h.pool.active]
      simp only [List.length_cons]
      show _ = ((s.pool.capacity : Int) - _)
      omega
  nodup := h.nodup.sublist hD
  inUse i hi := by
    have hne : i ≠ c := fun hic => hcD (hic ▸ hi)
    rw [conn_connRelease, if_neg hne]
    exact h.inUse i (hD.subset hi)
  registered i hi := by
    rw [conn_connRelease] at hi ⊢
    split at hi
    · exact absurd rfl hi
    · next hic =>
      rw [if_neg hic]
      exact h.registered i hi
  batch i hi := by
    rw [conn_connRelease]
    by_cases hic : i = c
    · exact .inr (hic ▸ List.mem_append_right _ List.mem_cons_self)
    · rw [if_neg hic]
      exact (h.batch i hi).imp_right fun hm => List.mem_append_left _ hm
  counts i := by
    show s.acquired.count i = (s.released ++ [c]).count i + _
    rw [conn_connRelease, List.count_append, h.counts i]
    by_cases hic : i = c
    · subst hic
      simp [hc]
    · rw [if_neg hic, List.count_singleton, if_neg (by simpa using Ne.symm hic), Nat.add_zero]

/-- The first free slot is taken into use. -/
theorem Inv.acquire (h : Inv s free D) (hc : s.pool.freeList = some c) :
    ∃ free', Inv (s.connAcquire c) free' (c :: D) := by
  have hchain := h.pool.chain
  rw [hc] at hchain
  obtain ⟨free', rfl, htail⟩ := hchain.of_some
  have hcf : c ∉ free' := (List.nodup_cons.mp hchain.nodup).1
  obtain ⟨hlt, hfd⟩ := (h.pool.mem_iff c).mp List.mem_cons_self
  have hcD : c ∉ D := fun hm => by
    have := h.inUse c hm
    rw [conn, hfd] at this
    cases this
  refine ⟨free', ⟨?_, fun i => ?_, fun i hi => ?_, ?_⟩, List.nodup_cons.mpr ⟨hcD, h.nodup⟩,
    fun i hi => ?_, fun i hi => ?_, fun i hi => ?_, fun i => ?_⟩
  · refine htail.congr fun i hi => ?_
    have hne : i ≠ c := fun hic => hcf (hic ▸ hi)
    show ((s.connAcquire c).conn i).nextFree = _
    rw [conn_connAcquire, if_neg hne]
    rfl
  · show _ ↔ _ ∧ ((s.connAcquire c).conn i).fd = false
    rw [conn_connAcquire]
    by_cases hi : i = c
    · simp [hi, hcf]
    have := h.pool.mem_iff i
    rw [List.mem_cons, or_iff_right hi] at this
    rw [if_neg hi]
    exact this
  · have hi : ((s.connAcquire c).conn i).fd = true := hi
    rw [conn_connAcquire] at hi
    split at hi
    · next hic => exact hic ▸ hlt
    · exact h.pool.range i hi
  · show s.pool.activeCount + 1 = _
    rw [h.pool.active]
    simp only [List.length_cons]
    show _ = ((s.pool.capacity : Int) - _)
    omega
  · rw [conn_connAcquire]
    split
    · rfl
    · next hic => exact h.inUse i ((List.mem_cons.mp hi).resolve_left hic)
  · rw [conn_connAcquire] at hi ⊢
    split at hi
    · exact absurd rfl hi
    · next hic =>
      rw [if_neg hic]
      exact h.registered i hi
  · rw [conn_connAcquire]
    split
    · exact .inl rfl
    · exact h.batch i hi
  · show (s.acquired ++ [c]).count i = s.released.count i + _
    rw [conn_connAcquire, List.count_append, h.counts i]
    by_cases hic : i = c
    · subst hic
      rw [conn, hfd]
      simp
    · rw [if_neg hic, List.count_singleton, if_neg (by simpa using Ne.symm hic), Nat.add_zero]

/-- An event is reported for a slot in use. -/
theorem Inv.inUse_of_reported (h : Inv s free D) {ev : KlEvent} (hev : s.Reported ev)
    (hi : i ∈ ev.slots) : (s.conn i).fd = true := by
  cases ev with
  | watcher => cases hi
  | listen => cases hi
  | conn c read write =>
    obtain rfl := List.mem_singleton.mp hi
    refine h.registered i fun hnone => ?_
    simp only [Reported, hnone, Option.any_none] at hev
    cases hev

/-! ## Driving one connection -/

/-- How code that drives the slot `c` ends: the pool is left alone and `c` is driven on,
or `c` was released. -/
inductive Ends (s : ConnServer) (c : Nat) (o : DOut) : Prop where
  | keeps : Keeps c s o.state → (∀ f, o.hook = some f → f.conn = some c ∨ f.conn = none) →
      Ends s c o
  | released (s' : ConnServer) : Keeps c s s' → o.state = s'.connRelease c →
      (∀ f, o.hook = some f → f.conn = none) → Ends s c o

theorem Ends.done (h : Keeps c s s') : Ends s c (.done s' ()) := .keeps h nofun

theorem Ends.call {f : Frame} (h : Keeps c s s') (hf : f.conn = some c ∨ f.conn = none) :
    Ends s c (.call s' f) :=
  .keeps h fun g hg => by
    cases hg
    exact hf

theorem Ends.hook {f : Frame} (hf : f.conn = some c) : Ends s c (.call s f) := .call .rfl (.inl hf)

section

variable (s c)

/-- A release gives the slot back, once. -/
theorem Ends.releaseConn (k : ReleaseK) : Ends s c (s.releaseConn c k) := by
  cases k with
  | done => exact .released s .rfl rfl nofun
  | accept =>
    refine .released s .rfl rfl fun f hf => ?_
    cases hf
    rfl

/-- An operation that is pending is cancelled first. -/
theorem Ends.serverConnRelease (k : ReleaseK) : Ends s c (s.serverConnRelease c k) := by
  unfold ConnServer.serverConnRelease
  split
  · exact .call (.setConn (fun _ => rfl) fun _ => rfl) (.inl rfl)
  · exact .releaseConn s c k

/-- The new state decides what is watched. -/
theorem Ends.transition (newState : KlHttpConnState) : Ends s c (s.transition c newState) := by
  cases newState with
  | sending =>
    simp only [ConnServer.transition]
    split
    · exact .done .rfl
    · exact .hook rfl
  | websocket =>
    refine .hook ?_
    cases s.wsHooks <;> rfl
  | http2 =>
    refine .hook ?_
    cases s.h2Hooks <;> rfl
  | suspended => exact .done .rfl
  | processing => exact .done .rfl
  | closed => exact .serverConnRelease s c .done
  | _ => exact .hook rfl

theorem Ends.trySend (newState : KlHttpConnState) : Ends s c (s.trySend c newState) := by
  unfold ConnServer.trySend
  split_ifs
  · exact .hook rfl
  · exact .transition s c _
  · exact .transition s c newState

/-- A connection that is ready for writing. -/
theorem Ends.onWrite (write : Bool) (newState : KlHttpConnState) :
    Ends s c (s.onWrite c write newState) := by
  unfold ConnServer.onWrite
  split_ifs
  · exact .hook rfl
  · exact .trySend s c _
  · exact .trySend s c newState

theorem Ends.wsWrite (write : Bool) (newState : KlHttpConnState) :
    Ends s c (s.wsWrite c write newState) := by
  unfold ConnServer.wsWrite
  split
  · exact .hook rfl
  · exact .transition s c newState

theorem Ends.h2Write (write : Bool) (newState : KlHttpConnState) :
    Ends s c (s.h2Write c write newState) := by
  unfold ConnServer.h2Write
  split
  · exact .hook rfl
  · exact .transition s c newState

/-- A connection that is ready for reading. -/
theorem Ends.onRead (read write : Bool) : Ends s c (s.onRead c read write) := by
  unfold ConnServer.onRead
  split
  · exact .hook rfl
  · exact .onWrite s c write _

/-- The handlers of one event. -/
theorem Ends.drive (read write : Bool) : Ends s c (s.drive c read write) := by
  unfold ConnServer.drive
  split
  · exact .hook rfl
  · split
    · exact .transition s c .closed
    · split
      · exact .hook rfl
      · exact .wsWrite s c write .websocket
  · exact .hook rfl
  · split
    · exact .transition s c .closed
    · split
      · exact .hook rfl
      · exact .h2Write s c write .http2
  · exact .onRead s c read write

theorem Ends.clientEvent (read write : Bool) : Ends s c (s.clientEvent c read write) := by
  unfold ConnServer.clientEvent
  split
  · exact .hook rfl
  · exact .drive s c read write

end

/-- What follows a hook of the connection. -/
theorem Ends.afterHook {f : Frame} (hf : f.conn = some c) (v : HookRet) :
    Ends s c (afterHook f v s) := by
  cases f with
  | watcher => cases hf
  | accept => cases hf
  | eventAdd d =>
    cases hf
    simp only [ConnServer.afterHook]
    split
    · exact .serverConnRelease s c .accept
    · exact .call (.register _) (.inr rfl)
  | fileComplete d =>
    cases hf
    simp only [ConnServer.afterHook]
    split
    · split
      · exact .done .rfl
      · exact .hook rfl
    · exact .hook rfl
    · exact .hook rfl
    · exact .serverConnRelease s c .done
    · exact .done .rfl
  | fileMod d mask =>
    cases hf
    refine .done ?_
    split
    · exact .rfl
    · exact .register mask
  | proxyHeader d read write =>
    cases hf
    simp only [ConnServer.afterHook]
    split
    · exact .transition s c .closed
    · split
      · exact .transition s c .proxyHeader
      · refine .call ?_ (.inl rfl)
        split <;> exact .setConn (fun _ => rfl) fun _ => rfl
  | recvPeek d read write =>
    cases hf
    simp only [ConnServer.afterHook]
    split
    · exact .transition s c _
    · exact .drive s c read write
  | handshake d => cases hf; exact .transition s c v.state
  | wsReadable d write => cases hf; exact .wsWrite s c write v.state
  | wsWritable d => cases hf; exact .transition s c v.state
  | drainStep d => cases hf; exact .transition s c v.state
  | h2Readable d write => cases hf; exact .h2Write s c write v.state
  | h2Writable d => cases hf; exact .transition s c v.state
  | readable d write => cases hf; exact .onWrite s c write v.state
  | writable d => cases hf; exact .trySend s c v.state
  | sendNow d => cases hf; exact .transition s c v.state
  | drainPending d => cases hf; exact .hook rfl
  | wantWrite d => cases hf; exact .hook rfl
  | eventMod d mask =>
    cases hf
    simp only [ConnServer.afterHook]
    split
    · exact .serverConnRelease s c .done
    · exact .done (.register mask)
  | onCancel d k => cases hf; exact .releaseConn s c k

theorem driven_stack_none {st : List Frame} (h : ∀ f, o.hook = some f → f.conn = none) :
    driven (o.stack st) = driven st := by
  cases o with
  | done s r => rfl
  | call s f => simp [driven, h f rfl]

/-- A slot in use that nothing else drives. -/
theorem Inv.ends {st : List Frame} (h : Inv s free (driven st)) (ho : Ends s c o)
    (hc : (s.conn c).fd = true) (hcD : c ∉ driven st) :
    ∃ free', Inv o.state free' (driven (o.stack st)) := by
  cases ho with
  | keeps hk hf =>
    refine ⟨free, ?_⟩
    cases o with
    | done s' r => exact h.keeps hk hc h.nodup h.inUse
    | call s' f =>
      rcases hf f rfl with hf | hf
      · have hst : driven (f :: st) = c :: driven st := by simp [driven, hf]
        rw [Out.stack_call, hst]
        refine h.keeps hk hc (List.nodup_cons.mpr ⟨hcD, h.nodup⟩) fun i hi => ?_
        rcases List.mem_cons.mp hi with rfl | hi
        · exact hc
        · exact h.inUse i hi
      · have hst : driven (f :: st) = driven st := by simp [driven, hf]
        rw [Out.stack_call, hst]
        exact h.keeps hk hc h.nodup h.inUse
  | released s' hk ho hf =>
    rw [ho, driven_stack_none hf]
    have h' := h.keeps hk hc h.nodup h.inUse
    exact ⟨c :: free, h'.release ((hk.fd c).trans hc) (List.Sublist.refl _) hcD⟩

end

/-! ## Whole runs -/

/-- Every stretch keeps the table. -/
theorem Inv.preserves : machine.Preserves Sound (fun _ s st => ∃ free, Inv s free (driven st)) where
  enter := by
    rintro tr s st op ⟨free, h⟩ ⟨hlegal, hcurrent⟩
    cases op with
    | wait events =>
      obtain ⟨rfl, -, hev⟩ := hlegal
      refine ⟨free, { h with batch := fun i hi => .inl ?_ }⟩
      obtain ⟨ev, hm, hi⟩ := List.mem_flatMap.mp hi
      exact h.inUse_of_reported (hev ev hm) hi
    | dispatch =>
      obtain rfl : st = [] := hlegal
      show ∃ free, Inv s.dispatch.state free (driven (s.dispatch.stack []))
      unfold dispatch
      split
      · exact ⟨free, h⟩
      rename_i ev rest hb
      have h' : Inv { s with batch := rest } free (driven []) :=
        { h with batch := fun i hi => h.batch i (by rw [hb]; simp [hi]) }
      cases ev with
      | watcher => exact ⟨free, h'⟩
      | listen => exact ⟨free, h'⟩
      | conn c read write =>
        -- the slot was in use when the batch was captured and was not released since
        have hc : (s.conn c).fd = true := by
          refine (h.batch c (by rw [hb]; simp [KlEvent.slots])).resolve_right ?_
          exact hcurrent c (by simp [hb, KlEvent.slots])
        exact h'.ends (.clientEvent _ c read write) hc List.not_mem_nil
    | fileComplete c =>
      obtain ⟨rfl, hc⟩ := hlegal
      exact h.ends (.hook rfl) hc List.not_mem_nil
    | drive c work =>
      have hk : Keeps c s (s.setConn c fun x => { x with toConnWork := work }) :=
        .setConn (fun _ => rfl) fun _ => rfl
      exact ⟨free, h.keeps hk hlegal.1 h.nodup h.inUse⟩
    | release c => exact h.ends (.serverConnRelease s c .done) hlegal.1 hlegal.2
  resume := by
    rintro tr s st f v ⟨free, h⟩ -
    cases hf : f.conn with
    | some c =>
      have hst : driven (f :: st) = c :: driven st := by simp [driven, hf]
      rw [hst] at h
      have hc := h.inUse c List.mem_cons_self
      have h' : Inv s free (driven st) :=
        { h with
          nodup := (List.nodup_cons.mp h.nodup).2
          inUse := fun i hi => h.inUse i (List.mem_cons_of_mem c hi) }
      exact h'.ends (.afterHook hf v) hc (List.nodup_cons.mp h.nodup).1
    | none =>
      have hst : driven (f :: st) = driven st := by simp [driven, hf]
      cases f with
      | watcher => exact ⟨free, h⟩
      | accept =>
        show ∃ free,
          Inv (afterHook .accept v s).state free (driven ((afterHook .accept v s).stack st))
        simp only [afterHook]
        split
        · exact ⟨free, h⟩
        unfold onAccept
        split
        · exact ⟨free, h⟩
        · next c hfree =>
          obtain ⟨free', h'⟩ := h.acquire hfree
          refine ⟨free', h'.keeps ?_ (h'.inUse c List.mem_cons_self) h'.nodup h'.inUse⟩
          show Keeps c _ (if _ then _ else _)
          split
          · exact .setConn (fun _ => rfl) fun _ => rfl
          · exact .rfl
      | _ => cases hf

/-- The free list of a new pool. -/
theorem chain_range (n k m : Nat) (hn : n = k + m + 1) :
    Chain (fun i => if i + 1 < n then some (i + 1) else none) (some k) (List.range' k (m + 1)) := by
  induction m generalizing k with
  | zero =>
    refine ⟨rfl, ?_⟩
    show (if k + 1 < n then some (k + 1) else none) = none
    rw [if_neg (by omega)]
  | succ m ih =>
    refine ⟨rfl, ?_⟩
    show Chain _ (if k + 1 < n then some (k + 1) else none) _
    rw [if_pos (by omega)]
    exact ih (k + 1) (by omega)

/-- In a new pool every slot is free. -/
theorem poolInit_ok {capacity : Nat} {p : KlHttpConnPool} (hp : poolInit capacity = some p) :
    PoolOk p (List.range capacity) ∧ (∀ i, (p.conns i).fd = false) ∧
      ∀ i, (p.conns i).mask = none := by
  unfold poolInit at hp
  split at hp
  · cases hp
  next hne =>
  cases hp
  refine ⟨⟨?_, fun i => ?_, nofun, ?_⟩, fun _ => rfl, fun _ => rfl⟩
  · obtain ⟨m, rfl⟩ : ∃ m, capacity = m + 1 := ⟨capacity - 1, by omega⟩
    rw [List.range_eq_range']
    exact chain_range (m + 1) 0 m (by omega)
  · simp
  · simp

/-- In every run in which no event names a slot that was released since its batch was
captured, the free list is acyclic and holds exactly the free slots, the count of
active connections is right, and every acquired slot was released at most once. -/
theorem dispatch_sound {capacity : Nat} {p : KlHttpConnPool} (hp : poolInit capacity = some p)
    (tls wsHooks h2Hooks : Bool) (c : DConfig)
    (hc : machine.Reach Sound { pool := p, tls, wsHooks, h2Hooks } c) :
    (∃ free, PoolOk c.state.pool free ∧ free.Nodup) ∧
    ∀ i, c.state.acquired.count i = c.state.released.count i + (c.state.conn i).fd.toNat := by
  obtain ⟨hpool, hfd, hmask⟩ := poolInit_ok hp
  have hstart : Inv { pool := p, tls, wsHooks, h2Hooks } (List.range capacity) (driven []) := by
    refine ⟨hpool, List.nodup_nil, by simp [driven], fun i hi => ?_, by simp, fun i => ?_⟩
    · exact absurd (hmask i) hi
    · simp [conn, hfd i]
  obtain ⟨free, h⟩ := hc.invariant ⟨_, hstart⟩ Inv.preserves
  exact ⟨⟨free, h.pool, h.pool.chain.nodup⟩, h.counts⟩

/-- A server with a pool of two slots. -/
def smallServer : ConnServer where
  pool := (poolInit 2).get rfl

/-- Two connections are accepted. The first is closed by its handler, the second goes
on reading. -/
theorem dispatch_sound_batch : ∃ c, machine.run Sound (Machine.start smallServer)
        [.call (.wait [.listen]), .call .dispatch, .ret { rc := 3 }, .ret { rc := 0 },
          .ret { rc := 4 }, .ret { rc := 0 }, .ret { rc := -1 },
          .call (.wait [.conn 0 true false, .conn 1 true false]), .call .dispatch,
          .ret { state := .closed }, .call .dispatch, .ret { state := .reading }, .ret { rc := 0 }]
        = some c ∧
      c.stack = [] ∧ c.state.released = [0] ∧ c.state.pool.freeList = some 0 ∧
      ∃ free, PoolOk c.state.pool free ∧ free.Nodup := by
  refine Machine.exists_run ⟨_, rfl, fun hc => ⟨rfl, rfl, rfl, ?_⟩⟩
  exact (dispatch_sound (show poolInit 2 = some _ from rfl) false true true _ hc).1

/-- A connection is upgraded to a WebSocket and has output to drain, so it is registered for
READ and WRITE, and both are ready. The READ handler closes it. The second event of the
batch releases the slot again: it then is linked to itself, and the count is off by one. -/
theorem released_twice : ∃ c, machine.run Legal (Machine.start smallServer)
        [.call (.wait [.listen]), .call .dispatch, .ret { rc := 3 }, .ret { rc := 0 },
          .ret { rc := -1 }, .call (.wait [.conn 0 true false]), .call .dispatch,
          .call (.drive 0 { state := .websocket, mask := some { read := true } }),
          .ret { state := .websocket }, .ret { rc := 1 }, .ret { rc := 0 },
          .call (.wait [.conn 0 true false, .conn 0 false true]), .call .dispatch,
          .ret { state := .closed }, .call .dispatch] = some c ∧
      c.stack = [] ∧ c.state.acquired = [0] ∧ c.state.released = [0, 0] ∧
      c.state.pool.freeList = some 0 ∧ (c.state.conn 0).nextFree = some 0 ∧
      c.state.pool.activeCount = -1 :=
  ⟨_, rfl, rfl, rfl, rfl, rfl, rfl, rfl⟩

end ConnServer
