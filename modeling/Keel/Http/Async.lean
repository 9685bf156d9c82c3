-- SUMMARY: Async operations of suspended connections, and the deadline sweep.
import Keel.Reentrant.Machine
import Keel.Linked.Chain

/-!
# Async operations

An operation is a cell that its owner allocates. From `kl_async_suspend` until its
terminal transition it is linked into the server's list. The owner may free it once it
is terminal, also from inside the terminal callback. The sweep of the server loop calls
`on_deadline`, which may complete, cancel and suspend operations before it returns.
-/

open Reentrant Linked List

/-- http_conn_internal.h -/
inductive KlHttpConnState where
  | proxyHeader
  | tlsHandshake
  | reading
  | readingBody
  | processing
  | sending
  | websocket
  | http2
  | suspended
  | draining
  | closed
deriving DecidableEq, Repr

structure KlAsyncOp where
  conn : Nat
  /-- Absolute deadline; 0 is no deadline. -/
  deadlineMs : Nat
  onResume : Bool
  onDeadline : Bool
  onCancel : Bool
  next : Option Nat
  terminal : Bool
deriving DecidableEq, Repr

/-- What the async machinery reads and writes of a connection. -/
structure KlHttpConn where
  state : KlHttpConnState := .closed
  asyncOp : Option Nat := none
  dispatchDepth : Nat := 0
  /-- The response is a streamed one and no drain of it is pending. -/
  streamed : Bool := false
deriving DecidableEq, Repr

/-- Where C code with these pointers would have gone wrong. -/
inductive Fault where
  | freed (op : Nat)
  | endless
deriving DecidableEq, Repr

/-- The part of the server that the async machinery works on. -/
structure AsyncServer where
  asyncOps : Option Nat := none
  ops : Store Nat KlAsyncOp := []
  conns : Nat → KlHttpConn
  fault : Option Fault := none

namespace AsyncServer

variable (s : AsyncServer) (a : Nat)

def next : Option Nat := (s.ops.get a).bind (·.next)

def setOp (op : KlAsyncOp) : AsyncServer := { s with ops := s.ops.set a op }

def setConn (c : Nat) (f : KlHttpConn → KlHttpConn) : AsyncServer :=
  { s with conns := fun i => if i = c then f (s.conns i) else s.conns i }

def fail (f : Fault) : AsyncServer := { s with fault := some f }

/-- What an owner calls, what an owner does to its operation, and what the rest of the
server does to a connection. -/
inductive Op where
  | suspend (conn op deadlineMs : Nat) (onResume onDeadline onCancel : Bool)
  | complete (op : Nat)
  | cancel (op : Nat)
  | cancelDetached (op : Nat)
  | free (op : Nat)
  | drive (conn : Nat) (state : KlHttpConnState) (depth : Nat) (streamed : Bool)
  | sweep (now : Nat)
deriving DecidableEq, Repr

/-- The callbacks, and the connection driver that resumes or releases a connection. -/
inductive Frame where
  | onResume (conn : Nat)
  | onCancel (conn : Nat) (detached : Bool)
  | driver (conn : Nat)
  | onDeadline (op now : Nat) (next : Option Nat)
deriving DecidableEq, Repr

abbrev AOut := Out AsyncServer Frame Int

/-- `kl_async_suspend`. The owner has set the deadline and the callbacks. -/
def suspend (conn a deadlineMs : Nat) (onResume onDeadline onCancel : Bool) : AOut :=
  if (s.conns conn).state = .suspended then .done s (-1)
  else
    let s := s.setConn conn fun c => { c with state := .suspended, asyncOp := some a }
    let op : KlAsyncOp :=
      { conn, deadlineMs, onResume, onDeadline, onCancel, next := s.asyncOps, terminal := false }
    .done { s.setOp a op with asyncOps := some a } 0

/-- `pp` of `async_retire`. -/
inductive Place where
  | head
  | nextOf (op : Nat)

/-- The loop of `async_retire` that takes `a`, which is followed by `nxt`, out of the
list, in at most `n` rounds. -/
def unlink (s : AsyncServer) (a : Nat) (nxt : Option Nat) : Nat → Place → AsyncServer
  | 0, _ => s.fail .endless
  | n + 1, .head =>
    match s.asyncOps with
    | none => s
    | some b => if b = a then { s with asyncOps := nxt } else s.unlink a nxt n (.nextOf b)
  | n + 1, .nextOf p =>
    match s.ops.get p with
    | none => s.fail (.freed p)
    | some cell =>
      match cell.next with
      | none => s
      | some b =>
        if b = a then s.setOp p { cell with next := nxt } else s.unlink a nxt n (.nextOf b)

/-- `async_retire`: the connection of an operation that was pending. -/
def asyncRetire : AsyncServer × Option Nat :=
  match s.ops.get a with
  | none => (s.fail (.freed a), none)
  | some op =>
    if op.terminal then (s, none)
    else
      let s := s.setOp a { op with terminal := true }
      let s := s.unlink a op.next (s.ops.length + 1) .head
      (s.setConn op.conn fun c => if c.asyncOp = some a then { c with asyncOp := none } else c,
        some op.conn)

/-- `kl_async_complete`, after `on_resume`. What follows on a connection that nothing
else drives is the connection driver's. -/
def resumed (conn : Nat) : AOut :=
  let c := s.conns conn
  if c.state = .suspended then .done s 0
  else
    let state :=
      if c.state = .processing then (if c.streamed then .closed else .sending) else c.state
    let s := s.setConn conn fun c => { c with state }
    if 0 < c.dispatchDepth then .done s 0 else .call s (.driver conn)

/-- `kl_async_complete`. -/
def complete : AOut :=
  match s.asyncRetire a with
  | (s, none) => .done s 0
  | (s, some conn) =>
    let s := s.setConn conn fun c => { c with state := .processing }
    match s.ops.get a with
    | none => .done (s.fail (.freed a)) 0
    | some op =>
      if op.onResume then
        .call (s.setConn conn fun c => { c with dispatchDepth := c.dispatchDepth + 1 })
          (.onResume conn)
      else s.resumed conn

/-- `kl_async_cancel`, after `on_cancel`; `kl_async_cancel_detached` leaves the
connection to its caller. -/
def cancelled (conn : Nat) (detached : Bool) : AOut :=
  if detached || (s.conns conn).state ≠ .suspended then .done s 0
  else
    let s := s.setConn conn fun c => { c with state := .closed }
    if (s.conns conn).dispatchDepth = 0 then .call s (.driver conn) else .done s 0

/-- `kl_async_cancel` and `kl_async_cancel_detached`. -/
def cancel (detached : Bool) : AOut :=
  match s.asyncRetire a with
  | (s, none) => .done s 0
  | (s, some conn) =>
    match s.ops.get a with
    | none => .done (s.fail (.freed a)) 0
    | some op =>
      if op.onCancel then .call s (.onCancel conn detached) else s.cancelled conn detached

/-- The sweep of `kl_http_server_run` and of `kl_http_server_run_completion_loop`, from
the operation the cursor is at, in at most `n` rounds, up to the next `on_deadline`. -/
def sweepLoop (s : AsyncServer) (now : Nat) : Nat → Option Nat → AOut
  | _, none => .done s 0
  | 0, some _ => .done (s.fail .endless) 0
  | n + 1, some a =>
    match s.ops.get a with
    | none => .done (s.fail (.freed a)) 0
    | some op =>
      if !op.terminal && 0 < op.deadlineMs && op.deadlineMs ≤ now then
        let s := s.setOp a { op with deadlineMs := 0 }
        if op.onDeadline then .call s (.onDeadline a now op.next) else s.sweepLoop now n op.next
      else s.sweepLoop now n op.next

def sweepFrom (now : Nat) (cursor : Option Nat) : AOut := s.sweepLoop now s.ops.length cursor

def enter : Op → AsyncServer → AOut
  | .suspend conn a deadlineMs onResume onDeadline onCancel, s =>
    s.suspend conn a deadlineMs onResume onDeadline onCancel
  | .complete a, s => s.complete a
  | .cancel a, s => s.cancel a false
  | .cancelDetached a, s => s.cancel a true
  | .free a, s => .done { s with ops := s.ops.free a } 0
  | .drive conn state depth streamed, s =>
    .done (s.setConn conn fun c => { c with state, dispatchDepth := depth, streamed }) 0
  | .sweep now, s => s.sweepFrom now s.asyncOps

def afterHook : Frame → Int → AsyncServer → AOut
  | .onResume conn, _, s =>
    (s.setConn conn fun c => { c with dispatchDepth := c.dispatchDepth - 1 }).resumed conn
  | .onCancel conn detached, _, s => s.cancelled conn detached
  | .driver _, _, s => .done s 0
  | .onDeadline _ now next, _, s => s.sweepFrom now next

def machine : Machine AsyncServer Op Frame Int Int where
  enter := enter
  resume := afterHook

abbrev AStep := Step AsyncServer Op Frame Int Int
abbrev AConfig := Config AsyncServer Op Frame Int Int
abbrev AAct := Act Op Int

/-! ## The list of active operations -/

/-- Suspended and not yet terminal. -/
def pending : Bool :=
  match s.ops.get a with
  | none => false
  | some op => !op.terminal

structure Active (s : AsyncServer) (l : List Nat) : Prop where
  chain : Chain s.next s.asyncOps l
  mem_iff : ∀ a, a ∈ l ↔ s.pending a = true

/-- Everything of an operation but its link. -/
def data : Option KlAsyncOp := (s.ops.get a).map fun op => { op with next := none }

section

variable {s s' : AsyncServer} {a b x : Nat} {l : List Nat}

/-- Pending means allocated and not ended. -/
theorem pending_eq (s : AsyncServer) (a : Nat) :
    s.pending a = (s.data a).any fun op => !op.terminal := by
  unfold pending data
  cases s.ops.get a <;> rfl

/-- It depends on the data of the operation only. -/
theorem pending_congr (h : s'.data a = s.data a) : s'.pending a = s.pending a := by
  rw [pending_eq, pending_eq, h]

/-- An operation that is pending has not been freed. -/
theorem exists_of_pending (h : s.pending a = true) :
    ∃ op, s.ops.get a = some op ∧ op.terminal = false := by
  unfold pending at h
  cases hop : s.ops.get a with
  | none => simp [hop] at h
  | some op => exact ⟨op, rfl, by simpa [hop] using h⟩

/-- The operations on the list have not been freed or ended. -/
theorem Active.exists_op (h : Active s l) (ha : a ∈ l) :
    ∃ op, s.ops.get a = some op ∧ op.terminal = false :=
  exists_of_pending ((h.mem_iff a).mp ha)

/-- Only the cells and the head of the list matter. -/
theorem Active.of_eq (h : Active s l) (ho : s'.ops = s.ops) (hh : s'.asyncOps = s.asyncOps) :
    Active s' l := by
  have hn : s'.next = s.next := by
    funext a
    rw [next, next, ho]
  refine ⟨by rw [hn, hh]; exact h.chain, fun a => ?_⟩
  rw [h.mem_iff a, pending, pending, ho]

variable {op : KlAsyncOp}

theorem next_setOp_self : (s.setOp a op).next a = op.next := by
  simp [next, setOp]

theorem next_setOp_ne (h : b ≠ a) : (s.setOp a op).next b = s.next b := by
  simp [next, setOp, h]

theorem data_setOp_ne (h : b ≠ a) : (s.setOp a op).data b = s.data b := by
  simp [data, setOp, h]

/-! ## `async_retire` -/

/-- From a cell before `a`, the loop finds the last one and links it past `a`. -/
theorem unlink_nextOf {nxt : Option Nat} {l₁ l₂ : List Nat} {n : Nat}
    (hc : Chain s.next (some b) (b :: l₁ ++ a :: l₂))
    (halloc : ∀ x ∈ b :: l₁, ∃ op, s.ops.get x = some op) (hn : l₁.length < n) :
    ∃ m c op, b :: l₁ = m ++ [c] ∧ s.ops.get c = some op ∧
      s.unlink a nxt n (.nextOf b) = s.setOp c { op with next := nxt } := by
  induction l₁ generalizing b n with
  | nil =>
    obtain ⟨op, hop⟩ := halloc b mem_cons_self
    have hnext : op.next = some a := by
      have := hc.2.1
      rwa [next, hop] at this
    obtain ⟨n, rfl⟩ : ∃ k, n = k + 1 := ⟨n - 1, by omega⟩
    refine ⟨[], b, op, rfl, hop, ?_⟩
    simp only [unlink, hop, hnext, if_true]
  | cons d l₁ ih =>
    obtain ⟨op, hop⟩ := halloc b mem_cons_self
    have hnext : op.next = some d := by
      have := hc.2.1
      rwa [next, hop] at this
    have hda : d ≠ a := fun hda => by
      have := (nodup_cons.mp hc.2.nodup).1
      exact this (hda ▸ mem_append_right l₁ mem_cons_self)
    obtain ⟨n, rfl⟩ : ∃ k, n = k + 1 := ⟨n - 1, by simp at hn; omega⟩
    obtain ⟨m, c, op', hm, hop', heq⟩ := ih (.cons hc.2.2)
      (fun x hx => halloc x (mem_cons_of_mem b hx)) (by simpa using hn)
    refine ⟨b :: m, c, op', by rw [hm]; rfl, hop', ?_⟩
    simp only [unlink, hop, hnext, if_neg hda]
    exact heq

/-- What taking a pending operation out of the list leaves alone. -/
structure Unlinked (s : AsyncServer) (l : List Nat) (a : Nat) (s' : AsyncServer) : Prop where
  fault : s'.fault = s.fault
  links : Unlinks s.next s.asyncOps l a s'.next s'.asyncOps
  data : ∀ x, s'.data x = s.data x

/-- The walk finds the operation and takes it off the list. -/
theorem unlink_spec (hc : Chain s.next s.asyncOps l) (halloc : ∀ x ∈ l, ∃ op, s.ops.get x = some op)
    (ha : a ∈ l) {n : Nat} (hn : l.length ≤ n) :
    Unlinked s l a (s.unlink a (s.next a) (n + 1) .head) := by
  obtain ⟨l₁, l₂, rfl⟩ := append_of_mem ha
  cases l₁ with
  | nil =>
    have hhead : s.asyncOps = some a := hc.1
    have heq : s.unlink a (s.next a) (n + 1) .head = { s with asyncOps := s.next a } := by
      simp only [unlink, hhead, if_true]
    rw [heq]
    exact ⟨rfl, .inl ⟨l₂, rfl, rfl, fun _ => rfl⟩, fun _ => rfl⟩
  | cons b l₁ =>
    have hhead : s.asyncOps = some b := hc.1
    have hba : b ≠ a := fun hba => by
      have := (nodup_cons.mp hc.nodup).1
      exact this (hba ▸ mem_append_right l₁ mem_cons_self)
    have hlt : l₁.length < n := by
      simp at hn
      omega
    obtain ⟨m, c, op, hm, hop, heq⟩ : ∃ m c op, b :: l₁ = m ++ [c] ∧ s.ops.get c = some op ∧
        s.unlink a (s.next a) n (.nextOf b) = s.setOp c { op with next := s.next a } :=
      unlink_nextOf (.cons hc.2) (fun x hx => halloc x (mem_append_left _ hx)) hlt
    have heq' : s.unlink a (s.next a) (n + 1) .head = s.setOp c { op with next := s.next a } := by
      rw [← heq]
      simp only [unlink, hhead, if_neg hba]
    rw [heq']
    refine ⟨rfl, .inr ⟨m, c, l₂, ?_, rfl, next_setOp_self, fun x hx => next_setOp_ne hx⟩, fun x =>
      ?_⟩
    · rw [hm, append_assoc]
      rfl
    · by_cases hx : x = c
      · subst hx
        simp [data, setOp, hop]
      · exact data_setOp_ne hx

/-- What `async_retire` does to a pending operation. -/
structure Retires (s : AsyncServer) (l : List Nat) (a : Nat) (s' : AsyncServer) : Prop where
  fault : s'.fault = s.fault
  links : Unlinks s.next s.asyncOps l a s'.next s'.asyncOps
  data : ∀ x, x ≠ a → s'.data x = s.data x
  terminal : ∃ op, s'.ops.get a = some op ∧ op.terminal = true

theorem Retires.of_eq {s'' : AsyncServer} (h : Retires s l a s') (ho : s''.ops = s'.ops)
    (hh : s''.asyncOps = s'.asyncOps) (hf : s''.fault = s'.fault) : Retires s l a s'' where
  fault := hf.trans h.fault
  links := by
    have hn : s''.next = s'.next := by
      funext x
      rw [next, next, ho]
    rw [hn, hh]
    exact h.links
  data x hx := by
    have := h.data x hx
    unfold AsyncServer.data at this ⊢
    rw [ho, this]
  terminal := ho ▸ h.terminal

/-- The first terminal transition takes a pending operation off the list. -/
theorem asyncRetire_pending (h : Active s l) (ha : s.pending a = true) :
    ∃ conn, (s.asyncRetire a).2 = some conn ∧ Retires s l a (s.asyncRetire a).1 := by
  obtain ⟨op, hop, hterm⟩ := exists_of_pending ha
  have hal : a ∈ l := (h.mem_iff a).mpr ha
  -- the flag is set first: the links are those of the list
  let s₁ := s.setOp a { op with terminal := true }
  have hnext : s₁.next = s.next := by
    funext x
    by_cases hx : x = a
    · subst hx
      rw [next_setOp_self, next, hop]
      rfl
    · exact next_setOp_ne hx
  have hget (x : Nat) (hx : x ∈ l) : ∃ op, s₁.ops.get x = some op := by
    obtain ⟨op', hop', -⟩ := h.exists_op hx
    by_cases hxa : x = a
    · subst hxa
      exact ⟨_, Store.get_set_self _ _ _⟩
    · exact ⟨op', by rw [← hop']; exact Store.get_set_ne hxa⟩
  have hchain : Chain s₁.next s₁.asyncOps l := hnext ▸ h.chain
  have hu := unlink_spec hchain hget hal (Store.length_le h.chain.nodup hget)
  have hself : s₁.next a = op.next := next_setOp_self
  rw [hself] at hu
  have heq : s.asyncRetire a = ((s₁.unlink a op.next (s₁.ops.length + 1) .head).setConn op.conn
      (fun c => if c.asyncOp = some a then { c with asyncOp := none } else c), some op.conn) := by
    simp [asyncRetire, hop, hterm, s₁]
  rw [heq]
  suffices hs₁ : Retires s l a (s₁.unlink a op.next (s₁.ops.length + 1) .head) from
    ⟨op.conn, rfl, hs₁.of_eq rfl rfl rfl⟩
  refine ⟨hu.fault, hnext ▸ hu.links, fun x hx => (hu.data x).trans (data_setOp_ne hx), ?_⟩
  have hdata := hu.data a
  unfold data at hdata
  rw [show s₁.ops.get a = some { op with terminal := true } from Store.get_set_self _ _ _] at hdata
  cases hg : (s₁.unlink a op.next (s₁.ops.length + 1) .head).ops.get a with
  | none => simp [hg] at hdata
  | some op' =>
    refine ⟨op', rfl, ?_⟩
    simp only [hg, Option.map_some, Option.some.injEq] at hdata
    exact congrArg KlAsyncOp.terminal hdata

/-- A second one does nothing. -/
theorem asyncRetire_terminal (hop : s.ops.get a = some op)
    (ht : op.terminal = true) : s.asyncRetire a = (s, none) := by
  simp [asyncRetire, hop, ht]

/-- The rest of the list stays as it is. -/
theorem Retires.active (h : Active s l) (hr : Retires s l a s') : Active s' (l.erase a) where
  chain := hr.links.chain h.chain
  mem_iff x := by
    rw [h.chain.nodup.mem_erase_iff]
    by_cases hx : x = a
    · subst hx
      obtain ⟨op, hop, ht⟩ := hr.terminal
      simp [pending, hop, ht]
    · rw [pending_congr (hr.data x hx), h.mem_iff x]
      simp [hx]

end

end AsyncServer
