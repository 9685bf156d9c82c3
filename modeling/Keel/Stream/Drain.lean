-- SUMMARY: The preallocated KlDrain write queue (src/drain.c, reservation mode).
import Mathlib.Data.List.Basic
import Mathlib.Data.List.TakeDrop
import Mathlib.Algebra.Ring.Nat

/-!
# The write queue

`KlDrain` in reservation mode, the form in which `KlStream` uses it: the buffer is
allocated once to a fixed capacity, and neither the empty callback nor the
low-water callback is installed. Its `buf` is the contents `buf[0..buf_len]`.

The writer `write_fn` belongs to the transport. A function that calls it is split
at the call: the part before says what it offers, the part after takes the
number of bytes the writer reported.
-/

/-- A pointer and a length, as the write calls take them. -/
inductive SrcBuf where
  | null (len : Nat)
  | bytes (data : List UInt8)
deriving DecidableEq, Repr

namespace SrcBuf

def len : SrcBuf → Nat
  | null n => n
  | bytes data => data.length

/-- The bytes behind the pointer. -/
def data : SrcBuf → List UInt8
  | null _ => []
  | bytes data => data

@[simp] theorem len_bytes (data : List UInt8) : (bytes data).len = data.length := rfl
@[simp] theorem data_bytes (data : List UInt8) : (bytes data).data = data := rfl
@[simp] theorem data_null (n : Nat) : (null n).data = [] := rfl

end SrcBuf

inductive KlDrainWriteStatus where
  | accepted
  | wouldBlock
  | tooLarge
  | werror
deriving DecidableEq, Repr

structure KlDrain where
  /-- A writer is installed (`write_fn != NULL`). -/
  writeFn : Bool
  buf : List UInt8
  bufCap : Nat
  maxSize : Nat
  error : Bool
  prealloc : Bool
deriving DecidableEq, Repr

namespace KlDrain

/-- `kl_drain_init`: no buffer yet. -/
def init (writeFn : Bool) : KlDrain :=
  { writeFn, buf := [], bufCap := 0, maxSize := 0, error := false, prealloc := false }

variable (d : KlDrain)

/-- `kl_drain_prealloc`, with an allocation that succeeds. -/
def preallocate (capacity : Nat) : Option KlDrain :=
  if capacity = 0 then none
  else if d.buf ≠ [] ∨ d.bufCap ≠ 0 ∨ d.prealloc then none
  else some { d with bufCap := capacity, prealloc := true, maxSize := capacity }

/-- `kl_drain_buffered`. -/
def buffered : Nat := d.buf.length

@[simp] def fail : KlDrain := { d with error := true }
@[simp] def setBuf (buf : List UInt8) : KlDrain := { d with buf }

/-- `kl_drain_consume`: drop `n` bytes from the front. -/
def consume (n : Nat) : KlDrain :=
  if n = 0 then d
  else if d.buf.length ≤ n then d.setBuf []
  else d.setBuf (d.buf.drop n)

/-- The checks that `kl_drain_reserve_write` and `kl_drain_reserve_buffer` share.
`some` is the status to return at once, `none` means the whole write fits. -/
def reserve (src : SrcBuf) : KlDrain × Option KlDrainWriteStatus :=
  if d.error then (d, some .werror)
  else if src.len = 0 then (d, some .accepted)
  else match src with
    | .null _ => (d, some .werror)
    | .bytes data =>
      if !d.prealloc || d.bufCap = 0 then (d, some .werror)
      else if d.bufCap < d.buf.length then (d.fail, some .werror)
      else if d.bufCap < data.length then (d, some .tooLarge)
      else if d.bufCap - d.buf.length < data.length then (d, some .wouldBlock)
      else (d, none)

variable (data : List UInt8)

/-- Append to the reserved space. -/
def append : KlDrain := d.setBuf (d.buf ++ data)

/-- `kl_drain_reserve_buffer`. -/
def reserveBuffer (src : SrcBuf) : KlDrain × KlDrainWriteStatus :=
  match d.reserve src with
  | (d, some st) => (d, st)
  | (d, none) => (d.append src.data, .accepted)

/-- What `kl_drain_reserve_write` does before its direct send: it returns, or it
offers the whole write to the writer (the queue is empty then). -/
inductive WriteStart where
  | status (d : KlDrain) (st : KlDrainWriteStatus)
  | direct (d : KlDrain)
deriving DecidableEq, Repr

/-- `kl_drain_reserve_write`, up to the call of the writer. -/
def reserveWrite (src : SrcBuf) : WriteStart :=
  match d.reserve src with
  | (d, some st) => .status d st
  | (d, none) => if d.buf.length = 0 then .direct d else .status (d.append src.data) .accepted

/-- `kl_drain_reserve_write`, after the writer reported `n` for `data`. The
remainder is copied to the start of the buffer. -/
def reserveWriteSent (n : Int) : KlDrain × KlDrainWriteStatus :=
  if n < 0 then (d.fail, .werror)
  else if data.length < n.toNat then (d.fail, .werror)
  else if n.toNat = data.length then (d, .accepted)
  else (d.setBuf (data.drop n.toNat), .accepted)

/-- How `drain_push` goes on after the writer reported `n` for the buffer. -/
inductive Push where
  | again (d : KlDrain)
  | stop (d : KlDrain) (r : Int)
deriving DecidableEq, Repr

/-- One round of the loop of `drain_push`, after the writer. -/
def pushSent (n : Int) : Push :=
  if n < 0 then .stop d.fail (-1)
  else if n = 0 then .stop d 0
  else if d.buf.length < n.toNat then .stop d.fail (-1)
  else if 0 < (d.buf.drop n.toNat).length then .again (d.setBuf (d.buf.drop n.toNat))
  else .stop (d.setBuf (d.buf.drop n.toNat)) 0

/-- The result `drain_notify` computes for `kl_drain_flush` once no callback is
installed: 0 drained, 1 more pending. -/
def flushResult : Int := if d.buf.length = 0 then 0 else 1

/-! ## Lemmas -/

@[simp] theorem append_buf : (d.append data).buf = d.buf ++ data := rfl

@[simp] theorem consume_buf (n : Nat) : (d.consume n).buf = d.buf.drop n := by
  unfold consume
  split_ifs
  · simp [*]
  · simp [List.drop_eq_nil_of_le, *]
  · rfl

@[simp] theorem consume_error (n : Nat) : (d.consume n).error = d.error := by
  unfold consume
  split
  · rfl
  · split <;> rfl

/-- Capacity and writer are fixed once the queue is set up. -/
structure Keeps (d d' : KlDrain) : Prop where
  writeFn : d'.writeFn = d.writeFn
  bufCap : d'.bufCap = d.bufCap
  maxSize : d'.maxSize = d.maxSize
  prealloc : d'.prealloc = d.prealloc

variable {d d' : KlDrain}

theorem Keeps.rfl : d.Keeps d := by
  constructor <;> simp

theorem Keeps.trans {a b c : KlDrain} (h : a.Keeps b) (h' : b.Keeps c) : a.Keeps c where
  writeFn := h'.writeFn.trans h.writeFn
  bufCap := h'.bufCap.trans h.bufCap
  maxSize := h'.maxSize.trans h.maxSize
  prealloc := h'.prealloc.trans h.prealloc

/-- Consuming bytes leaves the limits alone. -/
theorem Keeps.consume (d : KlDrain) (n : Nat) : d.Keeps (d.consume n) := by
  unfold KlDrain.consume
  split
  · exact .rfl
  · split <;> constructor <;> simp

/-- Reserving room leaves the set-up alone. -/
theorem Keeps.reserve (d : KlDrain) (src : SrcBuf) : d.Keeps (d.reserve src).1 := by
  unfold KlDrain.reserve
  split
  · exact .rfl
  split
  · exact .rfl
  split
  · exact .rfl
  split
  · exact .rfl
  split
  · constructor <;> simp
  · split
    · exact .rfl
    · split <;> exact .rfl

theorem Keeps.append (h : d.Keeps d') (data : List UInt8) : d.Keeps (d'.append data) :=
  ⟨h.writeFn, h.bufCap, h.maxSize, h.prealloc⟩

variable {src : SrcBuf} {st : KlDrainWriteStatus}

theorem Keeps.reserveBuffer (h : d.reserveBuffer src = (d', st)) : d.Keeps d' := by
  have hk := Keeps.reserve d src
  unfold KlDrain.reserveBuffer at h
  split at h
  · next heq =>
    rw [heq] at hk
    cases h
    exact hk
  · next heq =>
    rw [heq] at hk
    cases h
    exact hk.append _

/-- A write that was not sent directly keeps the configuration. -/
theorem Keeps.reserveWrite_status (h : d.reserveWrite src = .status d' st) : d.Keeps d' := by
  have hk := Keeps.reserve d src
  unfold KlDrain.reserveWrite at h
  split at h
  · next heq =>
    rw [heq] at hk
    cases h
    exact hk
  · next heq =>
    rw [heq] at hk
    split at h
    · cases h
    · cases h
      exact hk.append _

theorem Keeps.reserveWrite_direct (h : d.reserveWrite src = .direct d') : d.Keeps d' := by
  have hk := Keeps.reserve d src
  unfold KlDrain.reserveWrite at h
  split at h
  · cases h
  next heq =>
  rw [heq] at hk
  split at h
  · cases h
    exact hk
  · cases h

/-- The writer failed, took everything, or took a part. -/
theorem reserveWriteSent_cases (d : KlDrain) (data : List UInt8) (n : Int) :
    (d.reserveWriteSent data n = (d.fail, .werror) ∧ (n < 0 ∨ data.length < n.toNat)) ∨
    (d.reserveWriteSent data n = (d, .accepted) ∧ n.toNat = data.length) ∨
    (d.reserveWriteSent data n = (d.setBuf (data.drop n.toNat), .accepted) ∧
      n.toNat < data.length) := by
  unfold reserveWriteSent
  split_ifs
  · next h => exact .inl ⟨rfl, .inl h⟩
  · next h => exact .inl ⟨rfl, .inr h⟩
  · next h => exact .inr (.inl ⟨rfl, h⟩)
  · exact .inr (.inr ⟨rfl, by omega⟩)

/-- The writer failed, would block or emptied the queue, or took a part. -/
theorem pushSent_cases (d : KlDrain) (n : Int) :
    (d.pushSent n = .stop d.fail (-1) ∧ (n < 0 ∨ d.buf.length < n.toNat)) ∨
    (d.pushSent n = .stop (d.setBuf (d.buf.drop n.toNat)) 0 ∧ n.toNat ≤ d.buf.length) ∨
    (d.pushSent n = .again (d.setBuf (d.buf.drop n.toNat)) ∧ n.toNat ≤ d.buf.length ∧
      d.buf.drop n.toNat ≠ []) := by
  unfold pushSent
  split_ifs
  · next h => exact .inl ⟨rfl, .inl h⟩
  · next h => exact .inr (.inl (by simp [h]))
  · next h => exact .inl ⟨rfl, .inr h⟩
  · next h => exact .inr (.inr ⟨rfl, by omega, List.ne_nil_of_length_pos h⟩)
  · exact .inr (.inl ⟨rfl, by omega⟩)

theorem Keeps.reserveWriteSent (d : KlDrain) (data : List UInt8) (n : Int) :
    d.Keeps (d.reserveWriteSent data n).1 := by
  obtain ⟨h, -⟩ | ⟨h, -⟩ | ⟨h, -⟩ :=
    reserveWriteSent_cases d data n <;> rw [h] <;> constructor <;> rfl

/-- A push that goes on. -/
theorem Keeps.pushSent_again {n : Int} (h : d.pushSent n = .again d') : d.Keeps d' := by
  obtain ⟨h', -⟩ | ⟨h', -⟩ | ⟨h', -⟩ := pushSent_cases d n
  · simp [h'] at h
  · simp [h'] at h
  · rw [h'] at h
    cases h
    constructor <;> rfl

/-- A push that ends. -/
theorem Keeps.pushSent_stop {n r : Int} (h : d.pushSent n = .stop d' r) : d.Keeps d' := by
  obtain ⟨h', -⟩ | ⟨h', -⟩ | ⟨h', -⟩ :=
    pushSent_cases d n <;> rw [h'] at h <;> cases h <;> constructor <;> rfl

/-- A queue in reservation mode whose contents fit. -/
structure WF (d : KlDrain) : Prop where
  prealloc : d.prealloc = true
  bufCap_pos : 0 < d.bufCap
  maxSize : d.maxSize = d.bufCap
  fits : d.buf.length ≤ d.bufCap

/-- The same storage with contents that fit. -/
theorem WF.keeps (h : d.WF) (hk : d.Keeps d') (hf : d'.buf.length ≤ d.bufCap) : d'.WF where
  prealloc := hk.prealloc.trans h.prealloc
  bufCap_pos := hk.bufCap.symm ▸ h.bufCap_pos
  maxSize := by rw [hk.maxSize, hk.bufCap, h.maxSize]
  fits := hk.bufCap.symm ▸ hf

/-- Admission of a write is all or none. -/
theorem reserve_bytes (h : d.WF) (he : d.error = false) {data : List UInt8} (hd : data ≠ []) :
    (d.reserve (.bytes data) = (d, some .tooLarge) ∧ d.bufCap < data.length) ∨
    (d.reserve (.bytes data) = (d, some .wouldBlock) ∧ data.length ≤ d.bufCap ∧
      d.bufCap - d.buf.length < data.length) ∨
    (d.reserve (.bytes data) = (d, none) ∧ data.length ≤ d.bufCap - d.buf.length) := by
  have hcap : d.bufCap ≠ 0 := Nat.pos_iff_ne_zero.mp h.bufCap_pos
  have hfits : ¬ d.bufCap < d.buf.length := Nat.not_lt.mpr h.fits
  by_cases hl : d.bufCap < data.length
  · exact .inl ⟨by simp [reserve, he, hd, h.prealloc, hcap, hfits, hl], hl⟩
  by_cases hb : d.bufCap - d.buf.length < data.length
  · refine .inr (.inl ⟨?_, Nat.not_lt.mp hl, hb⟩)
    simp [reserve, he, hd, h.prealloc, hcap, hfits, hl, hb]
  · refine .inr (.inr ⟨?_, Nat.not_lt.mp hb⟩)
    simp [reserve, he, hd, h.prealloc, hcap, hfits, hl, hb]

end KlDrain
