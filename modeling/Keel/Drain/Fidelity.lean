-- SUMMARY: Drain writes and flushes: the writer takes the bytes in order.
import Keel.Drain.Write

/-!
# Fidelity of the drain

A run is a list of calls. Its log has, call by call, the result and what the writer was
offered and reported.
-/

namespace KlDrainQueue

inductive DrainOp where
  | write (src : SrcBuf)
  | flush
deriving DecidableEq, Repr

/-- The data that a call hands to the drain. -/
def DrainOp.data : DrainOp → List UInt8
  | .write src => src.data
  | .flush => []

/-- The pointer of a write is valid, and its data lie in memory beside the buffer. -/
def DrainOp.Valid (d : KlDrainQueue) : DrainOp → Prop
  | .write src => (src.len ≠ 0 → src = .bytes src.data) ∧ Addressable d src.data
  | .flush => True

variable {σ : Type} (e : DrainEnv σ)

def call (s : σ) (d : KlDrainQueue) : DrainOp → DrainOut σ
  | .write src => drainWrite e s d src
  | .flush => drainFlush e s d

/-- One call of the log. -/
structure Called where
  op : DrainOp
  rc : Int
  writes : List WriterCall
deriving DecidableEq, Repr

structure Run (σ : Type) where
  env : σ
  drain : KlDrainQueue
  log : List Called := []

def Run.step (r : Run σ) (op : DrainOp) : Run σ :=
  let out := call e r.env r.drain op
  { env := out.env, drain := out.drain, log := r.log ++ [⟨op, out.rc, out.writes⟩] }

def run (r : Run σ) (ops : List DrainOp) : Run σ := ops.foldl (Run.step e) r

/-- Every call is valid when it is made. -/
def ValidRun (r : Run σ) : List DrainOp → Prop
  | [] => True
  | op :: ops => op.Valid r.drain ∧ ValidRun (r.step e op) ops

/-- All the data written in a log. -/
def written (log : List Called) : List UInt8 := log.flatMap (·.op.data)

/-- All the bytes that the writer took. -/
def accepted (log : List Called) : List UInt8 := log.flatMap (·.writes.flatMap WriterCall.taken)

/-! ## One call -/

section

variable {e} {s : σ} {d : KlDrainQueue} {op : DrainOp}

/-- The data of a valid call and what is queued fit into memory together. -/
theorem DrainOp.Valid.addressable (hvalid : op.Valid d) (hfits : d.Fits) :
    Addressable d op.data := by
  cases op with
  | write src => exact hvalid.2
  | flush => exact hfits.addressable

/-- Every call moves bytes from its data to the socket or to the queue, in order. -/
theorem call_moves (hfits : d.Fits) (herr : d.error = false) (hvalid : op.Valid d) :
    Moves e d op.data (call e s d op) := by
  cases op with
  | write src => exact drainWrite_moves src hfits herr hvalid.1
  | flush => exact drainFlush_moves hfits herr

/-- Nothing is written behind a failure. -/
theorem call_failed (herr : d.error = true) :
    call e s d op = { env := s, drain := d, rc := -1 } := by
  cases op with
  | write src => exact if_pos herr
  | flush => exact if_pos herr

end

/-! ## Whole runs -/

/-- No call has failed, and nothing is lost or reordered. -/
structure Flowing (r : Run σ) : Prop where
  ok : ∀ c ∈ r.log, c.rc ≠ -1
  error : r.drain.error = false
  bytes : accepted r.log ++ r.drain.buf = written r.log

/-- `c` was the first call to fail, after `before`. -/
structure Failed (r : Run σ) (before : List Called) (c : Called) (later : List Called) : Prop where
  log : r.log = before ++ c :: later
  ok : ∀ x ∈ before, x.rc ≠ -1
  rc : c.rc = -1
  error : r.drain.error = true
  silent : ∀ x ∈ later, x.rc = -1 ∧ x.writes = []
  bytes : accepted r.log <+: written (before ++ [c])

structure RunInv (r : Run σ) : Prop where
  fits : r.drain.Fits
  state : Flowing r ∨ ∃ before c later, Failed r before c later

variable {e} {r : Run σ} {op : DrainOp}

theorem Flowing.step (h : Flowing r) (hfits : r.drain.Fits) (hvalid : op.Valid r.drain) :
    RunInv (r.step e op) := by
  have hmoves := call_moves (e := e) (s := r.env) hfits h.error hvalid
  refine ⟨hmoves.fits, ?_⟩
  rcases Int.lt_or_le (call e r.env r.drain op).rc 0 with hrc | hrc
  · obtain ⟨hrc, hpre, herr⟩ := hmoves.failed hrc
    refine .inr ⟨r.log, _, [], rfl, h.ok, hrc, herr (hvalid.addressable hfits), fun x hx =>
      absurd hx List.not_mem_nil, ?_⟩
    -- The failed call took a front of the backlog and its own data.
    have hfront : accepted r.log ++ (r.drain.buf ++ op.data) = written r.log ++ op.data := by
      rw [← List.append_assoc, h.bytes]
    simp only [Run.step, accepted, written, List.flatMap_append, List.flatMap_singleton] at hfront ⊢
    rw [← hfront]
    exact (List.prefix_append_right_inj _).mpr hpre
  obtain ⟨herr, heq⟩ := hmoves.ok hrc
  refine .inl ⟨fun c hc => ?_, herr, ?_⟩
  · rcases List.mem_append.mp hc with hc | hc
    · exact h.ok c hc
    · rw [List.mem_singleton.mp hc]
      exact (Int.ne_of_lt (Int.lt_of_lt_of_le (show (-1 : Int) < 0 by decide) hrc)).symm
  · calc accepted (r.step e op).log ++ (r.step e op).drain.buf
        = accepted r.log ++
          ((call e r.env r.drain op).taken ++ (call e r.env r.drain op).drain.buf) := by
          simp [Run.step, accepted, DrainOut.taken]
      _ = accepted r.log ++ r.drain.buf ++ op.data := by rw [heq, List.append_assoc]
      _ = written (r.step e op).log := by rw [h.bytes]; simp [Run.step, written]

theorem Failed.step {before later : List Called} {c : Called} (h : Failed r before c later) :
    Failed (r.step e op) before c (later ++ [⟨op, -1, []⟩]) := by
  have hstep : r.step e op = { r with log := r.log ++ [⟨op, -1, []⟩] } := by
    rw [Run.step, call_failed h.error]
  rw [hstep]
  refine ⟨by simp [h.log], h.ok, h.rc, h.error, fun x hx => ?_, ?_⟩
  · rcases List.mem_append.mp hx with hx | hx
    · exact h.silent x hx
    · rw [List.mem_singleton.mp hx]
      exact ⟨rfl, rfl⟩
  · simpa [accepted] using h.bytes

/-- A valid call keeps the account of the run. -/
theorem RunInv.step (h : RunInv r) (hvalid : op.Valid r.drain) : RunInv (r.step e op) := by
  obtain hflow | ⟨before, c, later, hfailed⟩ := h.state
  · exact hflow.step h.fits hvalid
  · refine ⟨?_, .inr ⟨before, c, _, hfailed.step⟩⟩
    rw [Run.step, call_failed hfailed.error]
    exact h.fits

theorem RunInv.run {ops : List DrainOp} (h : RunInv r) (hvalid : ValidRun e r ops) :
    RunInv (run e r ops) := by
  induction ops generalizing r with
  | nil => exact h
  | cons op ops ih => exact ih (h.step hvalid.1) hvalid.2

/-- A drain in which nothing is buffered yet: fresh from `kl_drain_init`, with any cap, any
callbacks and any allocation made for it. -/
structure Fresh (d : KlDrainQueue) : Prop where
  buf : d.buf = []
  size : d.bufCap ≤ SIZE_MAX
  error : d.error = false

/-- A queue that nothing went through has its account. -/
theorem Fresh.inv {d : KlDrainQueue} (h : d.Fresh) (s : σ) : RunInv { env := s, drain := d } :=
  ⟨⟨h.size, by simp [h.buf], by simp [h.buf]⟩, .inl ⟨fun c hc => absurd hc List.not_mem_nil,
    h.error, h.buf⟩⟩

/-- The writer takes the bytes in the order in which they are written, and a failure is
final. -/
theorem drain_fidelity (e : DrainEnv σ) (s : σ) (d : KlDrainQueue) (hd : d.Fresh)
    (ops : List DrainOp) (hvalid : ValidRun e { env := s, drain := d } ops) :
    let r := run e { env := s, drain := d } ops
    ((∀ c ∈ r.log, c.rc ≠ -1) ∧ accepted r.log ++ r.drain.buf = written r.log ∨
      ∃ before c later, r.log = before ++ c :: later ∧ (∀ x ∈ before, x.rc ≠ -1) ∧ c.rc = -1 ∧
        (∀ x ∈ later, x.rc = -1 ∧ x.writes = []) ∧ accepted r.log <+: written (before ++ [c])) ∧
    r.drain.buf.length ≤ r.drain.bufCap ∧
    (r.drain.maxSize ≠ 0 → r.drain.buf.length ≤ r.drain.maxSize) := by
  intro r
  have hinv : RunInv r := (hd.inv s).run hvalid
  refine ⟨?_, hinv.fits.cap, hinv.fits.max⟩
  obtain hflow | ⟨before, c, later, hfailed⟩ := hinv.state
  · exact .inl ⟨hflow.ok, hflow.bytes⟩
  · exact .inr ⟨before, c, later, hfailed.log, hfailed.ok, hfailed.rc, hfailed.silent,
      hfailed.bytes⟩

/-- A writer that takes one byte, then blocks once, then fails. -/
def oneByte : DrainEnv Nat where
  writeFn s _ := (s + 1, match s with | 0 => 1 | 1 => 0 | _ => -1)
  realloc s _ := (s, true)

/-- A socket that takes one byte of each write. -/
theorem drain_fidelity_oneByte :
    let r := run oneByte { env := 0, drain := init 0 }
      [.write (.bytes [7, 8]), .write (.bytes [9]), .flush]
    r.log.map Called.rc = [0, 0, -1] ∧ accepted r.log = [7] ∧ r.drain.buf.length ≤ r.drain.bufCap :=
  ⟨by decide, by decide,
    (drain_fidelity oneByte 0 (init 0) ⟨rfl, by decide, rfl⟩ [.write (.bytes [7, 8]),
      .write (.bytes [9]), .flush]
      ⟨⟨fun _ => rfl, by decide⟩, ⟨fun _ => rfl, by decide⟩, trivial, trivial⟩).2.1⟩

end KlDrainQueue
