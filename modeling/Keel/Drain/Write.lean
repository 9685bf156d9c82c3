-- SUMMARY: The growing KlDrain (src/drain.c) with any writer and allocator.
import Keel.Limits
import Keel.Stream.Drain

/-!
# The growing drain

`kl_drain_write` moves the backlog first, then offers its data to the writer, and buffers
what the writer did not take. The buffer grows on demand up to `max_size`. The writer and
the allocator belong to the surroundings: `DrainEnv` answers for both, from a state of its
own, so that every sequence of answers occurs.

A callback fires from `kl_drain_flush` only, when nothing is left to do but to return. What
a callback writes is therefore a call after the flush, and the model names the callback and
does not run it.
-/

/-- A drain with its callbacks, of which only their presence matters. -/
structure KlDrainQueue extends KlDrain where
  lowWater : Nat := 0
  onWritable : Bool := false
  onDrain : Bool := false
deriving DecidableEq, Repr

/-- The writer and the allocator. The writer reports a number of bytes, 0 for would-block
or a negative number for an error; `kl_realloc` may fail. -/
structure DrainEnv (σ : Type) where
  writeFn : σ → List UInt8 → σ × Int
  realloc : σ → Nat → σ × Bool

/-- The writer takes what it can, and there is memory. -/
structure DrainEnv.Willing {σ : Type} (e : DrainEnv σ) : Prop where
  writeFn : ∀ s data, 0 ≤ (e.writeFn s data).2 ∧ (e.writeFn s data).2.toNat ≤ data.length
  realloc : ∀ s n, (e.realloc s n).2 = true

/-- What was offered to the writer, and its report. -/
structure WriterCall where
  offered : List UInt8
  report : Int
deriving DecidableEq, Repr

/-- The bytes the writer took. One that reports more than it was offered took all of it. -/
def WriterCall.taken (w : WriterCall) : List UInt8 := w.offered.take w.report.toNat

inductive DrainCb where
  | onWritable
  | onDrain
deriving DecidableEq, Repr

/-- The end of a call: its result, the callback it fires last, and its calls of the writer. -/
structure DrainOut (σ : Type) where
  env : σ
  drain : KlDrainQueue
  rc : Int
  writes : List WriterCall := []
  callback : Option DrainCb := none

namespace DrainOut

variable {σ : Type}

/-- The writer had been called before. -/
def after (ws : List WriterCall) (out : DrainOut σ) : DrainOut σ :=
  { out with writes := ws ++ out.writes }

/-- The bytes that the writer took during the call. -/
def taken (out : DrainOut σ) : List UInt8 := out.writes.flatMap WriterCall.taken

@[simp] theorem taken_after (ws : List WriterCall) (out : DrainOut σ) :
    (out.after ws).taken = ws.flatMap WriterCall.taken ++ out.taken := by
  simp [after, taken]

end DrainOut

namespace KlDrainQueue

/-- `DRAIN_INIT_CAP`. -/
def drainInitCap : Nat := 4096

variable (d : KlDrainQueue)

@[simp] def fail : KlDrainQueue := { d with error := true }
@[simp] def setBuf (buf : List UInt8) : KlDrainQueue := { d with buf }
@[simp] def setCap (bufCap : Nat) : KlDrainQueue := { d with bufCap }
@[simp] def append (data : List UInt8) : KlDrainQueue := d.setBuf (d.buf ++ data)

/-- `kl_drain_init` and `kl_drain_set_max_size`. -/
def init (maxSize : Nat) : KlDrainQueue := { KlDrain.init true with maxSize }

/-- The doubling loop of `drain_ensure`; `none` when the next doubling would overflow. -/
def growCap : Nat → Nat → Nat → Option Nat
  | 0, _, _ => none
  | fuel + 1, cap, required =>
    if required ≤ cap then some cap
    else if SIZE_MAX / 2 < cap then none
    else growCap fuel (cap * 2) required

variable {σ : Type} (e : DrainEnv σ)

/-- `drain_ensure`. The sum that wraps around leaves the drain as it is. -/
def drainEnsure (s : σ) (d : KlDrainQueue) (need : Nat) : σ × KlDrainQueue × Bool :=
  let required := d.buf.length + need
  if SIZE_MAX < required then (s, d, false)
  else if 0 < d.maxSize ∧ d.maxSize < required then (s, d.fail, false)
  else if required ≤ d.bufCap then (s, d, true)
  else
    match growCap 65 (if d.bufCap = 0 then drainInitCap else d.bufCap) required with
    | none => (s, d.fail, false)
    | some grown =>
      let cap := if 0 < d.maxSize ∧ d.maxSize < grown then d.maxSize else grown
      let (s, ok) := e.realloc s cap
      if ok then (s, d.setCap cap, true) else (s, d.fail, false)

/-- `drain_push`. Each round that goes on has shortened the buffer. -/
def drainPush : Nat → σ → KlDrainQueue → DrainOut σ
  | 0, s, d => { env := s, drain := d, rc := 0 }
  | fuel + 1, s, d =>
    if d.buf = [] then { env := s, drain := d, rc := 0 }
    else
      let (s, n) := e.writeFn s d.buf
      match d.pushSent n with
      | .stop d' r =>
        { env := s, drain := { d with toKlDrain := d' }, rc := r, writes := [⟨d.buf, n⟩] }
      | .again d' => (drainPush fuel s { d with toKlDrain := d' }).after [⟨d.buf, n⟩]

/-- Put what the writer left into the buffer. -/
def bufferRest (s : σ) (d : KlDrainQueue) (rest : List UInt8) : DrainOut σ :=
  match drainEnsure e s d rest.length with
  | (s, d, true) => { env := s, drain := d.append rest, rc := 0 }
  | (s, d, false) => { env := s, drain := d, rc := -1 }

/-- `kl_drain_write` with an empty buffer: the direct write and its remainder. -/
def directWrite (s : σ) (d : KlDrainQueue) (data : List UInt8) : DrainOut σ :=
  let (s, n) := e.writeFn s data
  if n < 0 then { env := s, drain := d.fail, rc := -1, writes := [⟨data, n⟩] }
  else if data.length < n.toNat then
    { env := s, drain := d.fail, rc := -1, writes := [⟨data, n⟩] }
  else if n.toNat = data.length then { env := s, drain := d, rc := 0, writes := [⟨data, n⟩] }
  else (bufferRest e s d (data.drop n.toNat)).after [⟨data, n⟩]

/-- `kl_drain_write`. -/
def drainWrite (s : σ) (d : KlDrainQueue) (src : SrcBuf) : DrainOut σ :=
  if d.error then { env := s, drain := d, rc := -1 }
  else if src.len = 0 then { env := s, drain := d, rc := 0 }
  else match src with
    | .null _ => { env := s, drain := d, rc := -1 }
    | .bytes data =>
      if d.buf = [] then directWrite e s d data
      else
        let push := drainPush e d.buf.length s d
        if push.rc < 0 then { push with rc := -1 }
        else if push.drain.buf = [] then
          (directWrite e push.env push.drain data).after push.writes
        else (bufferRest e push.env push.drain data).after push.writes

/-- `drain_crossed_low_water`. -/
def drainCrossedLowWater (prevLen : Nat) : Bool :=
  d.onWritable && 0 < d.lowWater && d.lowWater < prevLen && d.buf.length ≤ d.lowWater

/-- `drain_notify`: the callback to fire and the result. After `on_writable` the result is
read again off the buffer that the callback leaves. -/
def drainNotify (prevLen : Nat) : Option DrainCb × Int :=
  if d.drainCrossedLowWater prevLen then (some .onWritable, d.flushResult)
  else if d.buf = [] then (if d.onDrain then some .onDrain else none, 0)
  else (none, 1)

/-- `kl_drain_flush`. -/
def drainFlush (s : σ) (d : KlDrainQueue) : DrainOut σ :=
  if d.error then { env := s, drain := d, rc := -1 }
  else if d.buf = [] then { env := s, drain := d, rc := 0 }
  else
    let push := drainPush e d.buf.length s d
    if push.rc < 0 then { push with rc := -1 }
    else
      let (callback, rc) := push.drain.drainNotify d.buf.length
      { push with rc, callback }

/-! ## Growth -/

variable {cap fuel required : Nat}

theorem growCap_spec {grown : Nat} (h : growCap fuel cap required = some grown)
    (hcap : cap ≤ SIZE_MAX) : required ≤ grown ∧ grown ≤ SIZE_MAX := by
  induction fuel generalizing cap with
  | zero => cases h
  | succ fuel ih =>
    unfold growCap at h
    split at h
    · next hle =>
      obtain rfl := Option.some.inj h
      exact ⟨hle, hcap⟩
    · split at h
      · cases h
      · exact ih h (by omega)

/-- What is at most half of the largest size is reached. -/
theorem growCap_some (hpow : required ≤ cap * 2 ^ fuel)
    (hhalf : required ≤ SIZE_MAX / 2) : ∃ grown, growCap (fuel + 1) cap required = some grown := by
  induction fuel generalizing cap with
  | zero => exact ⟨cap, if_pos (by omega)⟩
  | succ fuel ih =>
    unfold growCap
    split
    · exact ⟨cap, rfl⟩
    · next hlt =>
      rw [if_neg (by omega)]
      exact ih (by rwa [Nat.mul_assoc, ← Nat.pow_succ'])

/-- The overflow check ends the doubling before the rounds run out. -/
theorem growCap_fuel (hcap : SIZE_MAX < cap * 2 ^ fuel) (hreq : required ≤ SIZE_MAX) (k : Nat) :
    growCap (fuel + 1 + k) cap required = growCap (fuel + 1) cap required := by
  induction fuel generalizing cap with
  | zero =>
    have hle : required ≤ cap := by omega
    rw [show 0 + 1 + k = k + 1 by omega]
    simp only [growCap, if_pos hle]
  | succ fuel ih =>
    have hnext : SIZE_MAX < cap * 2 * 2 ^ fuel := by rwa [Nat.mul_assoc, ← Nat.pow_succ']
    have h := ih hnext
    rw [show fuel + 1 + 1 + k = fuel + 1 + k + 1 by omega]
    simp only [growCap] at h ⊢
    rw [h]

/-- A round that goes on has sent something. -/
theorem length_lt_of_pushSent_again {d d' : KlDrain} {n : Int} (h : d.pushSent n = .again d') :
    d'.buf.length < d.buf.length := by
  unfold KlDrain.pushSent at h
  split at h
  · cases h
  split at h
  · cases h
  split at h
  · cases h
  split at h
  · next hpos _ hleft =>
    obtain rfl := KlDrain.Push.again.inj h
    simp only [KlDrain.setBuf, List.length_drop] at hleft ⊢
    omega
  · cases h

/-- The loop of `drain_push` ends before its rounds run out. -/
theorem drainPush_fuel {s : σ} {d : KlDrainQueue} (h : d.buf.length ≤ fuel) (k : Nat) :
    drainPush e (fuel + k) s d = drainPush e fuel s d := by
  induction fuel generalizing s d with
  | zero =>
    have hnil : d.buf = [] := List.eq_nil_of_length_eq_zero (Nat.le_zero.mp h)
    cases k with
    | zero => rfl
    | succ k => simp only [drainPush, if_pos hnil]
  | succ fuel ih =>
    rw [Nat.add_right_comm]
    simp only [drainPush]
    split
    · rfl
    split
    · rfl
    · next d' hagain =>
      have hlt := length_lt_of_pushSent_again hagain
      rw [ih (by simp only; omega)]

/-! ## What a call does to the bytes -/

/-- The contents fit, in the buffer and under the cap. -/
structure Fits (d : KlDrainQueue) : Prop where
  size : d.bufCap ≤ SIZE_MAX
  cap : d.buf.length ≤ d.bufCap
  max : d.maxSize ≠ 0 → d.buf.length ≤ d.maxSize

/-- Data and buffer are two objects of one address space. -/
def Addressable (data : List UInt8) : Prop := d.buf.length + data.length ≤ SIZE_MAX

instance (d : KlDrainQueue) (data : List UInt8) : Decidable (Addressable d data) :=
  inferInstanceAs (Decidable (_ ≤ _))

/-- `n` bytes stay below the cap of a drain. -/
def Roomy (maxSize n : Nat) : Prop := n ≤ SIZE_MAX / 2 ∧ (maxSize ≠ 0 → n ≤ maxSize)

theorem Roomy.mono {maxSize m n : Nat} (h : Roomy maxSize n) (hle : m ≤ n) : Roomy maxSize m :=
  ⟨Nat.le_trans hle h.1, fun hmax => Nat.le_trans hle (h.2 hmax)⟩

/-- What becomes of `data` in a call: what the writer took and what is buffered after it
are what was buffered before it and the data. A failed call leaves the drain failed, unless
a size wrapped around. With a willing writer and room for the data no call fails. -/
structure Moves (e : DrainEnv σ) (d : KlDrainQueue) (data : List UInt8) (out : DrainOut σ) :
    Prop where
  fits : out.drain.Fits
  maxSize : out.drain.maxSize = d.maxSize
  ok : 0 ≤ out.rc → out.drain.error = false ∧ out.taken ++ out.drain.buf = d.buf ++ data
  failed : out.rc < 0 →
    out.rc = -1 ∧ out.taken <+: d.buf ++ data ∧ (Addressable d data → out.drain.error = true)
  willing : e.Willing → Roomy d.maxSize (d.buf.length + data.length) → 0 ≤ out.rc

section

variable {e} {s : σ} {d d' : KlDrainQueue} {data data' : List UInt8} {out : DrainOut σ}

theorem Fits.fail (h : d.Fits) : d.fail.Fits := ⟨h.size, h.cap, h.max⟩

/-- A call without data asks for no room. -/
theorem Fits.addressable (h : d.Fits) : Addressable d [] := Nat.le_trans h.cap h.size

theorem Fits.drop (h : d.Fits) (n : Nat) : (d.setBuf (d.buf.drop n)).Fits := by
  have hle : (d.buf.drop n).length ≤ d.buf.length := by simp
  exact ⟨h.size, Nat.le_trans hle h.cap, fun hm => Nat.le_trans hle (h.max hm)⟩

theorem Moves.of_ok (hrc : 0 ≤ out.rc) (hfits : out.drain.Fits)
    (hmax : out.drain.maxSize = d.maxSize)
    (herr : out.drain.error = false) (heq : out.taken ++ out.drain.buf = d.buf ++ data) :
    Moves e d data out :=
  ⟨hfits, hmax, fun _ => ⟨herr, heq⟩, fun h => absurd hrc (Int.not_le.mpr h), fun _ _ => hrc⟩

theorem Moves.of_failed (hrc : out.rc = -1) (hfits : out.drain.Fits)
    (hmax : out.drain.maxSize = d.maxSize) (herr : Addressable d data → out.drain.error = true)
    (hpre : out.taken <+: d.buf ++ data)
    (hno : e.Willing → ¬ Roomy d.maxSize (d.buf.length + data.length)) : Moves e d data out :=
  ⟨hfits, hmax, fun h => absurd h (by rw [hrc]; decide), fun _ => ⟨hrc, hpre, herr⟩,
    fun hw hroom => absurd hroom (hno hw)⟩

/-- The writer took the front of the bytes before. -/
theorem Moves.after {ws : List WriterCall} (h : Moves e d' data' out)
    (hmax : d'.maxSize = d.maxSize)
    (heq : ws.flatMap WriterCall.taken ++ (d'.buf ++ data') = d.buf ++ data) :
    Moves e d data (out.after ws) := by
  have hlen := congrArg List.length heq
  simp only [List.length_append] at hlen
  refine ⟨h.fits, h.maxSize.trans hmax, fun hrc => ?_, fun hrc => ?_, fun hw hroom =>
    h.willing hw (hmax ▸ hroom.mono (by omega))⟩
  · obtain ⟨herr, hall⟩ := h.ok hrc
    refine ⟨herr, ?_⟩
    calc (out.after ws).taken ++ out.drain.buf
        = ws.flatMap WriterCall.taken ++ (out.taken ++ out.drain.buf) := by
          rw [DrainOut.taken_after, List.append_assoc]
      _ = d.buf ++ data := by rw [hall, heq]
  · obtain ⟨hrc, hpre, herr⟩ := h.failed hrc
    refine ⟨hrc, ?_, fun haddr => herr ?_⟩
    · rw [DrainOut.taken_after, ← heq]
      exact (List.prefix_append_right_inj _).mpr hpre
    · simp only [Addressable] at haddr ⊢
      omega

theorem drainEnsure_spec (need : Nat) (e : DrainEnv σ) (s : σ) (hfits : d.Fits) :
    (drainEnsure e s d need = (s, d, false) ∧ SIZE_MAX < d.buf.length + need) ∨
    (∃ s', drainEnsure e s d need = (s', d.fail, false) ∧
      (e.Willing → ¬ Roomy d.maxSize (d.buf.length + need))) ∨
    ∃ s' cap, drainEnsure e s d need = (s', d.setCap cap, true) ∧ cap ≤ SIZE_MAX ∧
      d.buf.length + need ≤ cap ∧ (d.maxSize ≠ 0 → d.buf.length + need ≤ d.maxSize) := by
  simp only [drainEnsure]
  split
  · next hwrap => exact .inl ⟨rfl, hwrap⟩
  refine .inr ?_
  split
  · next hmax => exact .inl ⟨s, rfl, fun _ hroom => absurd (hroom.2 (by omega)) (by omega)⟩
  rename_i hmax
  have hroom : d.maxSize ≠ 0 → d.buf.length + need ≤ d.maxSize := by omega
  split
  · next hle => exact .inr ⟨s, d.bufCap, rfl, hfits.size, hle, hroom⟩
  have hstart : 0 < (if d.bufCap = 0 then drainInitCap else d.bufCap) ∧
      (if d.bufCap = 0 then drainInitCap else d.bufCap) ≤ SIZE_MAX := by
    split
    · decide
    · next hpos => exact ⟨Nat.pos_of_ne_zero hpos, hfits.size⟩
  split
  · next hnone =>
    refine .inl ⟨s, rfl, fun _ hroom => ?_⟩
    obtain ⟨grown, hgrown⟩ := growCap_some (Nat.le_trans (Nat.le_trans hroom.1 (by decide))
      (Nat.le_mul_of_pos_left (2 ^ 64) hstart.1)) hroom.1
    cases hnone.symm.trans hgrown
  rename_i grown hgrown
  obtain ⟨hge, hsize⟩ := growCap_spec hgrown hstart.2
  have hcap : (if 0 < d.maxSize ∧ d.maxSize < grown then d.maxSize else grown) ≤ SIZE_MAX ∧
      d.buf.length + need ≤ if 0 < d.maxSize ∧ d.maxSize < grown then d.maxSize else grown := by
    split
    · exact ⟨by omega, hroom (by omega)⟩
    · exact ⟨hsize, hge⟩
  generalize (if 0 < d.maxSize ∧ d.maxSize < grown then d.maxSize else grown) = cap at hcap ⊢
  split
  · exact .inr ⟨_, cap, rfl, hcap.1, hcap.2, hroom⟩
  · next hnot => exact .inl ⟨_, rfl, fun hw _ => hnot (hw.realloc s cap)⟩

theorem bufferRest_moves (hfits : d.Fits) (herr : d.error = false) :
    Moves e d data (bufferRest e s d data) := by
  unfold bufferRest
  obtain ⟨heq, hwrap⟩ | ⟨s', heq, hno⟩ | ⟨s', cap, heq, hsize, hcap, hmax⟩ :=
    drainEnsure_spec data.length e s hfits
  · rw [heq]
    exact .of_failed rfl hfits rfl (fun haddr =>
      absurd haddr (Nat.not_le.mpr hwrap)) List.nil_prefix
      fun _ hroom => absurd hroom.1 (by omega)
  · rw [heq]
    exact .of_failed rfl hfits.fail rfl (fun _ => rfl) List.nil_prefix hno
  · rw [heq]
    refine .of_ok (Int.le_refl 0) ⟨hsize, ?_, ?_⟩ rfl herr rfl
    · simpa using hcap
    · simpa using hmax

/-- The direct write, which starts with an empty buffer. -/
theorem directWrite_moves (hfits : d.Fits) (herr : d.error = false) (hbuf : d.buf = []) :
    Moves e d data (directWrite e s d data) := by
  unfold directWrite
  have hwriter (hw : e.Willing) := hw.writeFn s data
  revert hwriter
  obtain ⟨s', n⟩ := e.writeFn s data
  intro hwriter
  have hfail (hbad : n < 0 ∨ data.length < n.toNat) :
      Moves e d data { env := s', drain := d.fail, rc := -1, writes := [⟨data, n⟩] } := by
    refine .of_failed rfl hfits.fail rfl (fun _ => rfl) ?_ fun hw => ?_
    · simpa [DrainOut.taken, WriterCall.taken, hbuf] using List.take_prefix n.toNat data
    · have hgood : 0 ≤ n ∧ n.toNat ≤ data.length := hwriter hw
      omega
  simp only
  split
  · next hneg => exact hfail (.inl hneg)
  split
  · next hmore => exact hfail (.inr hmore)
  split
  · next hall =>
    refine .of_ok (Int.le_refl 0) hfits rfl herr ?_
    simp [DrainOut.taken, WriterCall.taken, hbuf, hall]
  · refine (bufferRest_moves hfits herr).after rfl ?_
    simp [WriterCall.taken, hbuf]

theorem drainPush_moves (fuel : Nat) (hfits : d.Fits) (herr : d.error = false) :
    Moves e d [] (drainPush e fuel s d) := by
  induction fuel generalizing s d with
  | zero => exact .of_ok (Int.le_refl 0) hfits rfl herr (by simp [drainPush, DrainOut.taken])
  | succ fuel ih =>
    unfold drainPush
    split
    · exact .of_ok (Int.le_refl 0) hfits rfl herr (by simp [DrainOut.taken])
    have hwriter (hw : e.Willing) := hw.writeFn s d.buf
    revert hwriter
    obtain ⟨s', n⟩ := e.writeFn s d.buf
    intro hwriter
    simp only
    obtain ⟨h, hbad⟩ | ⟨h, -⟩ | ⟨h, -⟩ := KlDrain.pushSent_cases d.toKlDrain n
    · rw [h]
      refine .of_failed rfl hfits.fail rfl (fun _ => rfl) ?_ fun hw => ?_
      · simpa [DrainOut.taken, WriterCall.taken] using List.take_prefix n.toNat d.buf
      · have hgood : 0 ≤ n ∧ n.toNat ≤ d.buf.length := hwriter hw
        omega
    · rw [h]
      refine .of_ok (Int.le_refl 0) (hfits.drop n.toNat) rfl herr ?_
      simp [DrainOut.taken, WriterCall.taken]
    · rw [h]
      refine (ih (hfits.drop n.toNat) herr).after rfl ?_
      simp [WriterCall.taken]

/-- The backlog goes out first. -/
theorem Moves.of_push {push : DrainOut σ} (hpush : Moves e d [] push) (hrc : push.rc < 0) :
    Moves e d data { push with rc := -1 } := by
  obtain ⟨-, hpre, herr⟩ := hpush.failed hrc
  have hle : d.buf.length + 0 ≤ d.buf.length + data.length :=
    Nat.add_le_add_left (Nat.zero_le _) _
  refine .of_failed rfl hpush.fits hpush.maxSize (fun haddr => herr (Nat.le_trans hle haddr))
    (hpre.trans ⟨data, by simp⟩) fun hw hroom => ?_
  exact absurd (hpush.willing hw (hroom.mono hle)) (Int.not_le.mpr hrc)

theorem drainWrite_moves (src : SrcBuf) (hfits : d.Fits) (herr : d.error = false)
    (hvalid : src.len ≠ 0 → src = .bytes src.data) :
    Moves e d src.data (drainWrite e s d src) := by
  unfold drainWrite
  rw [if_neg (by simp [herr])]
  split
  · next hlen =>
    refine .of_ok (Int.le_refl 0) hfits rfl herr ?_
    cases src <;> simp_all [DrainOut.taken, SrcBuf.len]
  rename_i hlen
  cases src with
  | null n => cases hvalid hlen
  | bytes data =>
    simp only
    split
    · next hbuf => exact directWrite_moves hfits herr hbuf
    have hpush := drainPush_moves (e := e) (s := s) d.buf.length hfits herr
    split
    · next hrc => exact hpush.of_push hrc
    next hrc =>
    obtain ⟨herr', heq⟩ := hpush.ok (Int.not_lt.mp hrc)
    have hall : (drainPush e d.buf.length s d).writes.flatMap WriterCall.taken ++
        ((drainPush e d.buf.length s d).drain.buf ++ data) = d.buf ++ data := by
      rw [← List.append_assoc]
      exact congrArg (· ++ data) (heq.trans (List.append_nil _))
    split
    · next hbuf => exact (directWrite_moves hpush.fits herr' hbuf).after hpush.maxSize hall
    · exact (bufferRest_moves hpush.fits herr').after hpush.maxSize hall

theorem drainFlush_moves (hfits : d.Fits) (herr : d.error = false) :
    Moves e d [] (drainFlush e s d) := by
  unfold drainFlush
  rw [if_neg (by simp [herr])]
  split
  · exact .of_ok (Int.le_refl 0) hfits rfl herr (by simp [DrainOut.taken])
  have hpush := drainPush_moves (e := e) (s := s) d.buf.length hfits herr
  simp only
  split
  · next hrc => exact hpush.of_push hrc
  next hrc =>
  obtain ⟨herr', heq⟩ := hpush.ok (Int.not_lt.mp hrc)
  refine .of_ok ?_ hpush.fits hpush.maxSize herr' heq
  simp only [drainNotify, KlDrain.flushResult]
  split
  · split <;> decide
  · split
    · exact Int.le_refl 0
    · exact Int.one_nonneg

end

end KlDrainQueue
