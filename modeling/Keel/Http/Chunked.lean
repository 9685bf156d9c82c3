-- SUMMARY: The chunked decoder (http1_chunked.c): cuts do not matter.
import Keel.Limits
import Mathlib.Data.List.TakeDrop
import Mathlib.Algebra.Ring.Nat
import Keel.Transducer.Residual

/-!
# The chunked decoder

`kl_http1_chunked_decode` is given the bytes of a body in pieces. Its loop hands a run of
chunk data to the body reader in one call, and looks one byte ahead at the CR that ends a
chunk. `automaton` is the same decoder taking one byte at a time, and `decode_spec` says
that a call of the loop does what the automaton does with the bytes of the piece, up to
the point where the reader refuses some of them.
-/

open List

def Chunked.cr : UInt8 := 0x0D
def Chunked.lf : UInt8 := 0x0A
def Chunked.semicolon : UInt8 := 0x3B

open Chunked

inductive KlHttp1ChunkedState where
  | size
  | ext
  | sizeCr
  | data
  | dataCr
  | trailer
  | trailerCr
  | done
  | error
deriving DecidableEq, Repr

/-- The defaults are those of `kl_http1_chunked_init`. -/
structure KlHttp1ChunkedDecoder where
  state : KlHttp1ChunkedState := .size
  chunkRemaining : Nat := 0
  totalBody : Nat := 0
  sizeAccum : Nat := 0
  sizeDigits : Nat := 0
  trailerCr : Bool := false
  metaLen : Nat := 0
deriving DecidableEq, Repr

namespace KlHttp1ChunkedDecoder

/-- `KL_HTTP1_CHUNK_EXT_MAX`. -/
def extMax : Nat := 4096

/-- `KL_HTTP1_CHUNK_TRAILER_MAX`. -/
def trailerMax : Nat := 8192

/-- `chunk_field_byte`. -/
def chunkFieldByte (ch : UInt8) : Bool := ch == 0x09 || (0x20 ≤ ch && ch != 0x7F)

/-- The value of a hex digit. -/
def hexDigit (ch : UInt8) : Option Nat :=
  if 0x30 ≤ ch ∧ ch ≤ 0x39 then some (ch.toNat - 0x30)
  else if 0x61 ≤ ch ∧ ch ≤ 0x66 then some (ch.toNat - 0x61 + 10)
  else if 0x41 ≤ ch ∧ ch ≤ 0x46 then some (ch.toNat - 0x41 + 10)
  else none

variable (dec : KlHttp1ChunkedDecoder)

def fail : KlHttp1ChunkedDecoder := { dec with state := .error }

/-! ## One byte in each state -/

def onSize (ch : UInt8) : KlHttp1ChunkedDecoder :=
  match hexDigit ch with
  | some digit =>
    if 16 ≤ dec.sizeDigits then dec.fail
    else if SIZE_MAX / 16 < dec.sizeAccum then dec.fail
    else { dec with sizeAccum := dec.sizeAccum * 16 + digit, sizeDigits := dec.sizeDigits + 1 }
  | none =>
    if ch = semicolon then
      if dec.sizeDigits = 0 then dec.fail else { dec with state := .ext, metaLen := 0 }
    else if ch = cr then
      if dec.sizeDigits = 0 then dec.fail else { dec with state := .sizeCr }
    else dec.fail

def onExt (ch : UInt8) : KlHttp1ChunkedDecoder :=
  if ch = cr then { dec with state := .sizeCr }
  else if !chunkFieldByte ch then dec.fail
  else
    let dec := { dec with metaLen := dec.metaLen + 1 }
    if extMax < dec.metaLen then dec.fail else dec

def onSizeCr (ch : UInt8) : KlHttp1ChunkedDecoder :=
  if ch ≠ lf then dec.fail
  else
    let dec := { dec with chunkRemaining := dec.sizeAccum, sizeAccum := 0, sizeDigits := 0 }
    if dec.chunkRemaining = 0 then { dec with state := .trailer, trailerCr := true, metaLen := 0 }
    else { dec with state := .data }

/-- `trailer_cr` says that the CR was the last byte of an earlier piece. -/
def onDataCr (ch : UInt8) : KlHttp1ChunkedDecoder :=
  if dec.trailerCr then
    if ch ≠ lf then dec.fail else { dec with trailerCr := false, state := .size }
  else if ch = cr then { dec with trailerCr := true }
  else dec.fail

/-- `trailer_cr` says that the line has no content yet. -/
def onTrailer (ch : UInt8) : KlHttp1ChunkedDecoder :=
  let dec := { dec with metaLen := dec.metaLen + 1 }
  if trailerMax < dec.metaLen then dec.fail
  else if ch = cr then { dec with state := .trailerCr }
  else if !chunkFieldByte ch then dec.fail
  else { dec with trailerCr := false }

def onTrailerCr (ch : UInt8) : KlHttp1ChunkedDecoder :=
  if ch ≠ lf then dec.fail
  else
    let dec := { dec with metaLen := dec.metaLen + 1 }
    if trailerMax < dec.metaLen then dec.fail
    else if dec.trailerCr then { dec with state := .done }
    else { dec with trailerCr := true, state := .trailer }

/-- DATA, after `forward` bytes were handed to the reader. -/
def forwarded (forward : Nat) : KlHttp1ChunkedDecoder :=
  let dec := { dec with
    totalBody := dec.totalBody + forward, chunkRemaining := dec.chunkRemaining - forward }
  if dec.chunkRemaining = 0 then { dec with state := .dataCr, trailerCr := false } else dec

/-! ## A call -/

variable {σ : Type} {dec : KlHttp1ChunkedDecoder}

/-- A body reader, whose `on_data` changes its side `σ` and says whether it took the
bytes. The decoder may be called without one. -/
abbrev Reader (σ : Type) := Option (σ → List UInt8 → σ × Bool)

/-- What a call returns, the decoder and the reader's side after it, and the bytes of
chunk data that were passed to `on_data`. -/
structure Decoded (σ : Type) where
  rc : Int
  dec : KlHttp1ChunkedDecoder
  reader : σ
  given : List UInt8

/-- The call had handed `front` to the reader before. -/
def Decoded.after (front : List UInt8) (out : Decoded σ) : Decoded σ :=
  { out with given := front ++ out.given }

/-- `reader->on_data`. -/
def handOver (reader : Reader σ) (s : σ) (run : List UInt8) : σ × Bool :=
  match reader with
  | some onData => if run = [] then (s, true) else onData s run
  | none => (s, true)

/-- The loop of `kl_http1_chunked_decode`. Each iteration takes a byte, but for one in
state DATA with nothing remaining, which leads to DATA_CR. -/
def decodeLoop (reader : Reader σ) : Nat → KlHttp1ChunkedDecoder → σ → List UInt8 → Decoded σ
  | _, dec, s, [] => ⟨if dec.state = .done then 1 else 0, dec, s, []⟩
  | 0, dec, s, _ :: _ => ⟨0, dec, s, []⟩
  | fuel + 1, dec, s, ch :: rest =>
    -- one byte was taken: go on, unless the case returned
    let next (dec : KlHttp1ChunkedDecoder) : Decoded σ :=
      if dec.state = .error then ⟨-1, dec, s, []⟩
      else if dec.state = .done then ⟨1, dec, s, []⟩
      else decodeLoop reader fuel dec s rest
    match dec.state with
    | .size => next (dec.onSize ch)
    | .ext => next (dec.onExt ch)
    | .sizeCr => next (dec.onSizeCr ch)
    | .data =>
      let forward := min (ch :: rest).length dec.chunkRemaining
      let run := (ch :: rest).take forward
      let (s, taken) := handOver reader s run
      if taken then
        (decodeLoop reader fuel (dec.forwarded forward) s ((ch :: rest).drop forward)).after run
      else ⟨-1, dec.fail, s, run⟩
    | .dataCr =>
      if dec.trailerCr then next (dec.onDataCr ch)
      else if ch = cr then
        match rest with
        | [] => decodeLoop reader fuel { dec with trailerCr := true } s []
        | ch' :: rest' =>
          if ch' ≠ lf then ⟨-1, dec.fail, s, []⟩
          else decodeLoop reader fuel { dec with state := .size } s rest'
      else ⟨-1, dec.fail, s, []⟩
    | .trailer => next (dec.onTrailer ch)
    | .trailerCr => next (dec.onTrailerCr ch)
    | .done => ⟨1, dec, s, []⟩
    | .error => ⟨-1, dec, s, []⟩

/-- `kl_http1_chunked_decode`. -/
def decode (reader : Reader σ) (dec : KlHttp1ChunkedDecoder) (s : σ) (data : List UInt8) :
    Decoded σ :=
  decodeLoop reader (2 * data.length + 1) dec s data

/-- Pieces fed in order, up to the first result other than 0. -/
def decodePieces (reader : Reader σ) (dec : KlHttp1ChunkedDecoder) (s : σ) :
    List (List UInt8) → Decoded σ
  | [] => ⟨0, dec, s, []⟩
  | piece :: pieces =>
    let out := decode reader dec s piece
    if out.rc ≠ 0 then out
    else (decodePieces reader out.dec out.reader pieces).after out.given

/-! ## The automaton -/

/-- One byte, when the reader takes everything. -/
def step (dec : KlHttp1ChunkedDecoder) (ch : UInt8) : KlHttp1ChunkedDecoder :=
  match dec.state with
  | .size => dec.onSize ch
  | .ext => dec.onExt ch
  | .sizeCr => dec.onSizeCr ch
  | .data =>
    if dec.chunkRemaining = 0 then onDataCr { dec with state := .dataCr, trailerCr := false } ch
    else dec.forwarded 1
  | .dataCr => dec.onDataCr ch
  | .trailer => dec.onTrailer ch
  | .trailerCr => dec.onTrailerCr ch
  | .done => dec
  | .error => dec

def out (dec : KlHttp1ChunkedDecoder) (ch : UInt8) : List UInt8 :=
  if dec.state = .data ∧ dec.chunkRemaining ≠ 0 then [ch] else []

def automaton : Transducer KlHttp1ChunkedDecoder UInt8 UInt8 where
  step := step
  out := out

@[simp] theorem automaton_step (dec : KlHttp1ChunkedDecoder) (ch : UInt8) :
    automaton.step dec ch = dec.step ch := rfl
@[simp] theorem automaton_out (dec : KlHttp1ChunkedDecoder) (ch : UInt8) :
    automaton.out dec ch = dec.out ch := rfl

theorem out_of_ne (h : dec.state ≠ .data) (ch : UInt8) : dec.out ch = [] := by
  simp [out, h]

theorem absorbing_done (h : dec.state = .done) : automaton.Absorbing dec := by
  intro ch
  simp [step, out, h]

theorem absorbing_error (h : dec.state = .error) : automaton.Absorbing dec := by
  intro ch
  simp [step, out, h]

/-- A run of chunk data is forwarded at once or byte by byte. -/
theorem automaton_data (run : List UInt8) (hs : dec.state = .data)
    (hle : run.length ≤ dec.chunkRemaining) (hne : run ≠ []) :
    automaton.run dec run = dec.forwarded run.length ∧ automaton.output dec run = run := by
  induction run generalizing dec with
  | nil => exact absurd rfl hne
  | cons ch run ih =>
    simp only [length_cons] at hle ⊢
    have hpos : dec.chunkRemaining ≠ 0 := by omega
    have hstep : dec.step ch = dec.forwarded 1 := by simp [step, hs, hpos]
    have hout : dec.out ch = [ch] := by simp [out, hs, hpos]
    rw [Transducer.run_cons, Transducer.output_cons, automaton_step, automaton_out, hstep, hout]
    cases run with
    | nil => exact ⟨rfl, rfl⟩
    | cons b run =>
      simp only [length_cons] at hle
      -- more data follows, so the first byte does not end the chunk
      have hmore : dec.chunkRemaining - 1 ≠ 0 := by omega
      have hone : dec.forwarded 1 =
          { dec with totalBody := dec.totalBody + 1,
                     chunkRemaining := dec.chunkRemaining - 1 } := by
        simp [forwarded, hmore]
      have hfits : (b :: run).length ≤ (dec.forwarded 1).chunkRemaining := by
        rw [hone]
        simp only [length_cons]
        omega
      obtain ⟨hrun, houtput⟩ := ih (by rw [hone]; exact hs) hfits (cons_ne_nil b run)
      rw [hrun, houtput, hone]
      refine ⟨?_, rfl⟩
      simp only [forwarded, length_cons, Nat.add_assoc, Nat.add_comm 1, Nat.sub_sub]

/-! ## The loop follows the automaton -/

/-- The result that belongs to a state. -/
def verdict (dec : KlHttp1ChunkedDecoder) : Int :=
  match dec.state with
  | .done => 1
  | .error => -1
  | _ => 0

theorem verdict_eq_one : dec.verdict = 1 ↔ dec.state = .done := by
  unfold verdict
  split <;> simp_all

theorem verdict_eq_neg_one : dec.verdict = -1 ↔ dec.state = .error := by
  unfold verdict
  split <;> simp_all

/-- The decoder without the field that nothing reads any more: after an error,
`trailer_cr` still says how the input was cut at the last CR. -/
def reachable (dec : KlHttp1ChunkedDecoder) : KlHttp1ChunkedDecoder :=
  if dec.state = .error then { dec with trailerCr := false } else dec

theorem reachable_of_ne (dec : KlHttp1ChunkedDecoder) (h : dec.state ≠ .error) :
    dec.reachable = dec := if_neg h

theorem reachable_state (dec : KlHttp1ChunkedDecoder) : dec.reachable.state = dec.state := by
  unfold reachable
  split <;> rfl

/-- What a call on `data` amounts to: the automaton, or the automaton on the bytes up to
the last ones that the reader was given and refused. -/
inductive Decodes (reader : Reader σ) (dec : KlHttp1ChunkedDecoder) (data : List UInt8)
    (out : Decoded σ) : Prop where
  | taken : out.rc = (automaton.run dec data).verdict →
      out.dec.reachable = (automaton.run dec data).reachable →
      out.given = automaton.output dec data → Decodes reader dec data out
  | refused {used : List UInt8} : (∃ s run, (handOver reader s run).2 = false) → used <+: data →
      out.rc = -1 → out.dec.state = .error → out.given = automaton.output dec used →
      Decodes reader dec data out

section

variable {reader : Reader σ} {data : List UInt8} {out : Decoded σ}

theorem Decodes.prepend {run : List UInt8} (h : Decodes reader (automaton.run dec run) data out) :
    Decodes reader dec (run ++ data) (out.after (automaton.output dec run)) := by
  cases h with
  | taken hrc hdec hgiven =>
    refine .taken ?_ ?_ ?_
    · rw [Transducer.run_append]
      exact hrc
    · rw [Transducer.run_append]
      exact hdec
    · rw [Transducer.output_append, ← hgiven]
      rfl
  | @refused used hr hpre hrc hdec hgiven =>
    refine .refused hr ((prefix_append_right_inj run).mpr hpre) hrc hdec ?_
    rw [Transducer.output_append, ← hgiven]
    rfl

/-- The same, for a run that hands nothing to the reader. -/
theorem Decodes.prepend_silent (run : List UInt8)
    (h : Decodes reader (automaton.run dec run) data out) (hout : automaton.output dec run = []) :
    Decodes reader dec (run ++ data) out := by
  have := h.prepend
  rwa [hout] at this

variable {d : KlHttp1ChunkedDecoder}

/-- A call that ends in an error of the input. -/
theorem Decodes.failed (run : List UInt8) {s : σ} (he : (automaton.run dec run).state = .error)
    (hd : d.reachable = (automaton.run dec run).reachable) (hout : automaton.output dec run = []) :
    Decodes reader dec (run ++ data) ⟨-1, d, s, []⟩ := by
  have hrun : automaton.run dec (run ++ data) = automaton.run dec run := by
    rw [Transducer.run_append, (absorbing_error he).run]
  refine .taken ?_ ?_ ?_
  · rw [hrun, verdict, he]
  · rw [hrun]
    exact hd
  · rw [Transducer.output_append, hout, (absorbing_error he).output]
    rfl

/-- What follows a case that takes one byte. -/
theorem Decodes.next {ch : UInt8} {rest : List UInt8} {s : σ}
    (hd : d = dec.step ch) (hs : dec.state ≠ .data)
    (h : d.state ≠ .error → Decodes reader d rest out) : Decodes reader dec (ch :: rest)
      (if d.state = .error then ⟨-1, d, s, []⟩
        else if d.state = .done then ⟨1, d, s, []⟩ else out) := by
  have hone : automaton.run dec [ch] = d := hd.symm
  have hsilent : automaton.output dec [ch] = [] := by simp [out_of_ne hs]
  split_ifs
  · next he => exact .failed [ch] (hone ▸ he) (by rw [hone]) hsilent
  · next hdone =>
    have habs := absorbing_done hdone
    have hrun : automaton.run dec (ch :: rest) = d := by
      rw [Transducer.run_cons, automaton_step, ← hd, habs.run]
    refine .taken ?_ ?_ ?_
    · rw [hrun, verdict, hdone]
    · rw [hrun]
    · rw [Transducer.output_cons, automaton_step, automaton_out, ← hd, habs.output, out_of_ne hs]
      rfl
  · next he _ => exact Decodes.prepend_silent [ch] (hone ▸ h he) hsilent

/-- The iterations that the loop may still need. -/
def need (dec : KlHttp1ChunkedDecoder) (data : List UInt8) : Nat :=
  2 * data.length + if dec.state = .data then 1 else 0

theorem need_le (dec : KlHttp1ChunkedDecoder) (data : List UInt8) :
    dec.need data ≤ 2 * data.length + 1 := by
  simp only [need]
  split <;> omega

variable {ch : UInt8} {rest : List UInt8} {fuel : Nat} {s : σ}

/-- DATA_CR: the CR is the last byte of the piece, or the LF is in hand as well. -/
theorem decodes_dataCr (hs : dec.state = .dataCr) (hle : 2 * rest.length + 1 ≤ fuel)
    (ih : ∀ (d : KlHttp1ChunkedDecoder) (s : σ) (data : List UInt8), d.need data ≤ fuel →
      d.state ≠ .error → Decodes reader d data (decodeLoop reader fuel d s data)) :
    Decodes reader dec (ch :: rest) (decodeLoop reader (fuel + 1) dec s (ch :: rest)) := by
  have hne : dec.state ≠ .data := by simp [hs]
  have hsilent : dec.out ch = [] := out_of_ne hne ch
  simp only [decodeLoop, hs]
  cases hcr : dec.trailerCr with
  | true =>
    exact .next (by simp [step, hs]) hne (ih _ _ _ (Nat.le_trans (need_le _ _) hle))
  | false =>
    simp only [Bool.false_eq_true, if_false]
    split
    · next hch =>
      have hone : automaton.run dec [ch] = { dec with trailerCr := true } := by
        simp [step, hs, onDataCr, hcr, hch]
      cases rest with
      | nil =>
        have hrest := ih (automaton.run dec [ch]) s [] (by simp [need, hone, hs])
          (by simp [hone, hs])
        exact Decodes.prepend_silent [ch] (by simpa [decodeLoop, hone, hs] using hrest)
          (by simp [hsilent])
      | cons b rest =>
        have hsilent2 : automaton.output dec [ch, b] = [] := by
          have hmid : (dec.step ch).state ≠ .data := by
            have : dec.step ch = { dec with trailerCr := true } := hone
            simp [this, hs]
          simp [hsilent, out_of_ne hmid]
        have htwo : automaton.run dec [ch, b] = onDataCr { dec with trailerCr := true } b := by
          rw [show [ch, b] = [ch] ++ [b] from rfl, Transducer.run_append, hone]
          simp [step, hs]
        simp only
        split
        · next hlf =>
          -- the CR was not recorded: the two decoders differ in `trailer_cr` only
          refine Decodes.failed [ch, b] ?_ ?_ hsilent2
          · simp [htwo, onDataCr, hlf, fail]
          · rw [htwo]
            simp [onDataCr, hlf, fail, reachable]
        rename_i hlf
        have hlf : b = lf := not_not.mp hlf
        have hsize : automaton.run dec [ch, b] =
            { dec with state := .size, trailerCr := false } := by
          rw [htwo]
          simp [onDataCr, hlf]
        have hle' : 2 * rest.length + 1 ≤ fuel := by
          simp only [length_cons] at hle
          omega
        have hrest := ih (automaton.run dec [ch, b]) s rest (Nat.le_trans (need_le _ _) hle')
          (by simp [hsize])
        exact Decodes.prepend_silent [ch, b] (hsize ▸ hrest) hsilent2
    · next hch =>
      refine Decodes.failed [ch] ?_ ?_ (by simp [hsilent])
      · simp [step, hs, onDataCr, hcr, hch, fail]
      · simp [step, hs, onDataCr, hcr, hch]

/-- DATA: a run of bytes goes to the reader. -/
theorem decodes_data (hs : dec.state = .data) (hlen : 2 * (ch :: rest).length ≤ fuel)
    (ih : ∀ (d : KlHttp1ChunkedDecoder) (s : σ) (data : List UInt8), d.need data ≤ fuel →
      d.state ≠ .error → Decodes reader d data (decodeLoop reader fuel d s data)) :
    Decodes reader dec (ch :: rest) (decodeLoop reader (fuel + 1) dec s (ch :: rest)) := by
  simp only [decodeLoop, hs]
  by_cases hrem : dec.chunkRemaining = 0
  · -- nothing is left of the chunk: no byte is taken
    have hfwd : dec.forwarded 0 = { dec with state := .dataCr, trailerCr := false } := by
      simp [forwarded, hrem]
    have hgo : Decodes reader (dec.forwarded 0) (ch :: rest)
        (decodeLoop reader fuel (dec.forwarded 0) s (ch :: rest)) :=
      ih _ _ _ (by simpa [need, hfwd] using hlen) (by simp [hfwd])
    have hhand : handOver reader s [] = (s, true) := by
      cases reader <;> simp [handOver]
    simp only [hrem, Nat.min_zero, take_zero, drop_zero, hhand, if_true]
    have hrun : ∀ data, data ≠ [] → automaton.run (dec.forwarded 0) data = automaton.run dec data ∧
        automaton.output (dec.forwarded 0) data = automaton.output dec data := by
      intro data hdata
      cases data with
      | nil => exact absurd rfl hdata
      | cons b data => simp [step, out, hfwd, hs, hrem]
    obtain ⟨hr, ho⟩ := hrun (ch :: rest) (cons_ne_nil _ _)
    cases hgo with
    | taken hrc hdec hgiven =>
      exact .taken (hr ▸ hrc) (hr ▸ hdec) (ho ▸ hgiven)
    | @refused used hex hpre hrc hdec hgiven =>
      refine .refused hex hpre hrc hdec (hgiven.trans ?_)
      by_cases hused : used = []
      · rw [hused, Transducer.output_nil, Transducer.output_nil]
      · exact (hrun used hused).2
  generalize hfwd : min (ch :: rest).length dec.chunkRemaining = forward
  have hpos : 0 < forward := by
    simp only [length_cons] at hfwd
    omega
  have hlenrun : ((ch :: rest).take forward).length = forward := by
    rw [length_take]
    omega
  have hne : (ch :: rest).take forward ≠ [] := by
    rw [← length_pos_iff]
    omega
  obtain ⟨hrun, hout⟩ := automaton_data ((ch :: rest).take forward) hs (by omega) hne
  rw [hlenrun] at hrun
  have hcut : (ch :: rest).take forward ++ (ch :: rest).drop forward = ch :: rest :=
    take_append_drop forward (ch :: rest)
  cases hhand : handOver reader s ((ch :: rest).take forward) with
  | mk s' took =>
    cases took with
    | true =>
      have hlive : (dec.forwarded forward).state ≠ .error := by
        simp only [forwarded]
        split <;> simp [hs]
      have hdrop : ((ch :: rest).drop forward).length = (ch :: rest).length - forward := by simp
      have hrest := ih (dec.forwarded forward) s' ((ch :: rest).drop forward)
        (Nat.le_trans (need_le _ _) (by omega)) hlive
      rw [← hrun] at hrest
      have h := hrest.prepend
      rw [hcut, hout, hrun] at h
      exact h
    | false =>
      exact .refused ⟨s, _, by rw [hhand]⟩ (List.take_prefix forward (ch :: rest)) rfl rfl
        hout.symm

theorem decodeLoop_spec (hn : dec.need data ≤ fuel) (hlive : dec.state ≠ .error) :
    Decodes reader dec data (decodeLoop reader fuel dec s data) := by
  induction fuel generalizing dec s data with
  | zero =>
    have hnil : data = [] := by
      simp only [need] at hn
      exact eq_nil_of_length_eq_zero (by omega)
    subst hnil
    simp only [decodeLoop]
    refine .taken ?_ rfl rfl
    simp only [Transducer.run_nil, verdict]
    split <;> simp_all
  | succ fuel ih =>
    cases data with
    | nil =>
      simp only [decodeLoop]
      refine .taken ?_ rfl rfl
      simp only [Transducer.run_nil, verdict]
      split <;> simp_all
    | cons ch rest =>
      have hle : 2 * rest.length + 1 ≤ fuel := by
        simp only [need, length_cons] at hn
        omega
      -- a state whose case takes one byte
      have hnext (d : KlHttp1ChunkedDecoder) (hd : d = dec.step ch) (hs : dec.state ≠ .data) :
          Decodes reader dec (ch :: rest)
            (if d.state = .error then ⟨-1, d, s, []⟩
              else if d.state = .done then ⟨1, d, s, []⟩
              else decodeLoop reader fuel d s rest) :=
        .next hd hs (ih (Nat.le_trans (need_le _ _) hle))
      cases hs : dec.state with
      | data =>
        refine decodes_data hs ?_ fun d s data h hl => ih h hl
        simp only [need, hs, if_true] at hn
        omega
      | dataCr => exact decodes_dataCr hs hle fun d s data h hl => ih h hl
      | done =>
        simp only [decodeLoop, hs]
        have hrun : automaton.run dec (ch :: rest) = dec := (absorbing_done hs).run _
        refine .taken ?_ ?_ ?_
        · rw [hrun, verdict, hs]
        · rw [hrun]
        · exact ((absorbing_done hs).output _).symm
      | error => exact absurd hs hlive
      | size =>
        simpa only [decodeLoop, hs] using hnext (dec.onSize ch) (by simp [step, hs]) (by simp [hs])
      | ext =>
        simpa only [decodeLoop, hs] using hnext (dec.onExt ch) (by simp [step, hs]) (by simp [hs])
      | sizeCr =>
        simpa only [decodeLoop, hs] using hnext (dec.onSizeCr ch) (by simp [step, hs])
          (by simp [hs])
      | trailer =>
        simpa only [decodeLoop, hs] using hnext (dec.onTrailer ch) (by simp [step, hs])
          (by simp [hs])
      | trailerCr =>
        simpa only [decodeLoop, hs] using
          hnext (dec.onTrailerCr ch) (by simp [step, hs]) (by simp [hs])

/-- A call does what the automaton does, until the reader refuses. -/
theorem decode_spec (hlive : dec.state ≠ .error) :
    Decodes reader dec data (decode reader dec s data) :=
  decodeLoop_spec (need_le dec data) hlive

/-! ## Pieces -/

variable (f : σ → List UInt8 → σ)

/-- A reader that never refuses. -/
def Reader.accepting : Reader σ := some fun s run => (f s run, true)

theorem handOver_accepting (s : σ) (run : List UInt8) :
    (handOver (.accepting f) s run).2 = true := by
  simp only [handOver, Reader.accepting]
  split <;> rfl

/-- The outcome of feeding `data` as the automaton has it. -/
structure Follows (dec : KlHttp1ChunkedDecoder) (data : List UInt8) (out : Decoded σ) : Prop where
  rc : out.rc = (automaton.run dec data).verdict
  state : out.dec.reachable = (automaton.run dec data).reachable
  given : out.given = automaton.output dec data

theorem decode_accepting (s : σ) (data : List UInt8)
    (hlive : dec.state ≠ .error) :
    Follows dec data (decode (.accepting f) dec s data) := by
  have hspec : Decodes (.accepting f) dec data (decode (.accepting f) dec s data) :=
    decode_spec hlive
  cases hspec with
  | taken hrc hdec hgiven => exact ⟨hrc, hdec, hgiven⟩
  | refused hr =>
    obtain ⟨s, run, hrun⟩ := hr
    rw [handOver_accepting] at hrun
    cases hrun

theorem live_of_verdict (h : dec.verdict = 0) : dec.state ≠ .error := by
  intro he
  simp [verdict, he] at h

/-- A decoder that gave a verdict takes no more bytes. -/
theorem absorbing_of_verdict (h : dec.verdict ≠ 0) : automaton.Absorbing dec := by
  unfold verdict at h
  split at h
  · exact absorbing_done ‹_›
  · exact absorbing_error ‹_›
  · exact absurd rfl h

theorem Follows.dec_eq (h : Follows dec data out) (hv : (automaton.run dec data).verdict = 0) :
    out.dec = automaton.run dec data := by
  have hlive := live_of_verdict hv
  have hsame : out.dec.state = (automaton.run dec data).state := by
    rw [← reachable_state, h.state, reachable_state]
  rw [← reachable_of_ne out.dec (hsame ▸ hlive), h.state, reachable_of_ne _ hlive]

theorem decodePieces_accepting (s : σ) (hdec : dec.verdict = 0)
    (pieces : List (List UInt8)) :
    Follows dec pieces.flatten (decodePieces (.accepting f) dec s pieces) := by
  induction pieces generalizing dec s with
  | nil => exact ⟨hdec.symm, rfl, rfl⟩
  | cons piece pieces ih =>
    have hone := decode_accepting f s piece (live_of_verdict hdec)
    simp only [decodePieces, flatten_cons]
    split
    · next hrc =>
      -- the decoder ended in this piece: what follows changes nothing
      have habs := absorbing_of_verdict (hone.rc ▸ hrc)
      have hrun : automaton.run dec (piece ++ pieces.flatten) = automaton.run dec piece := by
        rw [Transducer.run_append, habs.run]
      refine ⟨hrun ▸ hone.rc, hrun ▸ hone.state, ?_⟩
      rw [Transducer.output_append, habs.output, append_nil]
      exact hone.given
    rename_i hrc
    have hv : (automaton.run dec piece).verdict = 0 := hone.rc ▸ not_not.mp hrc
    rw [hone.dec_eq hv]
    have hrest := ih (decode (.accepting f) dec s piece).reader hv
    refine ⟨?_, ?_, ?_⟩
    · rw [Transducer.run_append]
      exact hrest.rc
    · rw [Transducer.run_append]
      exact hrest.state
    · rw [Transducer.output_append, ← hone.given, ← hrest.given]
      rfl

/-- Feeding a byte string in pieces gives the result, the decoder and the body bytes that
feeding it in one call gives. -/
theorem decode_cut_independent (f : σ → List UInt8 → σ) (s : σ) (hdec : dec.verdict = 0)
    (pieces : List (List UInt8)) :
    let cut := decodePieces (.accepting f) dec s pieces
    let whole := decode (.accepting f) dec s pieces.flatten
    cut.rc = whole.rc ∧ cut.dec.reachable = whole.dec.reachable ∧ cut.given = whole.given := by
  have hcut := decodePieces_accepting f s hdec pieces
  have hwhole := decode_accepting f s pieces.flatten (live_of_verdict hdec)
  exact ⟨hcut.rc.trans hwhole.rc.symm, hcut.state.trans hwhole.state.symm,
    hcut.given.trans hwhole.given.symm⟩

/-- A chunk of one byte, cut before the byte and between the CR and the LF after it. -/
theorem decode_cut_independent_crlf : let pieces : List (List UInt8) :=
      [[0x31, cr, lf], [0x61, cr], [lf, 0x30, cr, lf, cr, lf]]
    let cut := decodePieces (.accepting fun n run => n + run.length) {} 0 pieces
    let whole := decode (.accepting fun n run => n + run.length) {} 0 pieces.flatten
    (cut.rc = 1 ∧ cut.given = [0x61]) ∧
      cut.rc = whole.rc ∧ cut.dec.reachable = whole.dec.reachable ∧ cut.given = whole.given :=
  ⟨by decide, decode_cut_independent _ _ rfl _⟩

/-! ## After an error -/

theorem decode_of_error (he : dec.state = .error) (reader : Reader σ) (s : σ) (data : List UInt8) :
    decode reader dec s data = ⟨if data = [] then 0 else -1, dec, s, []⟩ := by
  cases data with
  | nil => simp [decode, decodeLoop, he]
  | cons ch rest => simp [decode, decodeLoop, he]

theorem error_of_rc (h : (decode reader dec s data).rc = -1) :
    (decode reader dec s data).dec.state = .error := by
  by_cases he : dec.state = .error
  · rw [decode_of_error he]
    exact he
  have hspec : Decodes reader dec data (decode reader dec s data) := decode_spec he
  cases hspec with
  | taken hrc hdec =>
    rw [← reachable_state, hdec, reachable_state]
    exact verdict_eq_neg_one.mp (hrc.symm.trans h)
  | refused _ _ _ hstate => exact hstate

/-- Calls on one decoder, each with a reader of its own. -/
def decodeCalls (dec : KlHttp1ChunkedDecoder) (s : σ) :
    List (Reader σ × List UInt8) → List (Decoded σ)
  | [] => []
  | (reader, data) :: calls =>
    let out := decode reader dec s data
    out :: decodeCalls out.dec out.reader calls

/-- Once a call has returned -1, every later call with bytes returns -1, and no call hands a
byte to its reader. A call without bytes returns 0. -/
theorem decode_error_sticky (reader : Reader σ) (dec : KlHttp1ChunkedDecoder) (s : σ)
    (data : List UInt8) (h : (decode reader dec s data).rc = -1)
    (calls : List (Reader σ × List UInt8)) : let out := decode reader dec s data
    decodeCalls out.dec out.reader calls =
      calls.map fun call => ⟨if call.2 = [] then 0 else -1, out.dec, out.reader, []⟩ := by
  intro out
  have he : out.dec.state = .error := error_of_rc h
  clear_value out
  induction calls with
  | nil => rfl
  | cons call calls ih =>
    rw [decodeCalls, decode_of_error he, map_cons]
    exact congrArg _ ih

/-- The reader refuses the first byte of a chunk. -/
theorem decode_error_sticky_refused : let refuse : Reader Nat := some fun n _ => (n + 1, false)
    let out := decode refuse {} 0 [0x31, cr, lf, 0x61]
    (out.rc = -1 ∧ out.reader = 1) ∧ decodeCalls out.dec out.reader [(refuse, [0x62]), (none, [])] =
        [⟨-1, out.dec, 1, []⟩, ⟨0, out.dec, 1, []⟩] :=
  ⟨by decide, decode_error_sticky _ _ _ _ (by decide) _⟩

/-- A call without bytes after an error says that more data is needed. -/
theorem decode_error_forgotten : let out := decode (σ := Unit) none {} () [0x78]
    out.rc = -1 ∧ (decode none out.dec out.reader []).rc = 0 := by
  decide

/-! ## What a reader can be given -/

theorem output_sublist (data : List UInt8) : automaton.output dec data <+ data := by
  induction data generalizing dec with
  | nil => exact .slnil
  | cons ch data ih =>
    rw [Transducer.output_cons, automaton_out, out]
    split
    · exact ih.cons_cons ch
    · exact ih.cons ch

theorem given_sublist (reader : Reader σ) (s : σ) (data : List UInt8) :
    (decode reader dec s data).given <+ data := by
  by_cases he : dec.state = .error
  · rw [decode_of_error he]
    exact nil_sublist data
  have hspec : Decodes reader dec data (decode reader dec s data) := decode_spec he
  cases hspec with
  | taken _ _ hgiven => exact hgiven ▸ output_sublist data
  | refused _ hused _ _ hgiven => exact hgiven ▸ (output_sublist _).trans hused.sublist

/-- Whatever its state, its input and its readers' answers, the decoder gives them bytes of the
input in their order: none is invented, repeated or moved. -/
theorem decodeCalls_sublist (dec : KlHttp1ChunkedDecoder) (s : σ)
    (calls : List (Reader σ × List UInt8)) :
    (decodeCalls dec s calls).flatMap (·.given) <+ calls.flatMap (·.2) := by
  induction calls generalizing dec s with
  | nil => exact .slnil
  | cons call calls ih =>
    rw [decodeCalls, flatMap_cons, flatMap_cons]
    exact (given_sublist call.1 s call.2).append (ih _ _)

end

end KlHttp1ChunkedDecoder
