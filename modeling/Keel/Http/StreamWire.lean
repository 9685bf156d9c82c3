-- SUMMARY: What the calls of a streamed response put on the wire.
import Keel.Http.ResponseStream

/-!
# The wire of a streamed response

Each writing function of the response is given bytes and returns 0 with those bytes on the
wire, or in the drain behind what was there. The statements compose: a call of the response
adds one chunk, or the terminator, or nothing.
-/

open Message List Option

/-- The bytes that calls of the transport put on the wire. -/
def wire (ws : List WriterCall) : List UInt8 := ws.flatMap WriterCall.taken

@[simp] theorem wire_nil : wire [] = [] := rfl
@[simp] theorem wire_append (ws ws' : List WriterCall) : wire (ws ++ ws') = wire ws ++ wire ws' :=
  flatMap_append
@[simp] theorem wire_cons (w : WriterCall) (ws : List WriterCall) :
    wire (w :: ws) = w.taken ++ wire ws := rfl

/-- The transport never reports more than it was offered. -/
structure Transport.Honest {σ : Type} (t : Transport σ) : Prop where
  send : ∀ s data s' n, t.send s data = (s', .wrote n) → n ≤ data.length
  writev : ∀ s segs s' n, t.writev s segs = (s', .wrote n) → n ≤ segs.flatten.length
  tlsWrite : ∀ s data, (t.tlsWrite s data).2 ≤ data.length

namespace KlHttpResponse

variable {σ : Type} {t : Transport σ} {bytes : List UInt8} {s : σ} {ws : List WriterCall}
  {out : Sent σ} {fuel : Nat} {segs : List (List UInt8)} {r : IoResult} {spins : Nat}
  {tls failed room : Bool} {drain : KlDrainQueue} {writes : List WriterCall} {sent : Sent σ}
  {status : Int}

/-- A write that took nothing leaves nothing on the wire. -/
theorem wire_report (bytes : List UInt8) (h : ∀ n, r ≠ .wrote n) :
    wire [⟨bytes, r.report⟩] = [] := by
  cases r with
  | wrote n => exact absurd rfl (h n)
  | _ => rfl

/-- A write leaves what it took. -/
theorem wire_wrote (bytes : List UInt8) (n : Nat) : wire [⟨bytes, n⟩] = bytes.take n := by
  simp [WriterCall.taken]

/-! ## One attempt -/

/-- What an attempt on `bytes` put on the wire, when `total` bytes before them are part of
its result. -/
structure Moved (total : Nat) (bytes : List UInt8) (p : σ × IoResult × List WriterCall) : Prop where
  wrote : ∀ n, p.2.1 = .wrote n → ∃ k, n = total + k ∧ k ≤ bytes.length ∧ wire p.2.2 = bytes.take k
  other : (∀ n, p.2.1 ≠ .wrote n) → total = 0 ∧ wire p.2.2 = []

theorem Moved.of_wrote {total : Nat} {p : σ × IoResult × List WriterCall} (k : Nat)
    (hr : p.2.1 = .wrote (total + k)) (hk : k ≤ bytes.length) (hw : wire p.2.2 = bytes.take k) :
    Moved total bytes p :=
  ⟨fun _ hn => ⟨k, IoResult.wrote.inj (hn.symm.trans hr), hk, hw⟩, fun h => absurd hr (h _)⟩

theorem Moved.of_other (hr : ∀ n, r ≠ .wrote n) (hw : wire ws = []) : Moved 0 bytes (s, r, ws) :=
  ⟨fun n hn => absurd hn (hr n), fun _ => ⟨rfl, hw⟩⟩

/-- One send after the other moves the front of the segments. -/
theorem sendSegments_moved (ht : t.Honest) (fuel : Nat) (s : σ) (total : Nat)
    (segs : List (List UInt8)) : Moved total segs.flatten (sendSegments t fuel s total segs) := by
  induction fuel generalizing s total segs with
  | zero => exact .of_wrote 0 rfl (Nat.zero_le _) rfl
  | succ fuel ih =>
    cases segs with
    | nil => exact .of_wrote 0 rfl (Nat.zero_le _) rfl
    | cons seg segs =>
      rw [sendSegments]
      split
      · next hseg =>
        rw [hseg, flatten_cons, nil_append]
        exact ih s total segs
      cases hsend : t.send s seg with
      | mk s' r =>
        cases r with
        | wrote n =>
          simp only
          split
          · exact .of_wrote 0 rfl (Nat.zero_le _) rfl
          rename_i hn
          have hle := ht.send s seg s' n hsend
          have hrest := ih s' (total + n) (seg.drop n :: segs)
          -- bytes have moved, so a later failure is not reported
          refine ⟨fun m hm => ?_, fun h => absurd (hrest.other h).1 (by omega)⟩
          obtain ⟨k, rfl, hk, hw⟩ := hrest.wrote m hm
          refine ⟨n + k, Nat.add_assoc _ _ _, ?_, ?_⟩
          · simp only [flatten_cons, length_append, length_drop] at hk ⊢
            omega
          · rw [wire_cons, hw, flatten_cons, flatten_cons, take_add,
              take_append_of_le_length hle, drop_append_of_le_length hle]
            simp [WriterCall.taken]
        | _ =>
          simp only
          have hsilent : wire [⟨seg, -1⟩] = [] := rfl
          split
          · exact .of_wrote 0 rfl (Nat.zero_le _) hsilent
          · next hzero =>
            obtain rfl : total = 0 := by omega
            exact .of_other (by simp) hsilent

/-- A call of the transport puts on the wire what it reports. -/
theorem seamWritev_moved (ht : t.Honest) (s : σ) (segs : List (List UInt8)) :
    Moved 0 segs.flatten (seamWritev t s segs) := by
  unfold seamWritev
  split
  · cases hw : t.writev s segs with
    | mk s' r =>
      cases r with
      | wrote n =>
        exact .of_wrote n (congrArg IoResult.wrote (Nat.zero_add n).symm) (ht.writev s segs s' n hw)
          (wire_wrote _ n)
      | _ => exact .of_other (by simp) (wire_report _ (by simp))
  · exact sendSegments_moved ht _ s 0 segs

/-- What is left of the segments when `n` bytes are gone. -/
theorem advance_flatten (n : Nat) (segs : List (List UInt8)) :
    (advance n segs).flatten = segs.flatten.drop n := by
  induction segs generalizing n with
  | nil => simp [advance]
  | cons seg segs ih =>
    unfold advance
    split
    · next hle => rw [ih, flatten_cons, drop_append, drop_eq_nil_of_le hle, nil_append]
    next hlt =>
    split
    · rw [flatten_cons, flatten_cons, drop_append_of_le_length (Nat.le_of_not_le hlt)]
    · next hzero =>
      obtain rfl : n = 0 := by omega
      rfl

/-! ## Writing until everything is out -/

/-- The loop returned 0 only with everything on the wire. -/
def Delivers (bytes : List UInt8) (out : Sent σ) : Prop := 0 ≤ out.rc → wire out.writes = bytes

/-- What was on the wire already goes in front. -/
theorem Delivers.after {rest : List UInt8}
    (h : Delivers rest out) (heq : wire ws ++ rest = bytes) : Delivers bytes (out.after ws) := by
  intro hrc
  rw [Sent.after, wire_append, h hrc, heq]

theorem delivers_failed : Delivers bytes { env := s, rc := -1, writes := ws } :=
  fun h => absurd h (by decide : ¬ (0 : Int) ≤ -1)

/-- The loop over a plain socket delivers all bytes or fails. -/
theorem spinPlain_delivers (ht : t.Honest)
    (h : spinPlain t fuel s spins segs = some out) : Delivers segs.flatten out := by
  induction fuel generalizing s spins segs out with
  | zero =>
    cases segs with
    | nil =>
      obtain rfl := some.inj h
      exact fun _ => rfl
    | cons seg segs => cases h
  | succ fuel ih =>
    cases segs with
    | nil =>
      obtain rfl := some.inj h
      exact fun _ => rfl
    | cons seg segs =>
      simp only [spinPlain] at h
      have hmoved := seamWritev_moved ht s (seg :: segs)
      revert h hmoved
      cases seamWritev t s (seg :: segs) with
      | mk s' rest =>
        obtain ⟨r, ws⟩ := rest
        intro h hmoved
        cases r with
        | wrote n =>
          obtain ⟨out', hout, rfl⟩ := map_eq_some_iff.mp h
          obtain ⟨k, rfl, hk, hw⟩ := hmoved.wrote n rfl
          refine (ih hout).after ?_
          rw [hw, advance_flatten, Nat.zero_add, take_append_drop]
        | interrupted =>
          obtain ⟨out', hout, rfl⟩ := map_eq_some_iff.mp h
          refine (ih hout).after ?_
          rw [(hmoved.other (by simp)).2, nil_append]
        | wouldBlock =>
          simp only at h
          split at h
          · obtain rfl := some.inj h
            exact delivers_failed
          · obtain ⟨out', hout, rfl⟩ := map_eq_some_iff.mp h
            refine (ih hout).after ?_
            rw [(hmoved.other (by simp)).2, nil_append]
        | failed =>
          obtain rfl := some.inj h
          exact delivers_failed

theorem spinTls_delivers (ht : t.Honest)
    (h : spinTls t fuel s spins segs = some out) : Delivers segs.flatten out := by
  induction fuel generalizing s spins segs out with
  | zero =>
    cases segs with
    | nil =>
      obtain rfl := some.inj h
      exact fun _ => rfl
    | cons seg segs => cases h
  | succ fuel ih =>
    cases segs with
    | nil =>
      obtain rfl := some.inj h
      exact fun _ => rfl
    | cons seg segs =>
      rw [spinTls] at h
      split at h
      · next hseg =>
        rw [hseg, flatten_cons, nil_append]
        exact ih h
      have hle := ht.tlsWrite s seg
      revert h hle
      cases t.tlsWrite s seg with
      | mk s' n =>
        intro h hle
        simp only at h hle
        split at h
        · obtain rfl := some.inj h
          exact delivers_failed
        split at h
        · next hn =>
          split at h
          · obtain rfl := some.inj h
            exact delivers_failed
          obtain ⟨out', hout, rfl⟩ := map_eq_some_iff.mp h
          refine (ih hout).after ?_
          rw [hn]
          rfl
        · obtain ⟨out', hout, rfl⟩ := map_eq_some_iff.mp h
          refine (ih hout).after ?_
          simp only [wire_cons, wire_nil, WriterCall.taken, append_nil, flatten_cons]
          rw [← append_assoc, take_append_drop]

/-- One group of segments is delivered whole or the write fails. -/
theorem streamWritevAll_delivers (ht : t.Honest)
    (h : streamWritevAll t tls fuel s segs = some out) : Delivers segs.flatten out := by
  unfold streamWritevAll at h
  split at h
  · exact spinTls_delivers ht h
  · exact spinPlain_delivers ht h

/-- A list of segments of any length is delivered group by group. -/
theorem writevGroups_delivers (ht : t.Honest) {k : Nat} (hk : segs.length ≤ k)
    (h : writevGroups t tls fuel k s segs = some out) : Delivers segs.flatten out := by
  induction k generalizing s segs out with
  | zero =>
    obtain rfl := eq_nil_of_length_eq_zero (Nat.le_zero.mp hk)
    obtain rfl := some.inj h
    exact fun _ => rfl
  | succ k ih =>
    rw [writevGroups] at h
    split at h
    · next hnil =>
      obtain rfl := some.inj h
      rw [hnil]
      exact fun _ => rfl
    obtain ⟨first, hfirst, hrest⟩ := bind_eq_some_iff.mp h
    have hfront := streamWritevAll_delivers ht hfirst
    split at hrest
    · next hrc =>
      obtain rfl := some.inj hrest
      exact fun h => absurd h (Int.not_le.mpr hrc)
    · next hrc =>
      obtain ⟨out', hout, rfl⟩ := map_eq_some_iff.mp hrest
      have hlen : (segs.drop sockIovMax).length ≤ k := by
        rw [length_drop, sockIovMax]
        omega
      refine (ih hlen hout).after ?_
      rw [hfront (Int.not_lt.mp hrc), ← flatten_append, take_append_drop]

/-! ## Through the drain -/

/-- No write has failed, and what has left the coalescing buffer is on the wire or in the
drain, in order. -/
structure Coalesce.Holds (maxSize : Nat) (bytes : List UInt8) (c : Coalesce σ) : Prop where
  ok : c.failed = false
  fits : c.drain.Fits
  error : c.drain.error = false
  maxSize : c.drain.maxSize = maxSize
  bytes : wire c.writes ++ c.drain.buf ++ c.used = bytes
  short : c.used.length < streamWriteBufSize

/-- After writes of `bytes`, one of which may have failed: not with a willing writer and room. -/
def Coalesce.After (e : DrainEnv σ) (maxSize : Nat) (bytes : List UInt8) (c : Coalesce σ) : Prop :=
  c.Holds maxSize bytes ∨
    c.failed = true ∧ (e.Willing → ¬ KlDrainQueue.Roomy maxSize bytes.length)

variable {e : DrainEnv σ} {c : Coalesce σ} {data : List UInt8} {maxSize : Nat}

/-- A failure stays one, whatever more there was to write. -/
theorem Coalesce.After.of_failed (hf : c.failed = true)
    (hno : e.Willing → ¬ KlDrainQueue.Roomy maxSize bytes.length) (more : List UInt8) :
    c.After e maxSize (bytes ++ more) := by
  refine .inr ⟨hf, fun hw hroom => hno hw (hroom.mono ?_)⟩
  rw [length_append]
  exact Nat.le_add_right _ _

/-- What a write that did not fail has moved. -/
theorem Coalesce.After.holds (h : c.After e maxSize bytes) (hok : c.failed = false) :
    c.Holds maxSize bytes :=
  h.resolve_right fun hf => Bool.false_ne_true (hok.symm.trans hf.1)

/-- The full buffer goes to the queue. -/
theorem Coalesce.Holds.write (h : c.Holds maxSize bytes) {used : List UInt8}
    (hdata : c.used ++ data = used) :
    ({ c with used := [] }.write e used).After e maxSize (bytes ++ data) := by
  have hmoves := KlDrainQueue.drainWrite_moves (e := e) (s := c.env) (.bytes used) h.fits h.error
    fun _ => rfl
  have hall : bytes ++ data = wire c.writes ++ (c.drain.buf ++ used) := by
    rw [← h.bytes, append_assoc, append_assoc, hdata]
  cases hrc : decide ((KlDrainQueue.drainWrite e c.env c.drain (.bytes used)).rc < 0) with
  | false =>
    obtain ⟨herr, heq⟩ := hmoves.ok (Int.not_lt.mp (of_decide_eq_false hrc))
    refine .inl ⟨hrc, hmoves.fits, herr, hmoves.maxSize.trans h.maxSize, ?_,
      (by decide : 0 < streamWriteBufSize)⟩
    simp only [Coalesce.write, wire_append, append_nil, append_assoc]
    rw [hall]
    exact congrArg (wire c.writes ++ ·) heq
  | true =>
    refine .inr ⟨hrc, fun hw hroom => ?_⟩
    rw [hall, ← h.maxSize, length_append, length_append] at hroom
    exact absurd (of_decide_eq_true hrc)
      (Int.not_lt.mpr (hmoves.willing hw (hroom.mono (Nat.le_add_left _ _))))

/-- A segment is cut at the end of the buffer, and no byte of it is lost. -/
theorem coalesceSeg_after (hfuel : data.length ≤ fuel) (h : c.Holds maxSize bytes) :
    (coalesceSeg e fuel c data).After e maxSize (bytes ++ data) := by
  induction fuel generalizing c bytes data with
  | zero =>
    obtain rfl := eq_nil_of_length_eq_zero (Nat.le_zero.mp hfuel)
    rw [append_nil]
    exact .inl h
  | succ fuel ih =>
    unfold coalesceSeg
    split
    · next hnil =>
      rw [hnil, append_nil]
      exact .inl h
    rename_i hne
    split
    · next hdirect =>
      have hc : c = { c with used := [] } := by
        rw [← hdirect.1]
      rw [hc]
      exact h.write (by rw [hdirect.1, nil_append])
    have hpos := length_pos_iff.mpr hne
    have hshort := h.short
    have hrest : (data.drop (streamWriteBufSize - c.used.length)).length ≤ fuel := by
      rw [length_drop]
      omega
    have hcut : bytes ++ data = bytes ++ data.take (streamWriteBufSize - c.used.length) ++
        data.drop (streamWriteBufSize - c.used.length) := by
      rw [append_assoc, take_append_drop]
    simp only
    rw [hcut]
    split
    · have hwrite : Coalesce.After e maxSize
          (bytes ++ data.take (streamWriteBufSize - c.used.length)) _ := h.write rfl
      rcases hwrite with hheld | ⟨hf, hno⟩
      · rw [if_neg (by simp [hheld.ok])]
        exact ih hrest hheld
      · rw [if_pos hf]
        exact .of_failed hf hno _
    · next hfull =>
      refine ih hrest ⟨h.ok, h.fits, h.error, h.maxSize, ?_, ?_⟩
      · rw [← h.bytes, append_assoc (wire c.writes ++ c.drain.buf)]
      · simp only [length_append, length_take] at hfull ⊢
        omega

/-- Segments go through the buffer one behind the other. -/
theorem coalesceSegs_after (h : c.Holds maxSize bytes) (segs : List (List UInt8)) :
    (coalesceSegs e c segs).After e maxSize (bytes ++ segs.flatten) := by
  induction segs generalizing c bytes with
  | nil =>
    rw [flatten_nil, append_nil]
    exact .inl h
  | cons seg segs ih =>
    unfold coalesceSegs
    simp only
    rw [flatten_cons, ← append_assoc]
    have hseg : Coalesce.After e maxSize (bytes ++ seg) _ := coalesceSeg_after (Nat.le_refl _) h
    rcases hseg with hheld | ⟨hf, hno⟩
    · rw [if_neg (by simp [hheld.ok])]
      exact ih hheld
    · rw [if_pos hf]
      exact .of_failed hf hno _

/-- The queue takes the segments, and the buffer is empty at the end. -/
theorem drainWritevCoalesced_after {d : KlDrainQueue} (hfits : d.Fits) (herr : d.error = false)
    (segs : List (List UInt8)) :
    (drainWritevCoalesced e s d segs).After e d.maxSize (d.buf ++ segs.flatten) ∧
      ((drainWritevCoalesced e s d segs).failed = false →
        (drainWritevCoalesced e s d segs).used = []) := by
  have hstart : Coalesce.Holds d.maxSize d.buf { env := s, drain := d : Coalesce σ } :=
    ⟨rfl, hfits, herr, rfl, by simp, (by decide : 0 < streamWriteBufSize)⟩
  have hall := coalesceSegs_after (e := e) hstart segs
  unfold drainWritevCoalesced
  simp only
  split
  · next hdone =>
    refine ⟨hall, fun hok => ?_⟩
    rw [hok, Bool.false_or] at hdone
    exact of_decide_eq_true hdone
  · next hleft =>
    simp only [Bool.or_eq_true, not_or, Bool.not_eq_true] at hleft
    have hwrite := (hall.holds hleft.1).write (e := e) (append_nil _)
    rw [append_nil] at hwrite
    exact ⟨hwrite, fun _ => rfl⟩

/-! ## The calls -/

/-- The bytes of a response that are still in its drain. -/
def pending (res : KlHttpResponse) : List UInt8 := if res.drainEnabled then res.drain.buf else []

/-- A streamed response on which no call has failed. -/
structure Open (res : KlHttpResponse) : Prop where
  head : res.headRequest = false
  hasWire : res.resHasWire = true
  error : res.streamError = false
  drain : res.drainEnabled = true → res.drain.Fits ∧ res.drain.error = false

/-- The call added `bytes` to the response, on the wire or in the drain. -/
structure Adds (res : KlHttpResponse) (bytes : List UInt8) (ended : Bool) (out : StreamOut σ) :
    Prop where
  isOpen : out.res.Open
  drainEnabled : out.res.drainEnabled = res.drainEnabled
  tls : out.res.tls = res.tls
  maxSize : out.res.drain.maxSize = res.drain.maxSize
  bytes : wire out.writes ++ out.res.pending = res.pending ++ bytes
  ended : out.res.streamEnded = ended

variable {res : KlHttpResponse} {out : StreamOut σ}

/-- A call that writes nothing. -/
theorem Open.adds_nothing (h : res.Open) (s : σ) :
    Adds res [] res.streamEnded { env := s, res, rc := 0 : StreamOut σ } :=
  ⟨h, rfl, rfl, rfl, by simp, rfl⟩

/-- A write through the queue: what was queued goes first, and the rest stays queued. -/
theorem Open.adds_drained (h : res.Open) (hd : res.drainEnabled = true) {env : σ}
    (hok : (res.drained env drain failed writes).rc ≠ -1)
    (hmoved : failed = false → drain.Fits ∧ drain.error = false ∧
      drain.maxSize = res.drain.maxSize ∧ wire writes ++ drain.buf = res.drain.buf ++ bytes) :
    Adds res bytes res.streamEnded (res.drained env drain failed writes) := by
  unfold drained at hok ⊢
  split
  · next hfailed =>
    rw [if_pos hfailed] at hok
    exact absurd rfl hok
  · next hfailed =>
    obtain ⟨hfits, herr, hmax, heq⟩ := hmoved (by simpa using hfailed)
    refine ⟨⟨h.head, h.hasWire, h.error, fun _ => ⟨hfits, herr⟩⟩, rfl, rfl, hmax, ?_, rfl⟩
    simpa [pending, hd] using heq

/-- A write that waits for the socket: nothing stays behind. -/
theorem Open.adds_spun (h : res.Open) (hd : res.drainEnabled = false)
    (hok : (res.spun sent).rc ≠ -1) (hsent : Delivers bytes sent) :
    Adds res bytes res.streamEnded (res.spun sent) := by
  unfold spun at hok ⊢
  split
  · next hrc =>
    rw [if_pos hrc] at hok
    exact absurd rfl hok
  · next hrc =>
    refine ⟨h, rfl, rfl, rfl, ?_, rfl⟩
    simpa [pending, hd] using hsent (Int.not_lt.mp hrc)

/-- The wire form of a chunk. -/
def chunk (data : List UInt8) : List UInt8 :=
  if data = [] then [] else formatChunkHdr data.length ++ (data ++ crlf)

theorem chunk_of_ne_nil (h : data ≠ []) :
    chunk data = formatChunkHdr data.length ++ (data ++ crlf) := if_neg h

/-- A call that did not fail adds one chunk of its data. -/
theorem streamWritev_adds (ht : t.Honest) (h : res.Open) {iov : Iov}
    (hcall : streamWritev t fuel s res iov = some out) (hok : out.rc ≠ -1) :
    Adds res (chunk iov.data) res.streamEnded out ∧ iov.data.length ≤ SIZE_MAX := by
  unfold streamWritev at hcall
  rw [if_neg (by simp [h.error]), if_neg (by simp [h.head])] at hcall
  split at hcall
  · cases hcall
    exact absurd rfl hok
  rename_i segs hsegs
  rw [data_of_segments hsegs]
  simp only at hcall
  split at hcall
  · cases hcall
    exact absurd rfl hok
  rename_i hsize
  refine ⟨?_, Nat.not_lt.mp hsize⟩
  split at hcall
  · next hlen =>
    cases hcall
    rw [chunk, if_pos (eq_nil_of_length_eq_zero hlen)]
    exact h.adds_nothing s
  rename_i hlen
  have hflat : (formatChunkHdr segs.flatten.length :: (segs ++ [crlf])).flatten =
      chunk segs.flatten := by
    rw [chunk_of_ne_nil fun hnil => hlen (congrArg length hnil)]
    simp
  split at hcall
  · next hd =>
    cases hcall
    refine h.adds_drained hd hok fun hfailed => ?_
    obtain ⟨hfits, herr⟩ := h.drain hd
    obtain ⟨hafter, hused⟩ :=
      drainWritevCoalesced_after (e := drainEnv t res.tls) (s := s) hfits herr
      (formatChunkHdr segs.flatten.length :: (segs ++ [crlf]))
    have hc := hafter.holds hfailed
    refine ⟨hc.fits, hc.error, hc.maxSize, ?_⟩
    have hbytes := hc.bytes
    rwa [hused hfailed, append_nil, hflat] at hbytes
  · next hd =>
    obtain ⟨sent, hsent, rfl⟩ := map_eq_some_iff.mp hcall
    refine h.adds_spun (by simpa using hd) hok ?_
    rw [← hflat]
    exact writevGroups_delivers ht (Nat.le_refl _) hsent

theorem drained_rc {env : σ} : (res.drained env drain failed writes).rc = 0 ∨
      (res.drained env drain failed writes).rc = -1 := by
  unfold drained
  split
  · exact .inr rfl
  · exact .inl rfl

theorem spun_rc : (res.spun sent).rc = 0 ∨ (res.spun sent).rc = -1 := by
  unfold spun
  split
  · exact .inr rfl
  · exact .inl rfl

/-- The terminator was taken, or the call failed. -/
theorem Adds.marked {b : Bool} (hrc : out.rc = 0 ∨ out.rc = -1) (hok : out.marked.rc ≠ -1)
    (h : out.rc ≠ -1 → Adds res bytes b out) : Adds res bytes true out.marked := by
  unfold StreamOut.marked at hok ⊢
  rcases hrc with hrc | hrc
  · have hadds := h (by rw [hrc]; decide)
    rw [if_neg (by rw [hrc]; decide)]
    exact ⟨⟨hadds.isOpen.head, hadds.isOpen.hasWire, hadds.isOpen.error, hadds.isOpen.drain⟩,
      hadds.drainEnabled, hadds.tls, hadds.maxSize, hadds.bytes, rfl⟩
  · rw [if_pos (by rw [hrc]; decide)] at hok
    exact absurd hrc hok

/-- The terminator is added once. -/
theorem endStream_adds (ht : t.Honest) (h : res.Open) (hcall : endStream t fuel s res = some out)
    (hok : out.rc ≠ -1) : Adds res (if res.streamEnded then [] else terminator) true out := by
  unfold endStream at hcall
  rw [if_neg (by simp [h.error]), if_neg (by simp [h.hasWire]), if_neg (by simp [h.head])] at hcall
  split at hcall
  · next hended =>
    cases hcall
    rw [if_pos hended, ← hended]
    exact h.adds_nothing s
  rename_i hended
  rw [if_neg hended]
  split at hcall
  · next hd =>
    cases hcall
    obtain ⟨hfits, herr⟩ := h.drain hd
    have hmoves := KlDrainQueue.drainWrite_moves (e := drainEnv t res.tls) (s := s)
      (.bytes terminator) hfits herr fun _ => rfl
    refine Adds.marked drained_rc hok fun hok => h.adds_drained hd hok fun hfailed => ?_
    obtain ⟨herr', heq⟩ := hmoves.ok (by simpa using hfailed)
    exact ⟨hmoves.fits, herr', hmoves.maxSize, heq⟩
  · next hd =>
    obtain ⟨sent, hsent, rfl⟩ := map_eq_some_iff.mp hcall
    have hdelivers := streamWritevAll_delivers ht hsent
    exact Adds.marked spun_rc hok fun hok => h.adds_spun (by simpa using hd) hok hdelivers

/-- A flush adds nothing of its own. -/
theorem sendStream_adds (h : res.Open) (hok : (sendStream t s res).rc ≠ -1) :
    Adds res [] res.streamEnded (sendStream t s res) := by
  unfold sendStream at hok ⊢
  rw [if_neg (by simp [h.hasWire])] at hok ⊢
  split
  · next hd =>
    rw [if_pos hd] at hok
    obtain ⟨hfits, herr⟩ := h.drain hd
    have hmoves := KlDrainQueue.drainFlush_moves (e := drainEnv t res.tls) (s := s) hfits herr
    have hrc : ¬ (KlDrainQueue.drainFlush (drainEnv t res.tls) s res.drain).rc < 0 := by
      intro hneg
      simp only [if_pos hneg] at hok
      exact absurd rfl hok
    obtain ⟨herr', heq⟩ := hmoves.ok (Int.not_lt.mp hrc)
    refine ⟨⟨h.head, h.hasWire, h.error, fun _ => ⟨hmoves.fits, herr'⟩⟩, rfl, rfl, hmoves.maxSize,
      ?_, rfl⟩
    simp only [pending, hd, if_true]
    exact heq
  · exact h.adds_nothing s

/-! ## The head -/

/-- A failure is kept to the end. -/
theorem writeParts_failed {parts : List (List UInt8)} (hc : c.failed = true) :
    writeParts e c parts = c := by
  induction parts with
  | nil => rfl
  | cons part parts ih =>
    rw [writeParts, foldl_cons, if_pos hc]
    exact ih

/-- The parts of a head go to the queue in order. -/
theorem writeParts_after (hused : c.used = []) (h : c.Holds maxSize bytes)
    (parts : List (List UInt8)) : (writeParts e c parts).After e maxSize (bytes ++ parts.flatten) ∧
      (writeParts e c parts).used = [] := by
  induction parts generalizing c bytes with
  | nil =>
    rw [flatten_nil, append_nil]
    exact ⟨.inl h, hused⟩
  | cons part parts ih =>
    have hstep : writeParts e c (part :: parts) = writeParts e (c.write e part) parts := by
      rw [writeParts, foldl_cons, if_neg (by simp [h.ok])]
      rfl
    have hempty : c = { c with used := [] } := by rw [← hused]
    have hwrite : (c.write e part).After e maxSize (bytes ++ part) := by
      rw [hempty]
      exact h.write (by rw [hused, nil_append])
    rw [hstep, flatten_cons, ← append_assoc]
    rcases hwrite with hheld | ⟨hf, hno⟩
    · exact ih hused hheld
    · rw [writeParts_failed hf]
      exact ⟨.of_failed hf hno _, hused⟩

theorem enableDrain_eq (h : res.resHasWire = true) (maxSize : Nat) :
    res.enableDrain true maxSize = ({ res with drain := .init maxSize, drainEnabled := true }, 0) :=
  if_neg (by simp [h])

/-- The head of a stream announces the chunked encoding, and the stream is open. -/
theorem prepareStream_open (hhead : res.headRequest = false) (herr : res.streamError = false)
    (hd : res.drainEnabled = false) {res' : KlHttpResponse}
    (h : res.prepareStream status room = (res', true)) :
    res'.Open ∧ res'.pending = [] ∧ res'.streamEnded = res.streamEnded ∧ res'.status = status ∧
      res'.hdrBuf = res.hdrBuf ++ (headerText (ascii "Transfer-Encoding") (ascii "chunked") ++
        crlf) := by
  have hclean : (containsCrlf (ascii "Transfer-Encoding") || containsCrlf (ascii "chunked")) =
      false := by decide
  unfold prepareStream at h
  split at h
  · cases h
  rename_i hwire
  simp only [header, hclean] at h
  cases room with
  | false => cases h
  | true =>
    have hwire : res.resHasWire = true := by simpa using hwire
    simp only [Bool.false_eq_true, if_false, if_true, Int.lt_irrefl, hd, Bool.not_false,
      Bool.true_and] at h
    split at h
    · next halloc =>
      rw [halloc, enableDrain_eq ?_] at h
      swap
      · exact hwire
      obtain ⟨rfl, -⟩ := Prod.mk.inj h
      have hfits : (KlDrainQueue.init streamDrainMax).Fits :=
        ⟨by decide, Nat.le_refl 0, fun _ => Nat.zero_le _⟩
      exact ⟨⟨hhead, hwire, herr, fun _ => ⟨hfits, rfl⟩⟩, rfl, rfl, rfl, rfl⟩
    · obtain ⟨rfl, -⟩ := Prod.mk.inj h
      exact ⟨⟨hhead, hwire, herr, fun h => absurd h Bool.false_ne_true⟩, rfl, rfl, rfl, rfl⟩

/-- The parts of the head, as they stand on the wire. -/
theorem headParts_flatten :
    res.headParts.flatten = statusLineFor res.status ++ (res.hdrBuf ++ crlf) := by
  unfold headParts
  by_cases h : res.hdrBuf = [] <;> simp [h]

/-- `begin_stream` leaves the head on the wire and in the drain, and the response open. -/
theorem beginStream_open (ht : t.Honest) (hhead : res.headRequest = false)
    (herr : res.streamError = false) (hd : res.drainEnabled = false)
    (hcall : beginStream t fuel s res status room = some out) (hok : out.rc ≠ -1) :
    out.res.Open ∧ out.res.streamEnded = res.streamEnded ∧
      wire out.writes ++ out.res.pending = statusLineFor status ++
        (res.hdrBuf ++ (headerText (ascii "Transfer-Encoding") (ascii "chunked") ++ crlf) ++
          crlf) := by
  unfold beginStream at hcall
  split at hcall
  · cases hcall
    exact absurd rfl hok
  rename_i res' hprepare
  obtain ⟨hopen, hpending, hended, hstatus, hbuf⟩ := prepareStream_open hhead herr hd hprepare
  rw [← hended, ← hstatus, ← hbuf, ← headParts_flatten]
  -- whichever way it went, the head was added to the prepared response
  have hadds : ∀ {out' : StreamOut σ},
      (out'.rc ≠ -1 → Adds res' res'.headParts.flatten res'.streamEnded out') →
      (out'.rc = 0 ∨ out'.rc = -1) → out = out'.begun →
      out.res.Open ∧ out.res.streamEnded = res'.streamEnded ∧
        wire out.writes ++ out.res.pending = res'.headParts.flatten := by
    rintro out' h (hrc | hrc) rfl
    · have h := h (by rw [hrc]; decide)
      rw [StreamOut.begun, if_neg (by rw [hrc]; decide)]
      refine ⟨⟨h.isOpen.head, h.isOpen.hasWire, h.isOpen.error, h.isOpen.drain⟩, h.ended, ?_⟩
      have hbytes := h.bytes
      rwa [hpending, nil_append] at hbytes
    · rw [StreamOut.begun, if_pos (by rw [hrc]; decide)] at hok
      exact absurd hrc hok
  split at hcall
  · next hdrain =>
    obtain ⟨hfits, hclean⟩ := hopen.drain hdrain
    refine hadds (fun hok => hopen.adds_drained hdrain hok fun hfailed => ?_) drained_rc
      (some.inj hcall).symm
    have hstart : Coalesce.Holds res'.drain.maxSize res'.drain.buf
        { env := s, drain := res'.drain : Coalesce σ } :=
      ⟨rfl, hfits, hclean, rfl, by simp, (by decide : 0 < streamWriteBufSize)⟩
    obtain ⟨hafter, hused⟩ := writeParts_after (e := drainEnv t res'.tls) rfl hstart res'.headParts
    have hc := hafter.holds hfailed
    have hbytes := hc.bytes
    rw [hused, append_nil] at hbytes
    exact ⟨hc.fits, hc.error, hc.maxSize, hbytes⟩
  rename_i hdrain
  obtain ⟨sent, hsent, hout⟩ := map_eq_some_iff.mp hcall
  have hdelivers := streamWritevAll_delivers ht hsent
  refine hadds (fun hok => ⟨hopen, rfl, rfl, rfl, ?_, rfl⟩) ?_ hout.symm
  · simp only at hok
    split at hok
    · exact absurd rfl hok
    · next hrc =>
      rw [hpending, append_nil, nil_append]
      exact hdelivers (Int.not_lt.mp hrc)
  · simp only
    split
    · exact .inr rfl
    · exact .inl rfl

end KlHttpResponse
