-- SUMMARY: Every admitted byte is taken in order, waits, or is lost to a failure.
import Keel.Stream.Write

/-!
# Bytes

The histories below are read off a run. `admitted` are the bytes of the writes that
were not refused when they were called, in the order of the calls; `handed` are the
bytes the transport took; `acked` counts those it has also acknowledged. `BytesInv`
relates them to the queue, as long as the readiness writer does not itself start
another write or flush.
-/

open Reentrant List

namespace KlStream

/-! ## Histories -/

/-- What a writer that reported `n` took of the bytes it was offered. A report of
more than that is a failure. -/
def took (n : Int) (offered : List UInt8) : List UInt8 :=
  if offered.length < n.toNat then [] else offered.take n.toNat

variable (st : SStep)

def admittedBy : List UInt8 :=
  match st.cause, st.out with
  | .enter (.write src), .done _ (.written .accepted) => src.data
  | .enter (.write src), .call _ _ => src.data
  | _, _ => []

/-- The bytes of the `kl_stream_write` that a stretch of code belongs to. -/
def writeOf : Cause Op Frame Int → List UInt8
  | .enter (.write src) => src.data
  | .resume (.writeDirect data) _ => data
  | .resume (.submit _ (.write data)) _ => data
  | _ => []

/-- The bytes of a write that returned ACCEPTED. -/
def acceptedBy : List UInt8 :=
  if st.out.result = some (.written .accepted) then writeOf st.cause else []

def handedBy : List UInt8 :=
  match st.cause with
  | .resume (.writeDirect data) n => took n data
  | .resume .flushPush n => took n st.pre.w.wq.buf
  | .resume (.submit len _) r => if r = 0 then st.pre.w.wq.buf.take len else []
  | _ => []

/-- A readiness writer acknowledges what it takes, a completion the whole send. -/
def ackedBy : Nat :=
  match st.cause with
  | .resume (.writeDirect data) n => (took n data).length
  | .resume .flushPush n => (took n st.pre.w.wq.buf).length
  | .resume (.submit len _) r =>
    if r = 0 ∧ st.pre.w.inlineDone = true ∧ st.pre.w.inlineOk = true then len else 0
  | .enter (.onWriteComplete true) =>
    if st.pre.w.sendInflight = true ∧ st.pre.w.submitting = false then st.pre.w.inflightLen else 0
  | _ => 0

variable (tr : List SStep)

def admitted : List UInt8 := tr.flatMap admittedBy
def accepted : List UInt8 := tr.flatMap acceptedBy
def handed : List UInt8 := tr.flatMap handedBy
def acked : Nat := (tr.map ackedBy).sum

@[simp] theorem admitted_append :
    admitted (tr ++ [st]) = admitted tr ++ admittedBy st := by
  simp [admitted]

@[simp] theorem handed_append :
    handed (tr ++ [st]) = handed tr ++ handedBy st := by
  simp [handed]

@[simp] theorem acked_append : acked (tr ++ [st]) = acked tr + ackedBy st := by
  simp [acked]

end KlStream

/-- The bytes of a write that is still inside the readiness writer. -/
def Frame.offered : Frame → List UInt8
  | .writeDirect data => data
  | _ => []

/-- The operations that may call the readiness writer. -/
def Op.sends : Op → Bool
  | .write _ | .flush => true
  | _ => false

/-- Queued bytes that the transport has not taken. -/
def KlStreamWrite.unsent (w : KlStreamWrite) : List UInt8 :=
  bif w.sendInflight && !w.submitting && !w.inflightCopying then w.wq.buf.drop w.inflightLen
  else w.wq.buf

/-- The number of bytes in the queue or on the way. -/
def KlStreamWrite.unacked (w : KlStreamWrite) : Nat :=
  bif w.sendInflight && !w.submitting && w.inflightCopying then w.wq.buf.length + w.inflightLen
  else w.wq.buf.length

namespace KlStreamWrite

variable {w : KlStreamWrite}

theorem unsent_of_idle (h : w.sendInflight = false) : w.unsent = w.wq.buf := by
  simp [unsent, h]

theorem unacked_of_idle (h : w.sendInflight = false) : w.unacked = w.wq.buf.length := by
  simp [unacked, h]

theorem unsent_of_submitting (h : w.submitting = true) : w.unsent = w.wq.buf := by
  simp [unsent, h]

theorem unacked_of_submitting (h : w.submitting = true) : w.unacked = w.wq.buf.length := by
  simp [unacked, h]

theorem le_unacked (w : KlStreamWrite) : w.wq.buf.length ≤ w.unacked := by
  unfold unacked
  cases w.sendInflight && !w.submitting && w.inflightCopying <;> simp

/-- What `kl_stream_write_pending` reports outside of `submit_fn`. -/
theorem pending_le_unacked (h : w.submitting = false) : w.pending ≤ w.unacked := by
  unfold pending KlDrain.buffered
  split
  · exact Nat.zero_le _
  split
  · next hi =>
    have hu : w.unacked = w.wq.buf.length + w.inflightLen := by simp_all [unacked]
    split <;> omega
  · exact w.le_unacked

theorem buf_of_pending (hi : w.wqInited = true) (h : w.pending = 0) : w.wq.buf = [] := by
  apply eq_nil_of_length_eq_zero
  simp only [pending, hi, Bool.not_true, Bool.false_eq_true, if_false] at h
  split at h
  · split at h
    · exact absurd h (by decide)
    · exact (Nat.add_eq_zero_iff.mp h).1
  · exact h

end KlStreamWrite

namespace KlStream

structure BytesInv (adm han : List UInt8) (ack : Nat) (w : KlStreamWrite) (ws : List Frame) :
    Prop where
  bytes : w.wqErr = false → adm = han ++ w.unsent ++ ws.flatMap Frame.offered
  count : w.wqErr = false → ack + w.unacked + (ws.flatMap Frame.offered).length = adm.length
  taken : han <+: adm
  bound : ack + w.unacked ≤ adm.length
  writer : ∀ f ∈ ws, f.isWriter = true → w.wqErr = false
  direct : ∀ data, .writeDirect data ∈ ws → w.wq.buf = []
  one : ws.countP Frame.isWriter ≤ 1

namespace BytesInv

variable {adm han : List UInt8} {ack : Nat} {w w' : KlStreamWrite} {ws : List Frame} {f : Frame}

/-- Without an error, the two equations say everything. -/
theorem of_ok (herr : w.wqErr = false) (hb : adm = han ++ w.unsent ++ ws.flatMap Frame.offered)
    (hc : ack + w.unacked + (ws.flatMap Frame.offered).length = adm.length)
    (hd : ∀ data, .writeDirect data ∈ ws → w.wq.buf = []) (ho : ws.countP Frame.isWriter ≤ 1) :
    BytesInv adm han ack w ws where
  bytes _ := hb
  count _ := hc
  taken := by
    rw [hb, append_assoc]
    exact prefix_append _ _
  bound := by omega
  writer _ _ _ := herr
  direct := hd
  one := ho

/-- A change that does not concern the queued bytes. -/
theorem congr (h : BytesInv adm han ack w ws) (hu : w'.unsent = w.unsent)
    (hk : w'.unacked = w.unacked) (he : w'.wqErr = w.wqErr) (hb : w'.wq.buf = w.wq.buf) :
    BytesInv adm han ack w' ws where
  bytes herr := by rw [hu]; exact h.bytes (he ▸ herr)
  count herr := by rw [hk]; exact h.count (he ▸ herr)
  __ := h
  bound := hk ▸ h.bound
  writer g hg hw := he ▸ h.writer g hg hw
  direct data hd := hb ▸ h.direct data hd

/-- Only the readiness writers on the stack matter. -/
theorem of_frames {ws' : List Frame} (h : BytesInv adm han ack w ws)
    (ho : ws'.flatMap Frame.offered = ws.flatMap Frame.offered)
    (hm : ∀ g ∈ ws', g.isWriter = true → g ∈ ws)
    (hc : ws'.countP Frame.isWriter = ws.countP Frame.isWriter) : BytesInv adm han ack w ws' where
  bytes := ho ▸ h.bytes
  count := ho ▸ h.count
  taken := h.taken
  bound := h.bound
  writer g hg hw := h.writer g (hm g hg hw) hw
  direct data hd := h.direct data (hm _ hd rfl)
  one := hc ▸ h.one

/-- A hook that is not the readiness writer is called, or has returned. -/
theorem cons_iff (hf : f.isWriter = false) :
    BytesInv adm han ack w (f :: ws) ↔ BytesInv adm han ack w ws := by
  have ho : (f :: ws).flatMap Frame.offered =
      ws.flatMap Frame.offered := by cases f <;> first | rfl | cases hf
  have hc : (f :: ws).countP Frame.isWriter = ws.countP Frame.isWriter :=
    countP_cons_of_neg (by simp [hf])
  refine ⟨fun h => h.of_frames ho.symm (fun g hg _ => .tail _ hg) hc.symm, fun h =>
    h.of_frames ho ?_ hc⟩
  intro g hg hw
  rcases mem_cons.mp hg with rfl | hg
  · simp [hf] at hw
  · exact hg

theorem start (u : Setup) : BytesInv [] [] 0 u.stream.w [] := by
  rw [Setup.stream_eq]
  exact .of_ok rfl rfl rfl nofun (Nat.zero_le _)

/-- After an error only the bounds are left. -/
theorem of_err (herr : w.wqErr = true) (ht : han <+: adm) (hb : ack + w.unacked ≤ adm.length)
    (hno : ∀ f ∈ ws, f.isWriter = false) : BytesInv adm han ack w ws where
  bytes h := by simp [herr] at h
  count h := by simp [herr] at h
  taken := ht
  bound := hb
  writer f hf hw := by simp [hno f hf] at hw
  direct data hd := by simpa [Frame.isWriter] using hno _ hd
  one := by
    rw [countP_eq_zero.mpr (by simpa using hno)]
    exact Nat.zero_le _

theorem offered_eq_nil (hno : ∀ f ∈ ws, f.isWriter = false) : ws.flatMap Frame.offered = [] := by
  rw [flatMap_eq_nil_iff]
  intro f hf
  have := hno f hf
  cases f <;> first | rfl | cases this

/-- No writer is on the stack and there was no error. -/
theorem of_quiet (hno : ∀ f ∈ ws, f.isWriter = false) (herr : w.wqErr = false)
    (hb : adm = han ++ w.unsent) (hc : ack + w.unacked = adm.length) :
    BytesInv adm han ack w ws := by
  have hoff := offered_eq_nil hno
  refine .of_ok herr (by rw [hoff, append_nil, hb]) (by rw [hoff]; exact hc) ?_ ?_
  · intro data hd
    simpa [Frame.isWriter] using hno _ hd
  · rw [countP_eq_zero.mpr (by simpa using hno)]
    exact Nat.zero_le _

theorem quiet (h : BytesInv adm han ack w ws) (hno : ∀ f ∈ ws, f.isWriter = false)
    (herr : w.wqErr = false) : adm = han ++ w.unsent ∧ ack + w.unacked = adm.length := by
  have hbytes := h.bytes herr
  have hcount := h.count herr
  rw [offered_eq_nil hno] at hbytes hcount
  exact ⟨hbytes.trans (append_nil _), hcount⟩

/-- Nothing is on the way either. -/
theorem of_idle (hno : ∀ f ∈ ws, f.isWriter = false) (herr : w.wqErr = false)
    (hi : w.sendInflight = false)
    (hb : adm = han ++ w.wq.buf) (hc : ack + w.wq.buf.length = adm.length) :
    BytesInv adm han ack w ws :=
  of_quiet hno herr (by rwa [KlStreamWrite.unsent_of_idle hi])
    (by rwa [KlStreamWrite.unacked_of_idle hi])

variable {s : KlStream} {st : List Frame} {k : SendK} {len : Nat} {data l : List UInt8}

theorem pumpRet {r : Int} (h : BytesInv adm han ack s.w (writeFrames st)) :
    After (BytesInv adm han ack) st (s.pumpRet r k) := by
  cases k with
  | write data =>
    simp only [KlStream.pumpRet]
    split
    · exact h
    · exact h
  | complete =>
    exact .completeTail (fun _ => (cons_iff rfl).mpr (h.congr rfl rfl rfl rfl)) (fun _ => h)

theorem pumpCompletion (h : BytesInv adm han ack s.w (writeFrames st)) :
    After (BytesInv adm han ack) st (s.pumpCompletion k) := by
  unfold KlStream.pumpCompletion
  split
  · exact h.pumpRet
  split
  · exact h.pumpRet
  split
  · exact h.pumpRet
  next hi =>
  have hi : s.w.sendInflight = false := by simpa using hi
  split
  · exact h.pumpRet
  refine .call rfl ((cons_iff rfl).mpr (h.congr ?_ ?_ rfl rfl))
  · rw [KlStreamWrite.unsent_of_idle hi, KlStreamWrite.unsent_of_submitting rfl]
    rfl
  · rw [KlStreamWrite.unacked_of_idle hi, KlStreamWrite.unacked_of_submitting rfl]
    rfl

/-- What the submitting frame knows: everything queued is still to be taken. -/
theorem of_submit (h : BytesInv adm han ack w (.submit len k :: ws))
    (hw : WriteInv w (.submit len k :: ws)) :
    (∀ f ∈ ws, f.isWriter = false) ∧ adm = han ++ w.wq.buf ∧ ack + w.wq.buf.length = adm.length ∧
      len = w.inflightLen ∧ len ≤ w.wq.buf.length ∧ w.sendInflight = true ∧ w.wqErr = false := by
  obtain ⟨hs, hi, hsub, herr⟩ := hw.of_submit
  have hno : ∀ f ∈ ws, f.isWriter = false := fun f hf =>
    hw.writers hsub f (mem_cons_of_mem _ hf)
  have hlen : len = w.inflightLen := hw.frameLen len k (mem_cons_self ..)
  obtain ⟨hbytes, hcount⟩ := ((cons_iff rfl).mp h).quiet hno herr
  rw [KlStreamWrite.unsent_of_submitting hs] at hbytes
  rw [KlStreamWrite.unacked_of_submitting hs] at hcount
  exact ⟨hno, hbytes, hcount, hlen, hlen ▸ hw.len hi (.inl hs), hi, herr⟩

theorem submitted (h : BytesInv adm han ack s.w (.submit len k :: writeFrames st))
    (hw : WriteInv s.w (.submit len k :: writeFrames st)) (r : Int) (o : SOut) :
    After (BytesInv adm (han ++ handedBy ⟨s, .resume (.submit len k) r, o⟩)
      (ack + ackedBy ⟨s, .resume (.submit len k) r, o⟩)) st (s.submitted len r k) := by
  obtain ⟨hno, hbytes, hcount, hlen, hle, hi, herr⟩ := h.of_submit hw
  have htake : han ++ s.w.wq.buf.take len <+: adm := by
    rw [hbytes]
    exact (prefix_append_right_inj _).mpr (List.take_prefix _ _)
  have hdrop : adm = han ++ s.w.wq.buf.take len ++ s.w.wq.buf.drop len := by
    rw [append_assoc, take_append_drop, hbytes]
  unfold KlStream.submitted
  split
  · next hr =>
    refine pumpRet ?_
    simp only [handedBy, ackedBy, hr, if_false, false_and, append_nil, Nat.add_zero]
    refine of_err rfl h.taken ?_ hno
    exact Nat.le_of_eq hcount
  rename_i hr
  have hr : r = 0 := by simpa using hr
  split
  · next hd =>
    have hd : s.w.inlineDone = false := by simpa using hd
    refine pumpRet ?_
    simp only [handedBy, ackedBy, hr, hd, Bool.false_eq_true, false_and, and_false, if_true,
      if_false, Nat.add_zero]
    refine of_quiet hno herr ?_ ?_
    · cases hc : s.w.inflightCopying <;>
        simpa [KlStreamWrite.unsent, hi, hc, hlen] using hdrop
    · cases hc : s.w.inflightCopying <;> simp [KlStreamWrite.unacked, hi, hc, ← hlen] <;> omega
  rename_i hd
  have hd : s.w.inlineDone = true := by simpa using hd
  split
  · next hok =>
    have hok : s.w.inlineOk = false := by simpa using hok
    refine pumpRet ?_
    simp only [handedBy, ackedBy, hr, hok, Bool.false_eq_true, and_false, if_true, if_false,
      Nat.add_zero]
    refine of_err rfl htake ?_ hno
    rw [KlStreamWrite.unacked_of_idle rfl]
    cases hc : s.w.inflightCopying <;> simp [hc] <;> omega
  rename_i hok
  have hok : s.w.inlineOk = true := by simpa using hok
  refine pumpCompletion ?_
  simp only [handedBy, ackedBy, hr, hd, hok, and_self, if_true]
  refine of_idle hno herr rfl ?_ ?_
  · cases hc : s.w.inflightCopying <;> simpa [hc, ← hlen] using hdrop
  · cases hc : s.w.inflightCopying <;> simp [hc, ← hlen] <;> omega

theorem onWriteComplete (h : BytesInv adm han ack s.w (writeFrames st))
    (hw : WriteInv s.w (writeFrames st)) (ok : Bool) (o : SOut) :
    After (BytesInv adm han (ack + ackedBy ⟨s, .enter (.onWriteComplete ok), o⟩)) st
      (s.onWriteComplete ok) := by
  unfold KlStream.onWriteComplete
  split
  · next hin => simp [hw.inited] at hin
  split
  · next hi =>
    have hi : s.w.sendInflight = false := by simpa using hi
    cases ok <;> simpa [After, ackedBy, hi] using h
  rename_i hi
  have hi : s.w.sendInflight = true := by simpa using hi
  obtain ⟨hsub, herr⟩ := hw.inflight hi
  have hno : ∀ f ∈ writeFrames st, f.isWriter = false := hw.writers hsub
  split
  · next hs =>
    have : BytesInv adm han ack (s.w.noteInline ok) (writeFrames st) := h.congr rfl rfl rfl rfl
    cases ok <;> simpa [After, ackedBy, hs] using this
  rename_i hs
  obtain ⟨hbytes, hcount⟩ := h.quiet hno herr
  cases ok with
  | false =>
    have hf : BytesInv adm han ack s.w.sendFailed (writeFrames st) := by
      refine of_err rfl h.taken ?_ hno
      exact Nat.le_trans (Nat.add_le_add_left s.w.le_unacked ack) h.bound
    exact .completeTail (fun _ => (cons_iff rfl).mpr (hf.congr rfl rfl rfl rfl)) (fun _ => hf)
  | true =>
    refine pumpCompletion ?_
    simp only [ackedBy, hi, hs, and_self, if_true]
    refine of_idle hno herr rfl ?_ ?_
    · cases hc : s.w.inflightCopying <;> simpa [KlStreamWrite.unsent, hi, hs, hc] using hbytes
    cases hc : s.w.inflightCopying with
    | true =>
      simp only [KlStreamWrite.unacked, hi, hs, hc, Bool.not_false, Bool.and_self,
        cond_true] at hcount
      simp only [KlStreamWrite.sendRetired, hc, cond_true]
      omega
    | false =>
      have hle := hw.len hi (.inr hc)
      simp only [KlStreamWrite.unacked, hc, Bool.and_false, cond_false] at hcount
      simp only [KlStreamWrite.sendRetired, hc, cond_false, KlDrain.consume_buf, length_drop]
      omega

/-- A write that was queued is admitted, whether or not it is submitted at once. -/
theorem admittedBy_queued {src : SrcBuf} (s' : KlStream) (herr : s'.w.wqErr = false) :
    admittedBy ⟨s, .enter (.write src), s'.pumpCompletion (.write data)⟩ = src.data := by
  unfold KlStream.pumpCompletion KlStream.pumpRet
  rw [if_neg (by simp [herr])]
  split
  · rfl
  split
  · rfl
  · split
    · rfl
    · rfl

/-- Whole writes go to the end of the queue. -/
theorem append (h : BytesInv adm han ack w ws) (hw : WriteInv w ws) (herr : w.wqErr = false)
    (hno : ∀ f ∈ ws, f.isWriter = false) (data : List UInt8) :
    BytesInv (adm ++ data) han ack ((w.setQueue (w.wq.append data)).setBlocked false) ws := by
  obtain ⟨hbytes, hcount⟩ := h.quiet hno herr
  refine of_quiet hno herr ?_ ?_
  · rw [hbytes, append_assoc, append_cancel_left_eq]
    simp only [KlStreamWrite.unsent, KlStreamWrite.setBlocked, KlStreamWrite.setQueue,
      KlDrain.append_buf]
    cases hq : w.sendInflight && !w.submitting && !w.inflightCopying with
    | true =>
      have hle : w.inflightLen ≤ w.wq.buf.length := by
        simp only [Bool.and_eq_true, Bool.not_eq_true'] at hq
        exact hw.len hq.1.1 (.inr hq.2)
      rw [cond_true, cond_true, drop_append_of_le_length hle]
    | false => rfl
  rw [length_append, ← hcount]
  simp only [KlStreamWrite.unacked, KlStreamWrite.setBlocked, KlStreamWrite.setQueue,
    KlDrain.append_buf, length_append]
  cases w.sendInflight && !w.submitting && w.inflightCopying with
  | true =>
    simp only [cond_true]
    omega
  | false =>
    simp only [cond_false]
    omega

section

variable (h : BytesInv adm han ack s.w (writeFrames st))
include h

theorem write (hw : WriteInv s.w (writeFrames st))
    (hno : ∀ f ∈ writeFrames st, f.isWriter = false) (src : SrcBuf) :
    After (BytesInv (adm ++ admittedBy ⟨s, .enter (.write src), s.write src⟩) han ack) st
      (s.write src) := by
  refine write_elim
    (Q := fun o => After (BytesInv (adm ++ admittedBy ⟨s, .enter (.write src), o⟩) han ack) st o)
    hw.inited hw.queue hw.error ?_ ?_ ?_ ?_ ?_ ?_
  · intro status hne _
    have : admittedBy ⟨s, .enter (.write src), .done s (.written status)⟩ = [] := by
      cases status <;> first | rfl | exact absurd rfl hne
    rw [this, append_nil]
    exact h
  · intro hnil
    simp only [admittedBy, hnil, append_nil]
    exact h
  · intro _ _ _
    simp only [admittedBy, append_nil]
    exact h.congr rfl rfl rfl rfl
  · intro data hsrc _ herr _ _ _
    rw [admittedBy_queued { s with
      w := (s.w.setQueue (s.w.wq.append data)).setBlocked false } herr, hsrc]
    exact pumpCompletion (h.append hw herr hno data)
  · intro data hsrc herr _ _ _
    rw [hsrc]
    exact h.append hw herr hno data
  intro data hsrc herr hsub _ hnil
  have hi : s.w.sendInflight = false := by
    cases hi : s.w.sendInflight with
    | false => rfl
    | true => simp [(hw.inflight hi).1] at hsub
  obtain ⟨hbytes, hcount⟩ := h.quiet hno herr
  rw [KlStreamWrite.unsent_of_idle hi, hnil] at hbytes
  rw [KlStreamWrite.unacked_of_idle hi, hnil] at hcount
  refine .call rfl (of_ok herr ?_ ?_ ?_ ?_)
  · simp only [admittedBy, hsrc, SrcBuf.data_bytes, KlStreamWrite.unsent_of_idle hi, hnil,
      flatMap_cons, offered_eq_nil hno, Frame.offered]
    simpa using hbytes
  · simp only [admittedBy, hsrc, SrcBuf.data_bytes, KlStreamWrite.unacked_of_idle hi, hnil,
      flatMap_cons, offered_eq_nil hno, Frame.offered, length_append]
    simpa using hcount
  · exact fun _ _ => hnil
  · rw [countP_cons, countP_eq_zero.mpr (by simpa using hno)]
    split <;> omega

theorem flushEdge {r : Int} : After (BytesInv adm han ack) st (s.flushEdge r) :=
  .flushEdge (fun _ => (cons_iff rfl).mpr (h.congr rfl rfl rfl rfl)) (fun _ => h)

theorem flush (hw : WriteInv s.w (writeFrames st))
    (hno : ∀ f ∈ writeFrames st, f.isWriter = false) :
    After (BytesInv adm han ack) st s.flush := by
  unfold KlStream.flush
  split
  · exact h
  rename_i he
  have herr : s.w.wqErr = false := by
    simp only [Bool.or_eq_true, not_or] at he
    simpa using he.2
  split_ifs
  · exact h
  · next hd => simp [hw.error hd] at herr
  · exact h.flushEdge
  refine .call rfl
    { bytes := by simpa [Frame.offered] using h.bytes
      count := by simpa [Frame.offered] using h.count
      taken := h.taken
      bound := h.bound
      writer := fun _ _ _ => herr
      direct := by simpa using h.direct
      one := ?_ }
  rw [countP_cons, countP_eq_zero.mpr (by simpa using hno)]
  split <;> omega

end

/-- A writer returned: it was the only one, and there was no error before. -/
theorem of_writer (h : BytesInv adm han ack w (f :: ws)) (hw : WriteInv w (f :: ws))
    (hf : f.isWriter = true) :
    (∀ g ∈ ws, g.isWriter = false) ∧ adm = han ++ w.wq.buf ++ f.offered ∧
      ack + w.wq.buf.length + f.offered.length = adm.length ∧ w.sendInflight = false ∧
      w.wqErr = false := by
  obtain ⟨-, hi⟩ := hw.readiness hf
  have herr := h.writer f (mem_cons_self ..) hf
  have hno : ∀ g ∈ ws, g.isWriter = false := by
    have := h.one
    rw [countP_cons_of_pos hf] at this
    have hz : ws.countP Frame.isWriter = 0 := by omega
    simpa using countP_eq_zero.mp hz
  have hbytes := h.bytes herr
  have hcount := h.count herr
  rw [KlStreamWrite.unsent_of_idle hi, flatMap_cons, offered_eq_nil hno, append_nil] at hbytes
  rw [KlStreamWrite.unacked_of_idle hi, flatMap_cons, offered_eq_nil hno, append_nil] at hcount
  exact ⟨hno, hbytes, hcount, hi, herr⟩

theorem took_of_fail {n : Int} (h : n < 0 ∨ l.length < n.toNat) : took n l = [] := by
  unfold took
  rcases h with h | h
  · rw [Int.toNat_of_nonpos (Int.le_of_lt h)]
    simp
  · rw [if_pos h]

theorem took_of_le {n : Int} (h : n.toNat ≤ l.length) : took n l = l.take n.toNat := by
  unfold took
  rw [if_neg (by omega)]

theorem flushPushed (h : BytesInv adm han ack s.w (.flushPush :: writeFrames st))
    (hw : WriteInv s.w (.flushPush :: writeFrames st)) (n : Int) (o : SOut) :
    After (BytesInv adm (han ++ handedBy ⟨s, .resume .flushPush n, o⟩)
      (ack + ackedBy ⟨s, .resume .flushPush n, o⟩)) st (s.flushPushed n) := by
  obtain ⟨hno, hbytes, hcount, hi, herr⟩ := h.of_writer hw rfl
  simp only [Frame.offered, append_nil, length_nil, Nat.add_zero] at hbytes hcount
  simp only [handedBy, ackedBy]
  -- what the writer took, and what is left in the queue
  have hsplit (hle : n.toNat ≤ s.w.wq.buf.length) :
      adm = han ++ took n s.w.wq.buf ++ s.w.wq.buf.drop n.toNat ∧
        ack + (took n s.w.wq.buf).length + (s.w.wq.buf.drop n.toNat).length = adm.length := by
    rw [took_of_le hle, append_assoc, take_append_drop]
    refine ⟨hbytes, ?_⟩
    simp only [length_take, length_drop]
    omega
  obtain ⟨heq, hf⟩ | ⟨heq, hle⟩ | ⟨heq, hle, -⟩ := flushPushed_cases s n
  · rw [heq, took_of_fail hf, append_nil]
    refine flushEdge ?_
    refine of_err rfl h.taken ?_ hno
    rw [KlStreamWrite.unacked_of_idle (by exact hi)]
    exact Nat.le_of_eq hcount
  · rw [heq]
    refine flushEdge ?_
    exact of_idle hno herr hi (hsplit hle).1 (hsplit hle).2
  · rw [heq]
    refine .call rfl (of_ok herr ?_ ?_ ?_ h.one)
    · rw [KlStreamWrite.unsent_of_idle (by exact hi), flatMap_cons, offered_eq_nil hno]
      simpa [Frame.offered] using (hsplit hle).1
    · rw [KlStreamWrite.unacked_of_idle (by exact hi), flatMap_cons, offered_eq_nil hno]
      simpa [Frame.offered] using (hsplit hle).2
    · intro data hd
      rcases mem_cons.mp hd with hd | hd
      · cases hd
      · simpa [Frame.isWriter] using hno _ hd

theorem writeSent (h : BytesInv adm han ack s.w (.writeDirect data :: writeFrames st))
    (hw : WriteInv s.w (.writeDirect data :: writeFrames st)) (n : Int) (o : SOut) :
    After (BytesInv adm (han ++ handedBy ⟨s, .resume (.writeDirect data) n, o⟩)
      (ack + ackedBy ⟨s, .resume (.writeDirect data) n, o⟩)) st (s.writeSent data n) := by
  obtain ⟨hno, hbytes, hcount, hi, herr⟩ := h.of_writer hw rfl
  have hnil := h.direct data (mem_cons_self ..)
  simp only [Frame.offered, hnil, append_nil, length_nil, Nat.add_zero] at hbytes hcount
  simp only [handedBy, ackedBy]
  unfold KlStream.writeSent
  obtain ⟨heq, hf⟩ | ⟨heq, hle⟩ | ⟨heq, hle⟩ := KlDrain.reserveWriteSent_cases s.w.wq data n
  · rw [heq, took_of_fail hf, append_nil]
    refine of_err rfl h.taken ?_ hno
    rw [KlStreamWrite.unacked_of_idle (by exact hi)]
    simpa [writeReserved, hnil] using Nat.le_of_add_right_le (Nat.le_of_eq hcount)
  · rw [heq, took_of_le (by omega), hle, take_length]
    exact of_idle (w := s.w.setBlocked false) hno herr hi (by simpa [hnil] using hbytes)
      (by simpa [hnil] using hcount)
  · rw [heq, took_of_le (by omega)]
    refine of_idle (w := (s.w.setQueue (s.w.wq.setBuf (data.drop n.toNat))).setBlocked false) hno
      herr hi ?_ ?_
    · simpa using hbytes
    · simp only [KlStreamWrite.setBlocked, KlStreamWrite.setQueue, KlDrain.setBuf,
        length_take, length_drop]
      omega

end BytesInv

theorem flatMap_offered_writeFrames (st : List Frame) :
    (writeFrames st).flatMap Frame.offered = st.flatMap Frame.offered := by
  induction st with
  | nil => rfl
  | cons f st ih => cases f <;> simp_all [writeFrames, Frame.facet, Frame.offered]

/-- While the readiness writer runs, nobody starts another write or flush. -/
def WriterQuiet (c : SConfig) : SAct → Prop
  | .call op => op.sends = true → ∀ f ∈ c.stack, f.isWriter = false
  | .ret _ => True

instance (c : SConfig) : ∀ a, Decidable (WriterQuiet c a)
  | .call op => inferInstanceAs (Decidable (op.sends = true → ∀ f ∈ c.stack, f.isWriter = false))
  | .ret _ => inferInstanceAs (Decidable True)

/-- The two invariants of the write side together. -/
def WriteBytes (tr : List SStep) (s : KlStream) (st : List Frame) : Prop :=
  WriteInv s.w (writeFrames st) ∧ BytesInv (admitted tr) (handed tr) (acked tr) s.w (writeFrames st)

theorem WriteBytes.start (u : Setup) : WriteBytes [] u.stream [] := ⟨.start u, .start u⟩

theorem WriteBytes.preserves {P : SConfig → SAct → Prop} (hP : ∀ c a, P c a → WriterQuiet c a) :
    machine.Preserves P WriteBytes := by
  refine (WriteInv.preserves P).strengthen ?_ ?_
  · intro tr s st op hw h hp
    show After (BytesInv _ _ _) st (enter op s)
    simp only [admitted_append, handed_append, acked_append]
    by_cases hop : op.facet = .write
    · have hno (hq : ∀ f ∈ st, f.isWriter = false) : ∀ f ∈ writeFrames st, f.isWriter = false :=
        fun f hf => hq f (mem_of_mem_filter hf)
      cases op with
      | write src =>
        simp only [handedBy, ackedBy, append_nil, Nat.add_zero]
        exact h.write hw (hno (hP _ _ hp rfl)) src
      | flush =>
        simp only [admittedBy, handedBy, ackedBy, append_nil, Nat.add_zero]
        exact h.flush hw (hno (hP _ _ hp rfl))
      | onWriteComplete ok =>
        simp only [admittedBy, handedBy, append_nil]
        exact h.onWriteComplete hw ok _
      | _ => cases hop
    · have := After.enter_other hop h
      cases op <;> first | exact absurd rfl hop | simpa [admittedBy, handedBy, ackedBy] using this
  intro tr s st f v hw h _
  show After (BytesInv _ _ _) st (afterHook f v s)
  simp only [admitted_append, handed_append, acked_append]
  have hadm : admittedBy ⟨s, .resume f v, afterHook f v s⟩ = [] := rfl
  rw [show machine.resume = afterHook from rfl, hadm, append_nil]
  by_cases hf : f.facet = .write
  · have hw : WriteInv s.w (f :: writeFrames st) := by simpa [writeFrames, hf] using hw
    have h : BytesInv (admitted tr) (handed tr) (acked tr) s.w (f :: writeFrames st) := by
      simpa [writeFrames, hf] using h
    cases f with
    | writeDirect data => exact h.writeSent hw v _
    | flushPush => exact h.flushPushed hw v _
    | submit len k => exact h.submitted hw v _
    | flushWritable r =>
      simp only [handedBy, ackedBy, append_nil, Nat.add_zero]
      exact .onRetire (((BytesInv.cons_iff rfl).mp h).congr rfl rfl rfl rfl)
    | completeWritable r =>
      simp only [handedBy, ackedBy, append_nil, Nat.add_zero]
      exact .onRetire (((BytesInv.cons_iff rfl).mp h).congr rfl rfl rfl rfl)
    | _ => cases hf
  · have := After.afterHook_other v hf h
    cases f <;> first | exact absurd rfl hf | simpa [handedBy, ackedBy] using this

theorem WriteBytes.of_reach {u : Setup} {c : SConfig} (hc : machine.Reach WriterQuiet u.stream c) :
    WriteBytes c.trace c.state c.stack :=
  hc.invariant (.start u) (WriteBytes.preserves fun _ _ h => h)

end KlStream
