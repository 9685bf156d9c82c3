-- SUMMARY: Compressed responses, and no others, are labelled with an encoding.
import Keel.Http.ResponseStream

open Message

/-- A session of a compressor. -/
structure KlCompress where
  /-- `compress_vtable_valid`. -/
  valid : Bool
  compress : List UInt8 → Option (List UInt8)
  encoding : Option (List UInt8)

namespace KlHttpResponse

variable (res : KlHttpResponse)

/-- `add_encoding_headers`. A flag says whether the header buffer could grow for a header. -/
def addEncodingHeaders (enc : Option (List UInt8)) (room room' : Bool) : KlHttpResponse × Int :=
  let cut (out : KlHttpResponse) : KlHttpResponse × Int :=
    ({ out with hdrBuf := out.hdrBuf.take res.hdrBuf.length }, -1)
  match enc with
  | none => cut res
  | some enc =>
    let (out, rc) := res.header (ascii "Content-Encoding") enc room
    if rc < 0 then cut out
    else
      let (out, rc) := out.header (ascii "Vary") (ascii "Accept-Encoding") room'
      if rc < 0 then cut out else (out, 0)

/-- `kl_http_response_body_compress`. The factory is not set, or it is, and makes a session or
fails. -/
def bodyCompress (factory : Option (Option KlCompress)) (data : SrcBuf) (room room' : Bool) :
    KlHttpResponse × Int :=
  match factory, data with
  | none, _ | some _, .null (_ + 1) => (res, -1)
  | some _, .null 0 | some _, .bytes [] => ({ res with bodyMode := .buffer, body := [] }, 0)
  | some none, _ => (res, -1)
  | some (some comp), .bytes data =>
    if !comp.valid then (res, -1)
    else match comp.compress data with
      | none => (res, -1)
      | some body =>
        if data.length ≤ body.length then ({ res with bodyMode := .buffer, body := data }, 0)
        else
          let (out, rc) := res.addEncodingHeaders comp.encoding room room'
          if rc < 0 then (out, -1) else ({ out with bodyMode := .buffer, body }, 0)

variable {σ : Type} (t : Transport σ) (fuel : Nat) (s : σ)

/-- `kl_http_compress_stream_begin`, with the session that the stream gets. -/
def compressStreamBegin (res : KlHttpResponse) (factory : Option (Option KlCompress)) (status : Int)
    (room room' room'' : Bool) : Option (StreamOut σ × Option KlCompress) :=
  match factory.join with
  | none => some ({ env := s, res, rc := -1 }, none)
  | some comp =>
    if !comp.valid then some ({ env := s, res, rc := -1 }, none)
    else
      let (out, rc) := res.addEncodingHeaders comp.encoding room room'
      if rc < 0 then some ({ env := s, res := out, rc := -1 }, none)
      else (beginStream t fuel s out status room'').map fun out =>
        (out, if out.rc < 0 then none else some comp)

/-- The lines of `add_encoding_headers`. -/
def encodingLines (enc : List UInt8) : List UInt8 :=
  headerText (ascii "Content-Encoding") enc ++ crlf ++
    (headerText (ascii "Vary") (ascii "Accept-Encoding") ++ crlf)

def chunkedLine : List UInt8 := headerText (ascii "Transfer-Encoding") (ascii "chunked") ++ crlf

variable {t fuel s}

theorem addEncodingHeaders_cases (enc : Option (List UInt8)) (room room' : Bool) :
    (∃ e, (enc = some e ∧ containsCrlf e = false ∧ room = true ∧ room' = true) ∧
      res.addEncodingHeaders enc room room' =
        ({ res with hdrBuf := res.hdrBuf ++ encodingLines e }, 0)) ∨
    (¬∃ e, enc = some e ∧ containsCrlf e = false ∧ room = true ∧ room' = true) ∧
      res.addEncodingHeaders enc room room' = (res, -1) := by
  cases enc with
  | none => exact .inr ⟨nofun, by simp [addEncodingHeaders]⟩
  | some e =>
    have hnames : containsCrlf (ascii "Content-Encoding") = false ∧
        containsCrlf (ascii "Vary") = false ∧
      containsCrlf (ascii "Accept-Encoding") = false := by decide
    cases he : containsCrlf e <;> cases room <;> cases room'
    case false.true.true =>
      exact .inl ⟨e, ⟨rfl, he, rfl, rfl⟩, by simp [addEncodingHeaders, header, hnames, he,
        encodingLines]⟩
    all_goals exact .inr ⟨by simp [he], by simp [addEncodingHeaders, header, hnames, he]⟩

variable (t fuel s)

/-- The transport takes the head of a response: the drain keeps what cannot be sent at once, and
without a drain all of it is written. -/
def HeadTaken : Prop :=
  if res.drainEnabled then
    (writeParts (drainEnv t res.tls) { env := s, drain := res.drain } res.headParts).failed = false
  else ∀ out, streamWritevAll t res.tls fuel s res.headParts = some out → 0 ≤ out.rc

/-- The response has a wire and room for the Transfer-Encoding line, and the transport takes its
head. -/
def CanStream (status : Int) (room : Bool) : Prop :=
  res.resHasWire = true ∧ room = true ∧ (res.prepareStream status room).1.HeadTaken t fuel s

variable {t fuel s res}

theorem prepareStream_cases (res : KlHttpResponse) (status : Int) (room : Bool) :
    (res.resHasWire = true ∧ room = true ∧ (res.prepareStream status room).2 = true ∧
      (res.prepareStream status room).1.hdrBuf = res.hdrBuf ++ chunkedLine) ∨
    ¬(res.resHasWire = true ∧ room = true) ∧ (res.prepareStream status room).2 = false ∧
      (res.prepareStream status room).1.hdrBuf = res.hdrBuf := by
  have hnames : containsCrlf (ascii "Transfer-Encoding") = false ∧ containsCrlf (ascii "chunked") =
      false := by
    decide
  cases hwire : res.resHasWire with
  | false => exact .inr ⟨nofun, by simp [prepareStream, hwire], by simp [prepareStream, hwire]⟩
  | true =>
    cases room with
    | false =>
      refine .inr ⟨by simp, ?_, ?_⟩ <;> simp [prepareStream, hwire, header, hnames]
    | true =>
      have hline : { res with bodyMode := .stream, status }.header (ascii "Transfer-Encoding")
          (ascii "chunked") true =
            ({ res with bodyMode := .stream, status, hdrBuf := res.hdrBuf ++ chunkedLine }, 0) := by
        simp [header, hnames, chunkedLine]
      have hprep : (res.prepareStream status true).2 = true ∧
          (res.prepareStream status true).1.hdrBuf = res.hdrBuf ++ chunkedLine := by
        simp only [prepareStream, hwire, hline, enableDrain]
        split_ifs <;> simp_all
      exact .inl ⟨rfl, rfl, hprep⟩

/-- The stream begins exactly if it can. The header block keeps the lines it had, either way. -/
theorem beginStream_spec {status : Int} {room : Bool} {out : StreamOut σ}
    (h : beginStream t fuel s res status room = some out) :
    (res.CanStream t fuel s status room ∧ 0 ≤ out.rc ∧ out.res.hdrBuf = res.hdrBuf ++ chunkedLine) ∨
    ¬res.CanStream t fuel s status room ∧ out.rc = -1 ∧ res.hdrBuf <+: out.res.hdrBuf := by
  unfold beginStream at h
  unfold CanStream HeadTaken
  have hcases := prepareStream_cases res status room
  generalize res.prepareStream status room = prep at h hcases ⊢
  obtain ⟨prep, ok⟩ := prep
  rcases hcases with ⟨hwire, hroom, rfl, hhdr⟩ | ⟨hno, rfl, hhdr⟩
  · simp only [hwire, hroom, true_and] at h hhdr ⊢
    rw [← hhdr]
    have hkept : res.hdrBuf <+: prep.hdrBuf := hhdr ▸ List.prefix_append _ _
    split at h
    · next hdrain =>
      obtain rfl := Option.some.inj h
      simp only [hdrain, if_true, StreamOut.begun, drained]
      cases (writeParts _ _ prep.headParts).failed with
      | true => exact .inr ⟨by simp, rfl, hkept⟩
      | false => exact .inl ⟨rfl, Int.le_refl 0, rfl⟩
    · next hdrain =>
      obtain ⟨sent, hsent, rfl⟩ := Option.map_eq_some_iff.mp h
      simp only [hdrain, if_neg Bool.false_ne_true, hsent, Option.some.injEq, forall_eq',
        StreamOut.begun]
      by_cases hrc : sent.rc < 0
      · exact .inr ⟨by simpa using hrc, by simp [hrc], by simpa [hrc] using hkept⟩
      · exact .inl ⟨by simpa using hrc, by simp [hrc], by simp [hrc]⟩
  · obtain rfl := Option.some.inj h
    exact .inr ⟨fun hcan => hno ⟨hcan.1, hcan.2.1⟩, rfl, hhdr ▸ List.prefix_refl _⟩

theorem encodingLines_ne_nil (enc : List UInt8) : encodingLines enc ≠ [] := by
  simp [encodingLines, crlf]

/-- The buffered call adds the lines of the encoding with a body that is the compressor's output,
and leaves the header block alone in every other case. -/
theorem bodyCompress_cases (res : KlHttpResponse) (factory : Option (Option KlCompress))
    (data : SrcBuf) (room room' : Bool) : let out := res.bodyCompress factory data room room'
    (∃ comp body enc, factory = some (some comp) ∧ comp.compress data.data = some body ∧
      body.length < data.len ∧ comp.encoding = some enc ∧
      out = ({ res with hdrBuf := res.hdrBuf ++ encodingLines enc, bodyMode := .buffer, body },
        0)) ∨
    out.1.hdrBuf = res.hdrBuf ∧ (out.2 = 0 → out.1.bodyMode = .buffer ∧
      out.1.body = data.data) := by
  have hfail {p : Prop} (h : (-1 : Int) = 0) : p := absurd h (by decide)
  dsimp only
  unfold bodyCompress
  split
  · exact .inr ⟨rfl, hfail⟩
  · exact .inr ⟨rfl, hfail⟩
  · exact .inr ⟨rfl, fun _ => ⟨rfl, rfl⟩⟩
  · exact .inr ⟨rfl, fun _ => ⟨rfl, rfl⟩⟩
  · exact .inr ⟨rfl, hfail⟩
  next comp data _ =>
  split
  · exact .inr ⟨rfl, hfail⟩
  split
  · exact .inr ⟨rfl, hfail⟩
  next body hbody =>
  split
  · exact .inr ⟨rfl, fun _ => ⟨rfl, rfl⟩⟩
  next hless =>
  rcases res.addEncodingHeaders_cases comp.encoding room room' with ⟨enc, henc, heq⟩ | ⟨-, heq⟩
  · rw [heq]
    exact .inl ⟨comp, body, enc, rfl, hbody, Nat.lt_of_not_le hless, henc.1, rfl⟩
  · rw [heq]
    exact .inr ⟨rfl, hfail⟩

/-- What a call of `kl_http_compress_stream_begin` should do: it adds the lines of the encoding and
the stream gets the session, or it fails and the header block is what it was. -/
def Labelled (res : KlHttpResponse) (factory : Option (Option KlCompress))
    (out : StreamOut σ × Option KlCompress) : Prop :=
  (∃ comp enc, factory = some (some comp) ∧ comp.encoding = some enc ∧ out.2 = some comp ∧
    0 ≤ out.1.rc ∧ out.1.res.hdrBuf = res.hdrBuf ++ encodingLines enc ++ chunkedLine) ∨
  out.2 = none ∧ out.1.rc = -1 ∧ out.1.res.hdrBuf = res.hdrBuf

/-- The buffered call labels the bodies that are compressed, and no others. The streaming one does
so exactly when a response that got the two lines can stream. -/
theorem encoding_labels_compressed (res : KlHttpResponse) (factory : Option (Option KlCompress))
    (room room' : Bool) :
    (∀ data, let out := res.bodyCompress factory data room room'
      (∃ comp body enc, factory = some (some comp) ∧ comp.compress data.data = some body ∧
        body.length < data.len ∧ comp.encoding = some enc ∧
        out = ({ res with hdrBuf := res.hdrBuf ++ encodingLines enc, bodyMode := .buffer, body },
          0)) ∨
      out.1.hdrBuf = res.hdrBuf ∧ (out.2 = 0 → out.1.bodyMode = .buffer ∧ out.1.body = data.data)) ∧
    ∀ (t : Transport σ) (fuel : Nat) (s : σ) (status : Int) (room'' : Bool) out,
      compressStreamBegin t fuel s res factory status room room' room'' = some out →
      (Labelled res factory out ↔ ∀ comp enc, factory = some (some comp) → comp.valid = true →
        comp.encoding = some enc ∧ containsCrlf enc = false ∧ room = true ∧ room' = true →
        { res with hdrBuf := res.hdrBuf ++ encodingLines enc }.CanStream t fuel s status
        room'') := by
  refine ⟨fun data => bodyCompress_cases res factory data room room', ?_⟩
  intro t fuel s status room'' out hout
  unfold compressStreamBegin at hout
  split at hout
  · next hnone =>
    obtain rfl := Option.some.inj hout
    refine iff_of_true (.inr ⟨rfl, rfl, rfl⟩) fun comp enc hfactory => ?_
    rw [hfactory] at hnone
    cases hnone
  next comp hcomp =>
  have hfactory := Option.join_eq_some_iff.mp hcomp
  split at hout
  · next hinvalid =>
    obtain rfl := Option.some.inj hout
    refine iff_of_true (.inr ⟨rfl, rfl, rfl⟩) fun comp' enc hfactory' hvalid => ?_
    obtain rfl : comp = comp' := by simpa [hfactory] using hfactory'
    simp [hvalid] at hinvalid
  next hvalid =>
  rcases res.addEncodingHeaders_cases comp.encoding room room' with ⟨enc, henc, heq⟩ | ⟨hno, heq⟩
  · rw [heq] at hout
    obtain ⟨out, hbegin, rfl⟩ := Option.map_eq_some_iff.mp hout
    rcases beginStream_spec hbegin with ⟨hcan, hrc, hhdr⟩ | ⟨hcan, hrc, hhdr⟩
    · refine iff_of_true (.inl ⟨comp, enc, hfactory, henc.1, if_neg (Int.not_lt.mpr hrc), hrc,
        hhdr⟩) ?_
      intro comp' enc' hfactory' _ henc'
      obtain rfl : comp = comp' := by simpa [hfactory] using hfactory'
      obtain rfl := Option.some.inj (henc.1.symm.trans henc'.1)
      exact hcan
    · refine iff_of_false ?_ fun hall => hcan (hall comp enc hfactory (by simpa using hvalid) henc)
      rintro (⟨_, _, _, _, _, hok, _⟩ | ⟨_, _, hsame⟩)
      · exact absurd hok (by simp [hrc])
      · -- the two lines are still there
        have hpos := List.length_pos_iff.mpr (encodingLines_ne_nil enc)
        have hle : (res.hdrBuf ++ encodingLines enc).length ≤ res.hdrBuf.length :=
          hsame ▸ hhdr.length_le
        rw [List.length_append] at hle
        omega
  · rw [heq] at hout
    obtain rfl := Option.some.inj hout
    refine iff_of_true (.inr ⟨rfl, rfl, rfl⟩) fun comp' enc hfactory' _ henc => ?_
    obtain rfl : comp = comp' := by simpa [hfactory] using hfactory'
    exact absurd ⟨enc, henc⟩ hno

/-- A compressor whose output is empty. -/
def gzip : KlCompress := ⟨true, fun _ => some [], some (ascii "gzip")⟩

/-- A response with a wire and a drain that takes everything. -/
theorem encoding_labels_compressed_gzip :
    let res : KlHttpResponse := { connFd := true, drainEnabled := true }
    ∃ out, compressStreamBegin eager 2 () res (some (some gzip)) 200 true true true = some out ∧
      out.1.rc = 0 ∧ Labelled res (some (some gzip)) out := by
  intro res
  refine ⟨_, rfl, by decide +kernel, ?_⟩
  refine ((encoding_labels_compressed res (some (some gzip)) true true).2 eager 2
    () 200 true _ rfl).mpr ?_
  rintro _ _ ⟨⟩ - ⟨⟨⟩, -⟩
  refine ⟨rfl, rfl, ?_⟩
  show (writeParts _ _ _).failed = false
  decide +kernel

/-- A response without a wire cannot stream, and keeps the two lines for the body it gets instead.
-/
theorem encoding_left_behind :
    ∃ out, compressStreamBegin eager 2 () {} (some (some gzip)) 200 true true true = some out ∧
      out.2 = none ∧ out.1.rc = -1 ∧ out.1.res.hdrBuf = encodingLines (ascii "gzip") :=
  ⟨_, rfl, rfl, rfl, rfl⟩

end KlHttpResponse
