-- SUMMARY: The multipart reader gives back the parts of an encoded form.
import Keel.Http.MultipartEncoding

/-!
# The round trip of a form

One push of the encoding is read part by part: the header block ends at the first empty line,
and the body at the first delimiter, because a delimiter has its CR in front only and so
cannot start inside a body and reach into the delimiter behind it. The caps never change what
is read, they only stop it; so a run that no cap stopped is a run without caps, and that one
does not depend on the cuts.
-/

open Message WordSearch Multipart List

namespace KlHttpMultipartReader

variable {mr : KlHttpMultipartReader} {boundary block rest : List UInt8} {p : FormPart}
  {part : KlHttpMultipartPartMeta}

/-! ## One part -/

/-- A line end behind a boundary starts a header block. -/
theorem next_crlf (h : mr.Ready) (hs : mr.state = .afterBoundary) (hin : mr.input = crlf ++ rest)
    (hcount : mr.config.maxParts = 0 ∨ mr.partsBegun < mr.config.maxParts) :
    mr.next = (mr.startHeaders rest).next := by
  have hcount : ¬(mr.config.maxParts ≠ 0 ∧ mr.config.maxParts ≤ mr.partsBegun) := by omega
  rw [next_afterBoundary h hs, next_headers (h.startHeaders rest) rfl]
  unfold nextAfterBoundary
  rw [hin]
  show (if (13 : UInt8) = 45 ∧ (10 : UInt8) = 45 then _
    else if (13 : UInt8) = 13 ∧ (10 : UInt8) = 10 then _ else _) = _
  rw [if_neg (by decide), if_pos (by decide), if_neg hcount]
  rfl

/-- A header block that fits is read whole, and what was copied beyond it is put back. -/
theorem next_block (h : mr.Ready) (hs : mr.state = .headers) (hhdr : mr.hdr = [])
    (hin : mr.input = block ++ rest)
    (hfour : 4 ≤ block.length) (hfind : ∀ b, find crlfCrlf (block ++ b) = some (block.length - 4))
    (hparse : parseHeaders block = some part)
    (hcap : mr.config.maxHeadersSize = 0 ∨ block.length ≤ mr.config.maxHeadersSize)
    (hsize : mr.input.length ≤ SIZE_MAX)
    (hbuffer : mr.config.maxInputBuffer = 0 ∨ mr.input.length ≤ mr.config.maxInputBuffer) :
    mr.next = (mr.startPart rest, .partBegin part) := by
  have hlen : mr.input.length = block.length + rest.length := by rw [hin, length_append]
  have hfull : ¬mr.HeaderFull := by
    unfold HeaderFull
    rw [hhdr, length_nil]
    omega
  have hne : mr.input ≠ [] := by
    rw [← length_pos_iff_ne_nil]
    omega
  have hcopies : mr.Copies := ⟨h, hs, hne, hfull⟩
  have hwhole : mr.hdr ++ mr.input = block ++ rest := by
    rw [hhdr, hin]
    rfl
  have hcopylen := copies_to_cap hfull
  rw [hwhole, length_append] at hcopylen
  have hle : block.length ≤ mr.copied.length := by
    split at hcopylen <;> omega
  obtain ⟨x, hcopied⟩ : block <+: mr.copied := by
    refine prefix_of_prefix_length_le (prefix_append block rest) ?_ hle
    rw [copied_eq, hwhole]
    exact take_prefix _ _
  have hfits : mr.HeaderFits := by
    rw [headerFits_iff]
    split at hcopylen <;> omega
  have hback : mr.PutsBack block.length := by
    rw [putsBack_iff hle, hwhole, length_append]
    omega
  have hblock : mr.copied.take block.length = block := by
    rw [← hcopied]
    exact take_left
  have hrest : (mr.hdr ++ mr.input).drop block.length = rest := by
    rw [hwhole]
    exact drop_left
  have hend : find crlfCrlf mr.copied = some (block.length - 4) := by
    rw [← hcopied]
    exact hfind _
  rw [hcopies.next hfits, hend]
  show mr.beginPart mr.copied mr.uncopied (block.length - 4 + 4) = _
  rw [Nat.sub_add_cancel hfour, beginPart_eq hle hback, hblock, hrest, hparse]

theorem next_delimiter (h : mr.Ready) (hs : mr.state = .body)
    (hin : mr.input = mr.delimiter ++ rest) :
    mr.next = ({ mr with input := rest, state := .afterBoundary }, .partEnd) := by
  have hfour := h.delimiter
  have hfind : find mr.delimiter mr.input = some 0 := by
    rw [hin]
    exact find_self _ _
  have hne : ¬mr.input.length = 0 := by
    rw [hin, length_append]
    omega
  have hdrop : mr.input.drop mr.delimiter.length = rest := by
    rw [hin]
    exact drop_left
  rw [next_body h hs]
  unfold nextBody
  rw [if_neg hne, hfind]
  show ({ mr with input := mr.input.drop mr.delimiter.length, state := .afterBoundary }, _) = _
  rw [hdrop]

/-- The reader behind the delimiter that ends a body of `n` bytes. -/
def ended (mr : KlHttpMultipartReader) (n : Nat) (rest : List UInt8) : KlHttpMultipartReader :=
  { mr.emitted n with input := rest, state := .afterBoundary }

/-- A body that fits is handed out up to the first delimiter. -/
theorem pull_bytes (h : mr.Ready) (hs : mr.state = .body) {body : List UInt8}
    (hin : mr.input = body ++ (mr.delimiter ++ rest))
    (hfind : find mr.delimiter mr.input = some body.length)
    (hcap : mr.config.maxPartSize = 0 ∨ mr.currentPartSize + body.length ≤ mr.config.maxPartSize) :
    mr.pull = (mr.ended body.length rest).pull.after (body.map .byte ++ [.finish]) := by
  have htake : mr.input.take body.length = body := by
    rw [hin]
    exact take_left
  have hrest : (mr.emitted body.length).input = (mr.emitted body.length).delimiter ++ rest := by
    show mr.input.drop body.length = mr.delimiter ++ rest
    rw [hin]
    exact drop_left
  have hend : (mr.emitted body.length).pull = (mr.ended body.length rest).pull.after [.finish] :=
    pull_of_more (h.emitted body.length).pos (next_delimiter (h.emitted body.length) hs hrest) rfl
  have hbytes : mr.pull = (mr.emitted body.length).pull.after (body.map .byte) := by
    by_cases hzero : body.length = 0
    · have hsame : mr.emitted 0 = mr := rfl
      rw [hzero, hsame, length_eq_zero_iff.mp hzero]
      rfl
    · have hemit := pull_emit h (next_body_some h hs hfind hzero) (partFits_iff.mpr hcap)
      rw [htake] at hemit
      exact hemit
  rw [hbytes, hend, after_after]

/-- The caps leave room for the part that starts here. -/
structure PartFits (mr : KlHttpMultipartReader) (p : FormPart) : Prop where
  count : mr.config.maxParts = 0 ∨ mr.partsBegun < mr.config.maxParts
  headers : mr.config.maxHeadersSize = 0 ∨ p.headerBlock.length ≤ mr.config.maxHeadersSize
  body : mr.config.maxPartSize = 0 ∨ p.body.length ≤ mr.config.maxPartSize
  held : mr.input.length ≤ SIZE_MAX
  input : mr.config.maxInputBuffer = 0 ∨ mr.input.length ≤ mr.config.maxInputBuffer

/-- The reader behind a part. -/
def afterPart (mr : KlHttpMultipartReader) (n : Nat) (rest : List UInt8) : KlHttpMultipartReader :=
  ((mr.startHeaders []).startPart []).ended n rest

theorem Ready.afterPart (h : mr.Ready) (n : Nat) (rest : List UInt8) :
    (mr.afterPart n rest).Ready :=
  { h with running := ⟨by rintro ⟨⟩, by rintro ⟨⟩⟩ }

/-- The delimiter holds its CR in front only. -/
theorem not_cr_delimiter (h : ValidBoundary boundary) : 13 ∉ [10, 45, 45] ++ boundary :=
  FormPart.not_cr_append (by decide) h.plain.not_cr

/-- One part of an encoded form. -/
theorem pull_part (h : mr.Ready) (hs : mr.state = .afterBoundary) (hb : ValidBoundary boundary)
    (hdel : mr.delimiter = delimiterOf boundary)
    (hin : mr.input = crlf ++ (p.headerBlock ++ (p.body ++ (delimiterOf boundary ++ rest))))
    (he : p.Encodable boundary) (hr : p.Restorable) (hfits : mr.PartFits p) :
    mr.pull = (mr.afterPart p.body.length rest).pull.after p.items := by
  let m := mr.startHeaders (p.headerBlock ++ (p.body ++ (delimiterOf boundary ++ rest)))
  have hm : m.Ready := h.startHeaders _
  have hmlen : m.input.length ≤ mr.input.length := by
    rw [hin]
    exact (sublist_append_right crlf _).length_le
  have hblock : m.next = (m.startPart (p.body ++ (delimiterOf boundary ++ rest)),
      .partBegin p.head) := by
    refine next_block hm rfl rfl rfl p.four_le_headerBlock (FormPart.find_headerBlock he)
      (FormPart.parseHeaders_headerBlock he hr) hfits.headers (hmlen.trans hfits.held) ?_
    exact hfits.input.imp_right hmlen.trans
  have hnext := (next_crlf h hs hin hfits.count).trans hblock
  let m' := m.startPart (p.body ++ (delimiterOf boundary ++ rest))
  have hm' : m'.Ready := { h with running := ⟨by rintro ⟨⟩, by rintro ⟨⟩⟩ }
  have hfind : find m'.delimiter m'.input = some p.body.length := by
    show find mr.delimiter (p.body ++ (delimiterOf boundary ++ rest)) = _
    rw [hdel]
    exact find_written (not_cr_delimiter hb) (find_eq_none he.body) rest
  have hin' : m'.input = p.body ++ (m'.delimiter ++ rest) := by
    show p.body ++ (delimiterOf boundary ++ rest) = p.body ++ (mr.delimiter ++ rest)
    rw [hdel]
  have hcap : m'.config.maxPartSize = 0 ∨ m'.currentPartSize + p.body.length ≤
      m'.config.maxPartSize := by
    have hzero : m'.currentPartSize = 0 := rfl
    rw [hzero, Nat.zero_add]
    exact hfits.body
  rw [pull_of_more h.pos hnext rfl, pull_bytes hm' rfl hin' hfind hcap, after_after]
  rfl

/-! ## One push of a form -/

/-- The caps leave room for the parts of a form that are left. -/
structure FormFits (mr : KlHttpMultipartReader) (parts : List FormPart) : Prop where
  count : mr.config.maxParts = 0 ∨ mr.partsBegun + parts.length ≤ mr.config.maxParts
  headers : ∀ p ∈ parts, mr.config.maxHeadersSize = 0 ∨
    p.headerBlock.length ≤ mr.config.maxHeadersSize
  bodies : ∀ p ∈ parts, mr.config.maxPartSize = 0 ∨ p.body.length ≤ mr.config.maxPartSize
  held : mr.input.length ≤ SIZE_MAX
  input : mr.config.maxInputBuffer = 0 ∨ mr.input.length ≤ mr.config.maxInputBuffer

theorem next_close (h : mr.Ready) (hs : mr.state = .afterBoundary)
    (hin : mr.input = ascii "--" ++ rest) :
    mr.next = ({ mr with input := rest, state := .done }, .done) := by
  rw [next_afterBoundary h hs]
  unfold nextAfterBoundary
  rw [hin]
  rfl

theorem pull_parts {parts : List FormPart} (h : mr.Ready) (hs : mr.state = .afterBoundary)
    (hb : ValidBoundary boundary)
    (hdel : mr.delimiter = delimiterOf boundary) (hin : mr.input = afterBoundaryText boundary parts)
    (he : ∀ p ∈ parts, p.Encodable boundary) (hr : ∀ p ∈ parts, p.Restorable)
    (hfits : mr.FormFits parts) :
    ∃ mr', mr.pull = { items := parts.flatMap FormPart.items, reader := mr', last := .done } ∧
    mr'.Stopped .done .none := by
  induction parts generalizing mr with
  | nil =>
    have hnext := next_close h hs hin
    refine ⟨{ mr with input := crlf, state := .done }, ?_, .inr ⟨rfl, rfl⟩, h.clean⟩
    rw [pull_last (hnext ▸ rfl), hnext]
    rfl
  | cons p parts ih =>
    have hcount := hfits.count
    rw [length_cons] at hcount
    have hpart : mr.PartFits p :=
      { count := by omega, headers := hfits.headers p mem_cons_self,
        body := hfits.bodies p mem_cons_self, held := hfits.held, input := hfits.input }
    have hpull := pull_part h hs hb hdel hin (he p mem_cons_self) (hr p mem_cons_self) hpart
    have hlen : (afterBoundaryText boundary parts).length ≤ mr.input.length := by
      have htext : afterBoundaryText boundary (p :: parts) =
          crlf ++ (p.headerBlock ++
            (p.body ++ (delimiterOf boundary ++ afterBoundaryText boundary parts))) := rfl
      rw [hin, htext]
      simp only [length_append]
      omega
    have hleft : (mr.afterPart p.body.length (afterBoundaryText boundary parts)).FormFits parts :=
      { count := by
          show mr.config.maxParts = 0 ∨ mr.partsBegun + 1 + parts.length ≤ mr.config.maxParts
          omega
        headers := fun q hq => hfits.headers q (mem_cons_of_mem p hq)
        bodies := fun q hq => hfits.bodies q (mem_cons_of_mem p hq)
        held := hlen.trans hfits.held
        input := hfits.input.imp_right hlen.trans }
    obtain ⟨mr', hrest, hstopped⟩ :=
      ih (h.afterPart _ _) rfl hdel rfl (fun q hq => he q (mem_cons_of_mem p hq))
      (fun q hq => hr q (mem_cons_of_mem p hq)) hleft
    refine ⟨mr', ?_, hstopped⟩
    rw [hpull, hrest]
    rfl

/-- The caps leave room for a whole form that is held at once. -/
structure Holds (config : KlHttpMultipartConfig) (boundary : List UInt8) (parts : List FormPart) :
    Prop where
  count : config.maxParts = 0 ∨ parts.length ≤ config.maxParts
  headers : ∀ p ∈ parts, config.maxHeadersSize = 0 ∨ p.headerBlock.length ≤ config.maxHeadersSize
  bodies : ∀ p ∈ parts, config.maxPartSize = 0 ∨ p.body.length ≤ config.maxPartSize
  total : config.maxTotalSize = 0 ∨ (encodeForm boundary parts).length ≤ config.maxTotalSize
  input : config.maxInputBuffer = 0 ∨ (encodeForm boundary parts).length ≤ config.maxInputBuffer

section

variable {config : KlHttpMultipartConfig} {parts : List FormPart} {chunks : List (List UInt8)}

section

variable (hb : ValidBoundary boundary) (he : ∀ p ∈ parts, p.Encodable boundary)
  (hr : ∀ p ∈ parts, p.Restorable)
include hb he hr

theorem pull_form
    (hsize : (encodeForm boundary parts).length ≤ SIZE_MAX) (hfits : Holds config boundary parts) :
    ∃ mr', ((new boundary config).push (encodeForm boundary parts)).pull =
      { items := parts.flatMap FormPart.items, reader := mr', last := .done } ∧
      mr'.Stopped .done .none := by
  have hready := (new_waiting boundary config).1.push (encodeForm boundary parts)
  let m := (new boundary config).push (encodeForm boundary parts)
  have hin : m.input = (ascii "--" ++ boundary) ++ afterBoundaryText boundary parts :=
    encodeForm_eq boundary parts
  have hneedle : m.delimiter.drop 2 = ascii "--" ++ boundary := rfl
  have hfind : find (m.delimiter.drop 2) m.input = some 0 := by
    rw [hneedle, hin]
    exact find_self _ _
  have hpast : (m.pastPreamble 0).input = afterBoundaryText boundary parts := by
    show m.input.drop (0 + (m.delimiter.drop 2).length) = _
    rw [hneedle, hin, Nat.zero_add]
    exact drop_left
  have hlen : (afterBoundaryText boundary parts).length ≤ (encodeForm boundary parts).length := by
    rw [encodeForm_eq, length_append]
    exact Nat.le_add_left _ _
  have hleft : (m.pastPreamble 0).FormFits parts :=
    { count := by
        show config.maxParts = 0 ∨ 0 + parts.length ≤ config.maxParts
        rw [Nat.zero_add]
        exact hfits.count
      headers := hfits.headers
      bodies := hfits.bodies
      held := by
        rw [hpast]
        exact hlen.trans hsize
      input := by
        rw [hpast]
        exact hfits.input.imp_right hlen.trans }
  have hnext := next_preamble_some hready rfl hfind
  rw [pull_congr hready.pos (hready.pastPreamble 0).pos hnext]
  exact pull_parts (hready.pastPreamble 0) rfl hb rfl hpast he hr hleft

/-- A form that is held at once is given back, however it is cut. -/
theorem readAll_form
    (hchunks : chunks.flatten = encodeForm boundary parts)
    (hsize : (encodeForm boundary parts).length ≤ SIZE_MAX) (hfits : Holds config boundary parts) :
    (new boundary config).readAll chunks = (parts.flatMap FormPart.items, .done, .none) := by
  obtain ⟨m, hpull, hstopped⟩ := pull_form hb he hr hsize hfits
  rw [← hchunks] at hpull
  have hroom : (new boundary config).Room chunks.flatten.length := by
    rw [hchunks]
    unfold Room
    show 0 + _ ≤ _ ∧ (config.maxTotalSize = 0 ∨ 0 + _ ≤ config.maxTotalSize) ∧
      (config.maxInputBuffer = 0 ∨ 0 + _ ≤ config.maxInputBuffer)
    rw [Nat.zero_add]
    exact ⟨hsize, hfits.total, hfits.input⟩
  have hclear : ((new boundary config).push chunks.flatten).pull.Clear := by
    unfold Pulled.Clear
    rw [hpull]
    rw [hstopped.2]
    rfl
  have hcomplete : m.onComplete.Stopped .done .none := hstopped
  obtain ⟨m', hm', hlast⟩ := hcomplete.pull
  rw [readAll_alike (receive_alike chunks (new_waiting boundary config)
    (Nat.le_refl _) hroom hclear), hpull]
  rw [hm', hlast.2, append_nil]

end

end

/-! ## The caps only stop -/

/-- No caps. -/
def unlimited : KlHttpMultipartConfig := ⟨0, 0, 0, 0, 0⟩

variable (mr)

/-- The reader without its caps. -/
def free : KlHttpMultipartReader := { mr with config := unlimited }

@[simp] theorem free_input : mr.free.input = mr.input := rfl
@[simp] theorem free_delimiter : mr.free.delimiter = mr.delimiter := rfl
@[simp] theorem free_state : mr.free.state = mr.state := rfl

/-- A cap has stopped the reader. -/
def Capped : Prop := ∃ code, code.isLimit = true ∧ mr.Stopped .error code

/-- A call either reaches a cap or is the call without caps. -/
def Parallel (r r' : KlHttpMultipartReader × KlHttpMultipartEvent) : Prop :=
  (r.2 = .error ∧ r.1.Capped) ∨ r' = (r.1.free, r.2)

variable {mr} {code : KlHttpMultipartErrorCode}
  {r r' : KlHttpMultipartReader × KlHttpMultipartEvent}

theorem Parallel.same (h : r' = (r.1.free, r.2)) : Parallel r r' := .inr h

theorem Parallel.capped (hlimit : code.isLimit = true) : Parallel (mr.fail code) r' :=
  .inl ⟨rfl, code, hlimit, .inl ⟨rfl, rfl⟩, rfl⟩

variable (mr)

theorem parallel_needOrEof : Parallel mr.needOrEof mr.free.needOrEof := by
  refine .same ?_
  unfold needOrEof
  show (if mr.streamEnded = true then _ else _) = _
  cases mr.streamEnded <;> rfl

theorem parallel_emit (n : Nat) : Parallel (mr.emit n) (mr.free.emit n) := by
  cases hfits : mr.partFits n with
  | false =>
    rw [emit_not_fits hfits]
    exact .capped rfl
  | true =>
    refine .same ?_
    have hfree : mr.free.partFits n = true := partFits_iff.mpr (.inl rfl)
    unfold emit
    rw [hfits, hfree]
    rfl

theorem parallel_nextBody : Parallel mr.nextBody mr.free.nextBody := by
  unfold nextBody
  rw [free_input, free_delimiter]
  split
  · exact parallel_needOrEof mr
  split
  · exact .same rfl
  · exact parallel_emit mr _
  · split
    · exact parallel_emit mr _
    · exact parallel_needOrEof mr

theorem parallel_beginPart {hdr : List UInt8} {n : Nat} (hn : n ≤ hdr.length)
    (hheld : (hdr ++ rest).length ≤ SIZE_MAX) :
    Parallel (mr.beginPart hdr rest n) (mr.free.beginPart (hdr ++ rest) [] n) := by
  have htake : (hdr ++ rest).take n = hdr.take n := take_append_of_le_length hn
  have hover : (hdr ++ rest).drop n ++ [] = hdr.drop n ++ rest := by rw [append_nil,
    drop_append_eq hn]
  have hgrow : growBuf ([] : List UInt8).length ((hdr ++ rest).drop n).length
      mr.free.config.maxInputBuffer = true := by
    unfold growBuf
    rw [decide_eq_true_iff, length_nil, Nat.zero_add, length_drop]
    exact ⟨(Nat.sub_le _ _).trans hheld, .inl rfl⟩
  unfold beginPart
  simp only [hgrow, Bool.not_true, Bool.and_false, Bool.false_eq_true, if_false, htake, hover]
  split
  · exact .capped rfl
  · split
    · exact .same rfl
    · exact .same rfl

variable {mr}

/-- Without caps the whole input is copied. -/
theorem free_nextHeaders (hne : mr.input.length ≠ 0)
    (hheld : mr.hdr.length + mr.input.length ≤ SIZE_MAX) : mr.free.nextHeaders =
      match find crlfCrlf (mr.hdr ++ mr.input) with
      | some k => mr.free.beginPart (mr.hdr ++ mr.input) [] (k + 4)
      | none => { mr.free with hdr := mr.hdr ++ mr.input, input := [] }.needOrEof := by
  have htake : mr.free.headerTake = mr.input.length := if_pos rfl
  have hhdr : mr.free.hdr = mr.hdr := rfl
  have hcap : mr.free.config.maxHeadersSize = 0 := rfl
  have hgrow : growBuf mr.hdr.length mr.input.length 0 = true := by
    unfold growBuf
    rw [decide_eq_true_iff]
    exact ⟨hheld, .inl rfl⟩
  unfold nextHeaders
  cases hfind : find crlfCrlf (mr.hdr ++ mr.input) <;>
    simp [htake, free_input, hhdr, hcap, hgrow, hne, hfind]

section

variable (hheld : mr.hdr.length + mr.input.length ≤ SIZE_MAX)
include hheld

/-- The header block found in what the cap lets through is the one found without it. -/
theorem parallel_nextHeaders : Parallel mr.nextHeaders mr.free.nextHeaders := by
  by_cases hne : mr.input.length = 0
  · have hfree : mr.free.nextHeaders = mr.free.needOrEof := if_pos hne
    rw [hfree]
    unfold nextHeaders
    rw [if_pos hne]
    exact parallel_needOrEof mr
  have hsplit := mr.copied_append_uncopied
  rw [free_nextHeaders hne hheld, ← hsplit]
  unfold nextHeaders
  rw [if_neg hne]
  split
  · exact .capped rfl
  next hroom =>
  split
  · exact .capped rfl
  show Parallel (match find crlfCrlf mr.copied with
    | some k => mr.beginPart mr.copied mr.uncopied (k + 4)
    | none => if mr.config.maxHeadersSize ≠ 0 ∧ mr.config.maxHeadersSize ≤ mr.copied.length ∧
      mr.uncopied.length ≠ 0 then
        mr.awaitHeaders.fail .headersTooLarge else mr.awaitHeaders.needOrEof) _
  cases hfind : find crlfCrlf mr.copied with
  | some k =>
    rw [find_append hfind]
    refine parallel_beginPart mr (find_add_length hfind) ?_
    rw [hsplit, length_append]
    exact hheld
  | none =>
    simp only
    split
    · exact .capped rfl
    rename_i hover
    -- nothing is left behind, or the cap would have been reported
    have hleft : mr.uncopied = [] := by
      by_contra hleft
      obtain ⟨hpos, hcap⟩ := cap_of_left hroom hleft
      exact hover ⟨hpos, hcap, mt length_eq_zero_iff.mp hleft⟩
    rw [hleft, append_nil, hfind]
    unfold awaitHeaders
    rw [hleft]
    exact parallel_needOrEof _

theorem parallel_nextAfterBoundary : Parallel mr.nextAfterBoundary mr.free.nextAfterBoundary := by
  unfold nextAfterBoundary
  rw [free_input]
  split
  · next a b rest heq =>
    split
    · exact .same rfl
    split
    · have hfree : ¬(mr.free.config.maxParts ≠ 0 ∧ mr.free.config.maxParts ≤ mr.free.partsBegun) :=
        fun hcap => hcap.1 rfl
      split
      · exact .capped rfl
      refine @parallel_nextHeaders (mr.startHeaders rest) ?_
      rw [heq, length_cons, length_cons] at hheld
      show 0 + rest.length ≤ SIZE_MAX
      omega
    · exact .same rfl
  · exact parallel_needOrEof mr

theorem parallel_nextPreamble : Parallel mr.nextPreamble mr.free.nextPreamble := by
  unfold nextPreamble
  simp only
  rw [free_input, free_delimiter]
  split
  · exact parallel_needOrEof mr
  split
  · next k _ =>
    refine @parallel_nextAfterBoundary (mr.pastPreamble k) ?_
    show mr.hdr.length + (mr.input.drop _).length ≤ SIZE_MAX
    rw [length_drop]
    omega
  · exact parallel_needOrEof mr.trimPreamble

end

theorem parallel_next (hheld : mr.held ≤ SIZE_MAX) : Parallel mr.next mr.free.next := by
  have hheld : mr.applyConsume.hdr.length + mr.applyConsume.input.length ≤ SIZE_MAX := by
    unfold held at hheld
    show mr.hdr.length + (mr.input.drop mr.inputConsumed).length ≤ SIZE_MAX
    rw [length_drop]
    exact hheld
  have hconsume : mr.free.applyConsume = mr.applyConsume.free := rfl
  unfold next
  simp only [hconsume]
  rw [free_state]
  split
  · exact .same rfl
  · exact .same rfl
  · exact parallel_nextPreamble hheld
  · exact parallel_nextAfterBoundary hheld
  · exact parallel_nextHeaders hheld
  · exact parallel_nextBody _

/-- A pull is stopped by a cap, or is the pull without caps. -/
theorem parallel_pullUpTo (hdel : 0 < mr.delimiter.length) (hheld : mr.held ≤ SIZE_MAX) (n : Nat) :
    (pullUpTo n mr).reader.Capped ∨
    pullUpTo n mr.free = { pullUpTo n mr with reader := (pullUpTo n mr).reader.free } := by
  induction n generalizing mr with
  | zero =>
    unfold pullUpTo
    rcases parallel_next hheld with ⟨-, hcapped⟩ | hsame
    · exact .inl hcapped
    · rw [hsame]
      exact .inr rfl
  | succ n ih =>
    have hshrinks := shrinks_next hdel
    unfold pullUpTo
    rcases parallel_next hheld with ⟨herror, hcapped⟩ | hsame
    · rw [herror]
      exact .inl hcapped
    rw [hsame]
    split
    · exact .inr rfl
    rcases ih (hshrinks.kept.delimiter ▸ hdel) (hshrinks.le.trans hheld) with hcapped | hrest
    · exact .inl hcapped
    · rw [hrest]
      exact .inr rfl

theorem parallel_pull (hdel : 0 < mr.delimiter.length) (hheld : mr.held ≤ SIZE_MAX) :
    mr.pull.reader.Capped ∨ mr.free.pull = { mr.pull with reader := mr.pull.reader.free } :=
  parallel_pullUpTo hdel hheld (mr.held + 1)

theorem Capped.receive (h : mr.Capped) (chunks : List (List UInt8)) :
    (mr.receive chunks).reader.Capped := by
  obtain ⟨code, hlimit, hstopped⟩ := h
  exact ⟨code, hlimit, (hstopped.receive chunks).2⟩

theorem Capped.pull (h : mr.Capped) : mr.pull.reader.Capped := by
  obtain ⟨code, hlimit, hstopped⟩ := h
  obtain ⟨m, hm, hrest⟩ := hstopped.pull
  rw [hm]
  exact ⟨code, hlimit, hrest⟩

/-- What a reader holds is a part of what it has received, whose length is kept in a `size_t`. -/
structure Counted (mr : KlHttpMultipartReader) : Prop where
  pos : 0 < mr.delimiter.length
  held : mr.held ≤ mr.totalReceived
  total : mr.totalReceived ≤ SIZE_MAX

/-- A push is refused at a cap, or is the push without caps. -/
theorem Counted.onData (h : mr.Counted) (data : List UInt8) :
    (mr.onData data).Capped ∨ (mr.free.onData data = (mr.onData data).free ∧
      (mr.onData data).Counted) := by
  have htotal : mr.free.totalReceived = mr.totalReceived := rfl
  have hcaps : mr.free.config.maxTotalSize = 0 ∧ mr.free.config.maxInputBuffer = 0 := ⟨rfl, rfl⟩
  unfold KlHttpMultipartReader.onData
  rw [free_state, htotal, free_input, hcaps.1, hcaps.2]
  split
  · exact .inr ⟨rfl, h⟩
  split
  · exact .inl ⟨.totalTooLarge, rfl, .inl ⟨rfl, rfl⟩, rfl⟩
  next hmax =>
  split
  · exact .inl ⟨.totalTooLarge, rfl, .inl ⟨rfl, rfl⟩, rfl⟩
  split
  · exact .inl ⟨.inputOverflow, rfl, .inl ⟨rfl, rfl⟩, rfl⟩
  next hgrow =>
  have hfree : growBuf mr.input.length data.length 0 = true := by
    simp only [growBuf, Bool.not_eq_true', decide_eq_false_iff_not, not_not] at hgrow
    exact decide_eq_true ⟨hgrow.1, .inl rfl⟩
  rw [if_neg (fun hcap => hcap.1 rfl), hfree]
  refine .inr ⟨rfl, h.pos, ?_, ?_⟩
  · have hheld := h.held
    unfold KlHttpMultipartReader.held at hheld ⊢
    show mr.hdr.length + ((mr.input ++ data).length - mr.inputConsumed) ≤ mr.totalReceived +
      data.length
    rw [length_append]
    omega
  · show mr.totalReceived + data.length ≤ SIZE_MAX
    have hle := h.total
    omega

theorem Counted.pull (h : mr.Counted) : mr.pull.reader.Counted := by
  obtain ⟨hkept, hle⟩ := pullUpTo_kept h.pos (mr.held + 1)
  exact ⟨hkept.delimiter.symm ▸ h.pos, (hle.trans h.held).trans hkept.total.ge,
    hkept.total.le.trans h.total⟩

/-- A run over chunks is stopped by a cap, or is the run without caps. -/
theorem Counted.receive (h : mr.Counted) (chunks : List (List UInt8)) :
    (mr.receive chunks).reader.Capped ∨
      (mr.free.receive chunks =
        { mr.receive chunks with reader := (mr.receive chunks).reader.free } ∧
        (mr.receive chunks).reader.Counted) := by
  induction chunks generalizing mr with
  | nil => exact .inr ⟨rfl, h⟩
  | cons data chunks ih =>
    unfold receive
    rcases h.onData data with hcapped | ⟨hdata, hcounted⟩
    · exact .inl (hcapped.pull.receive chunks)
    rcases parallel_pull hcounted.pos (hcounted.held.trans hcounted.total) with hcapped | hpull
    · exact .inl (hcapped.receive chunks)
    rw [hdata, hpull]
    rcases ih hcounted.pull with hcapped | ⟨hrest, hcounted'⟩
    · exact .inl hcapped
    · simp only
      rw [hrest]
      exact .inr ⟨rfl, hcounted'⟩

/-- A body read without reaching a cap is read as without caps. -/
theorem Counted.readAll (h : mr.Counted) {chunks : List (List UInt8)}
    (hlimits : (mr.readAll chunks).2.2.isLimit = false) :
    mr.readAll chunks = mr.free.readAll chunks := by
  have hnot : ¬(mr.receive chunks).reader.onComplete.pull.reader.Capped := by
    rintro ⟨code, hlimit, -, rfl⟩
    exact absurd (hlimit.symm.trans hlimits) (by decide)
  have hcomplete {m : KlHttpMultipartReader} (hm : m.Capped) : m.onComplete.Capped := hm
  rcases h.receive chunks with hcapped | ⟨hreceive, hcounted⟩
  · exact absurd (hcomplete hcapped).pull hnot
  have hfree : (mr.receive chunks).reader.free.onComplete =
      (mr.receive chunks).reader.onComplete.free := rfl
  have hlast : (mr.receive chunks).reader.onComplete.Counted :=
    ⟨hcounted.pos, hcounted.held, hcounted.total⟩
  rcases parallel_pull hlast.pos (hlast.held.trans hlast.total) with hcapped | hpull
  · exact absurd hcapped hnot
  unfold KlHttpMultipartReader.readAll
  rw [hreceive]
  simp only
  rw [hfree, hpull]
  rfl

/-! ## The round trip -/

theorem holds_unlimited (boundary : List UInt8) (parts : List FormPart) :
    Holds unlimited boundary parts :=
  ⟨.inl rfl, fun _ _ => .inl rfl, fun _ _ => .inl rfl, .inl rfl, .inl rfl⟩

/-- The reader that the factory makes for the Content-Type of a form gives back its parts, in
order and with what was written of them, and is then done: for every cut of the encoding, if
the caps leave room for the form or none of them is reported. Names must not be empty, and
content types must not start with a space. -/
theorem form_round_trip (config : KlHttpMultipartConfig) (quoted : Bool) (boundary : List UInt8)
    (parts : List FormPart) (chunks : List (List UInt8)) (hb : ValidBoundary boundary)
    (hbare : quoted = false → Bare boundary) (he : ∀ p ∈ parts, p.Encodable boundary)
    (hr : ∀ p ∈ parts, p.Restorable) (hchunks : chunks.flatten = encodeForm boundary parts)
    (hsize : (encodeForm boundary parts).length ≤ SIZE_MAX)
    (hlimits : Holds config boundary parts ∨ ((new boundary config).readAll chunks).2.2.isLimit =
      false) :
    (bodyReaderMultipart (formType quoted boundary) config).map (·.readAll chunks) =
      some (parts.flatMap FormPart.items, .done, .none) := by
  unfold bodyReaderMultipart
  rw [boundaryOf_formType hb hbare]
  refine congrArg some ?_
  show (new boundary config).readAll chunks = _
  rcases hlimits with hfits | hlimits
  · exact readAll_form hb he hr hchunks hsize hfits
  have hcounted : (new boundary config).Counted :=
    ⟨(new_waiting boundary config).1.pos, Nat.le_refl _, Nat.zero_le _⟩
  rw [hcounted.readAll hlimits]
  exact readAll_form hb he hr hchunks hsize (holds_unlimited boundary parts)

/-- A file whose body ends in the start of a delimiter, read under caps that let through one
piece at a time. -/
def fileForm : List FormPart :=
  [⟨⟨ascii "f", some (ascii "a;b.txt"), some (ascii "text/plain")⟩, ascii "x\r\n--"⟩]

theorem fileForm_encodable : ∀ p ∈ fileForm, p.Encodable (ascii "B") := by
  intro p hp
  rw [mem_singleton.mp hp]
  exact { name := by decide +kernel, filename := by decide +kernel,
          contentType := by decide +kernel, body := by decide +kernel }

theorem fileForm_restorable : ∀ p ∈ fileForm, p.Restorable := by
  intro p hp
  rw [mem_singleton.mp hp]
  exact { named := by decide +kernel, unpadded := by decide +kernel }

theorem form_round_trip_file :
    (bodyReaderMultipart (ascii "multipart/form-data; boundary=B") ⟨5, 200, 1, 97, 60⟩).map
        (·.readAll [(encodeForm (ascii "B") fileForm).take 54,
          (encodeForm (ascii "B") fileForm).drop 54]) =
      some (fileForm.flatMap FormPart.items, .done, .none) :=
  form_round_trip ⟨5, 200, 1, 97, 60⟩ false (ascii "B") fileForm _
    ⟨by decide +kernel, by decide +kernel, by decide +kernel⟩
    (fun _ c hc => by rw [mem_singleton.mp hc]; decide +kernel) fileForm_encodable
    fileForm_restorable (by decide +kernel) (by decide +kernel) (.inr (by decide +kernel))

/-- An empty name is refused, and the spaces before a content type are not given back. -/
theorem form_not_restored : FormPart.Encodable (ascii "B") ⟨⟨[], none, none⟩, []⟩ ∧
    (new (ascii "B") unlimited).readAll [encodeForm (ascii "B") [⟨⟨[], none, none⟩, []⟩]] =
    ([], .error, .malformed) ∧
    FormPart.Encodable (ascii "B") ⟨⟨ascii "n", none, some (ascii " t")⟩, []⟩ ∧
    (new (ascii "B") unlimited).readAll
    [encodeForm (ascii "B") [⟨⟨ascii "n", none, some (ascii " t")⟩, []⟩]] =
      ([.begin ⟨ascii "n", none, some (ascii "t")⟩, .finish], .done, .none) :=
  ⟨{ name := by decide +kernel, filename := by decide +kernel, contentType := by decide +kernel,
     body := by decide +kernel }, by decide +kernel,
    { name := by decide +kernel, filename := by decide +kernel, contentType := by decide +kernel,
      body := by decide +kernel }, by decide +kernel⟩

end KlHttpMultipartReader
