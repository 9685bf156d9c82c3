-- SUMMARY: The multipart/form-data encoding of parts, and reading their headers.
import Keel.Http.MultipartCuts

/-!
# The encoding of a form

A form is a list of parts, each with a name, an optional file name and content type, and a
body. Its encoding writes the names as quoted strings. The header parser gives back what was
written as long as names are not empty and content types do not start with a space, which it
takes for padding.
-/

open Message WordSearch Multipart List

/-- No control bytes, quotes or backslashes. -/
def Multipart.Plain (s : List UInt8) : Prop := ∀ c ∈ s, ¬(c < 32 ∨ c = 127) ∧ c ≠ 34 ∧ c ≠ 92

instance (s : List UInt8) : Decidable (Plain s) :=
  inferInstanceAs (Decidable (∀ c ∈ s, ¬(c < 32 ∨ c = 127) ∧ c ≠ 34 ∧ c ≠ 92))

/-- A part of a form. -/
structure FormPart where
  head : KlHttpMultipartPartMeta
  body : List UInt8

namespace FormPart

/-- What a consumer is to see of the part. -/
def items (p : FormPart) : List PartItem := .begin p.head :: (p.body.map .byte ++ [.finish])

/-- The parameters after the name. -/
def fileParam : Option (List UInt8) → List UInt8
  | none => []
  | some filename => ascii "; " ++ (ascii "filename=" ++ (34 :: (filename ++ [34])))

def disposition (p : FormPart) : List UInt8 :=
  ascii "form-data; " ++
    (ascii "name=" ++ (34 :: (p.head.name ++ (34 :: fileParam p.head.filename))))

def typeLine : Option (List UInt8) → List UInt8
  | none => []
  | some contentType => (ascii "Content-Type: " ++ contentType) ++ crlf

/-- The header lines of the part and the empty line behind them. -/
def headerBlock (p : FormPart) : List UInt8 :=
  (ascii "Content-Disposition: " ++ p.disposition) ++ crlf ++ (typeLine p.head.contentType ++ crlf)

end FormPart

namespace Multipart

/-- CR LF, two dashes and the boundary. -/
def delimiterOf (boundary : List UInt8) : List UInt8 := [13, 10, 45, 45] ++ boundary

/-- The encoding of a form. -/
def encodeForm (boundary : List UInt8) (parts : List FormPart) : List UInt8 :=
  (parts.flatMap fun p => ascii "--" ++ boundary ++ crlf ++ p.headerBlock ++ p.body ++ crlf) ++
    (ascii "--" ++ boundary ++ ascii "--" ++ crlf)

/-- The Content-Type of a form, with its boundary in quotes or as it is. -/
def formType (quoted : Bool) (boundary : List UInt8) : List UInt8 :=
  ascii "multipart/form-data; " ++
    (ascii "boundary=" ++ if quoted then 34 :: (boundary ++ [34]) else boundary)

/-- A boundary that needs no quotes. -/
def Bare (boundary : List UInt8) : Prop := ∀ c ∈ boundary, c ∉ ascii "; \t\r\n"

/-- One to seventy bytes that a quoted string can hold as they are. -/
structure ValidBoundary (boundary : List UInt8) : Prop where
  pos : 0 < boundary.length
  short : boundary.length ≤ KL_HTTP_MP_MAX_BOUNDARY
  plain : Plain boundary

end Multipart

/-- A part that can be written with the boundary. -/
structure FormPart.Encodable (boundary : List UInt8) (p : FormPart) : Prop where
  name : Plain p.head.name
  filename : ∀ f ∈ p.head.filename, Plain f
  contentType : ∀ t ∈ p.head.contentType, Plain t
  body : ¬delimiterOf boundary <:+: p.body

/-- The header of a part that the parser can give back: it takes an empty name for a missing one
and spaces before a content type for padding. -/
structure FormPart.Restorable (p : FormPart) : Prop where
  named : p.head.name ≠ []
  unpadded : ∀ t ∈ p.head.contentType, t.head? ≠ some 32

namespace Multipart

variable {needle rest val s : List UInt8} {prev : Option UInt8} {a c : UInt8}

/-! ## Parameters -/

theorem Plain.not_cr (h : Plain s) : 13 ∉ s := fun hmem => (h 13 hmem).1 (.inl (by decide))

theorem Plain.hasCtl (h : Plain s) : hasCtl s = false := by
  unfold Multipart.hasCtl
  rw [any_eq_false]
  intro c hc
  simpa using (h c hc).1

theorem quoteClose_plain (h : Plain s) (rest : List UInt8) :
    quoteClose (s ++ 34 :: rest) = some s.length := by
  induction s with
  | nil => rfl
  | cons c s ih =>
    obtain ⟨-, hquote, hslash⟩ := h c mem_cons_self
    have ih := ih fun d hd => h d (mem_cons_of_mem c hd)
    rw [cons_append, quoteClose, if_neg hquote, ih]
    · rfl
    · exact fun heq _ => hslash heq
    · exact fun _ _ heq _ => hslash heq

theorem paramValue_plain (h : Plain s) (rest : List UInt8) :
    paramValue (34 :: (s ++ 34 :: rest)) = some s := by
  have hvalue : paramValue (34 :: (s ++ 34 :: rest)) = (quoteClose (s ++ 34 :: rest)).map
      ((s ++ 34 :: rest).take ·) := rfl
  rw [hvalue, quoteClose_plain h]
  exact congrArg some take_left

theorem findParamFrom_short {fuel : Nat} (h : val.length < needle.length) :
    findParamFrom needle fuel prev val = none := by
  cases fuel with
  | zero => rfl
  | succ fuel =>
    cases val with
    | nil => rfl
    | cons c rest =>
      unfold findParamFrom
      exact if_pos h

/-- Fuel for every byte is enough. -/
theorem findParamFrom_fuel {fuel fuel' : Nat} (h : val.length ≤ fuel) (h' : val.length ≤ fuel') :
    findParamFrom needle fuel prev val = findParamFrom needle fuel' prev val := by
  induction fuel generalizing fuel' prev val with
  | zero =>
    rw [length_eq_zero_iff.mp (Nat.le_zero.mp h)]
    cases fuel' <;> rfl
  | succ fuel ih =>
    cases val with
    | nil => cases fuel' <;> rfl
    | cons c rest =>
      cases fuel' with
      | zero => exact absurd h' (Nat.not_succ_le_zero _)
      | succ fuel' =>
        rw [length_cons] at h h'
        have hdrop (j : Nat) : (rest.drop j).length ≤ fuel ∧ (rest.drop j).length ≤ fuel' := by
          rw [length_drop]
          omega
        have hquoted (j : Nat) (p : Option UInt8) : findParamFrom needle fuel p (rest.drop j) =
            findParamFrom needle fuel' p (rest.drop j) := ih (hdrop j).1 (hdrop j).2
        have hrest (p : Option UInt8) : findParamFrom needle fuel p rest =
            findParamFrom needle fuel' p rest :=
          ih (Nat.le_of_succ_le_succ h) (Nat.le_of_succ_le_succ h')
        unfold findParamFrom
        simp only [hquoted, hrest]

/-- The search for a parameter behind the byte `prev`. -/
def scan (needle : List UInt8) (prev : Option UInt8) (val : List UInt8) : Option (List UInt8) :=
  findParamFrom needle val.length prev val

/-- A byte at which the parameter does not start. -/
theorem scan_cons (hc : c ≠ 34)
    (hno : ((c :: rest).take needle.length).map lower ≠ needle.map lower) :
    scan needle prev (c :: rest) = scan needle (some c) rest := by
  unfold scan
  rw [length_cons, findParamFrom]
  split
  · next hshort => exact (findParamFrom_short (Nat.lt_of_succ_lt hshort)).symm
  · rw [ite_self]

/-- Bytes none of which starts the parameter. -/
theorem scan_pass (l : List UInt8) (hl : ∀ c ∈ l, c ≠ 34 ∧ lower c ≠ lower a) :
    scan (a :: needle) prev (l ++ rest) =
    scan (a :: needle) (l.foldl (fun _ c => some c) prev) rest := by
  induction l generalizing prev with
  | nil => rfl
  | cons c l ih =>
    obtain ⟨hquote, hother⟩ := hl c mem_cons_self
    have hno : ((c :: (l ++ rest)).take (a :: needle).length).map lower ≠ (a :: needle).map lower :=
      fun heq => hother (cons.inj heq).1
    rw [cons_append, scan_cons hquote hno, ih fun d hd => hl d (mem_cons_of_mem c hd)]
    rfl

/-- A quoted string is passed over. -/
theorem scan_quoted (h : Plain s) :
    scan needle prev (34 :: (s ++ 34 :: rest)) = scan needle (some 34) rest := by
  have hlen : rest.length ≤ (s ++ 34 :: rest).length := by
    rw [length_append, length_cons]
    omega
  unfold scan
  rw [length_cons, findParamFrom]
  split
  · next hshort =>
    rw [length_cons] at hshort
    exact (findParamFrom_short (by omega)).symm
  · have hdrop : (s ++ 34 :: rest).drop (s.length + 1) = rest := by simp
    rw [if_pos rfl, quoteClose_plain h]
    show findParamFrom needle _ (some 34) ((s ++ 34 :: rest).drop (s.length + 1)) = _
    rw [hdrop]
    exact findParamFrom_fuel hlen (Nat.le_refl _)

/-- The parameter, behind a space. -/
theorem scan_found (ha : a ≠ 34) (rest : List UInt8) :
    scan (a :: needle) (some 32) (a :: needle ++ rest) = some rest := by
  unfold scan
  have hshort : ¬(a :: (needle ++ rest)).length < (a :: needle).length := by
    rw [length_cons, length_cons, length_append]
    omega
  have htake : (a :: (needle ++ rest)).take (a :: needle).length = a :: needle :=
    @List.take_left _ (a :: needle) rest
  have hdrop : (a :: (needle ++ rest)).drop (a :: needle).length = rest :=
    @List.drop_left _ (a :: needle) rest
  rw [cons_append, length_cons, findParamFrom, if_neg hshort, if_neg ha, if_neg (by decide),
    if_pos (by rw [htake]), hdrop]

theorem findParam_eq_scan (val : List UInt8) (a : UInt8) (needle : List UInt8) :
    findParam val (a :: needle) = scan (a :: needle) none val :=
  if_neg (Nat.succ_ne_zero _)

/-! ## The header block -/

/-- The bytes before the name. -/
theorem scan_name (rest : List UInt8) :
    findParam (ascii "form-data; " ++ (ascii "name=" ++ rest)) (ascii "name=") = some rest := by
  show findParam _ (110 :: ascii "ame=") = _
  rw [findParam_eq_scan, scan_pass (ascii "form-data; ") (by decide +kernel)]
  exact scan_found (by decide +kernel) rest

/-- The search for the file name passes over the name. -/
theorem scan_behind_name (h : Plain s) (rest : List UInt8) :
    findParam (ascii "form-data; " ++ (ascii "name=" ++ (34 :: (s ++ (34 :: rest)))))
    (ascii "filename=") =
      scan (ascii "filename=") (some 34) rest := by
  show findParam (102 :: (ascii "orm-data; name=" ++ (34 :: (s ++ (34 :: rest)))))
    (102 :: ascii "ilename=") = _
  rw [findParam_eq_scan, scan_cons (by decide +kernel),
    scan_pass (ascii "orm-data; name=") (by decide +kernel), scan_quoted h]
  · rfl
  · -- the second bytes differ
    intro heq
    have hsecond := (cons.inj (cons.inj heq).2).1
    exact absurd hsecond (by decide)

theorem scan_fileParam (filename : Option (List UInt8)) :
    scan (ascii "filename=") (some 34) (FormPart.fileParam filename) =
      filename.map fun f => 34 :: (f ++ [34]) := by
  cases filename with
  | none => rfl
  | some f =>
    show scan (102 :: ascii "ilename=") (some 34)
      (ascii "; " ++ (102 :: ascii "ilename=" ++ (34 :: (f ++ [34])))) = _
    rw [scan_pass (ascii "; ") (by decide +kernel)]
    exact scan_found (by decide +kernel) _

end Multipart

namespace FormPart

variable {p : FormPart} {boundary : List UInt8}

theorem parseDisposition_eq (h : p.Encodable boundary) (hname : p.head.name ≠ []) :
    parseDisposition p.disposition = some (p.head.name, p.head.filename) := by
  have hlen : ¬(p.head.name.length = 0 ∨ hasCtl p.head.name = true) := by
    rw [h.name.hasCtl, length_eq_zero_iff]
    exact fun hor => hor.elim hname Bool.false_ne_true
  unfold parseDisposition disposition
  rw [scan_name, scan_behind_name h.name, scan_fileParam]
  show ((paramValue (34 :: (p.head.name ++ 34 :: fileParam p.head.filename))).bind fun name =>
    _) = _
  rw [paramValue_plain h.name]
  show (if _ then _ else _) = _
  rw [if_neg hlen]
  cases hf : p.head.filename with
  | none => rfl
  | some f =>
    have hplain := h.filename f hf
    show ((paramValue (34 :: (f ++ 34 :: []))).bind fun filename => _) = _
    rw [paramValue_plain hplain]
    show (if hasCtl f = true then _ else _) = _
    rw [hplain.hasCtl]
    rfl

theorem parseLine_disposition (h : p.Encodable boundary) (hname : p.head.name ≠ [])
    (acc : Collected) : parseLine acc (ascii "Content-Disposition: " ++ p.disposition) =
      some { acc with disposition := some (p.head.name, p.head.filename) } := by
  have hline : parseLine acc (ascii "Content-Disposition: " ++ p.disposition) =
      (parseDisposition p.disposition).map fun d => { acc with disposition := some d } := rfl
  rw [hline, parseDisposition_eq h hname]
  rfl

theorem parseLine_type {t : List UInt8} (ht : t.head? ≠ some 32) (acc : Collected) :
    parseLine acc (ascii "Content-Type: " ++ t) = some { acc with contentType := some t } := by
  have hline : parseLine acc (ascii "Content-Type: " ++ t) =
      some { acc with contentType := some (t.dropWhile (· = 32)) } := rfl
  have hkept : t.dropWhile (· = 32) = t := by
    cases t with
    | nil => rfl
    | cons c t =>
      refine dropWhile_cons_of_neg ?_
      intro hc
      exact ht (congrArg some (of_decide_eq_true hc))
  rw [hline, hkept]

end FormPart

namespace Multipart

variable {line rest : List UInt8} {acc : Collected}

/-- One line of a header block. -/
theorem parseLines_line (hne : line ≠ []) (hcr : 13 ∉ line) (fuel : Nat) :
    parseLines (fuel + 1) acc (line ++ crlf ++ rest) = (parseLine acc line).bind fun acc =>
    parseLines fuel acc rest := by
  have hfind : find crlf (line ++ crlf ++ rest) = some line.length := by
    have hskip : find crlf (line ++ (crlf ++ rest)) = (find crlf (crlf ++ rest)).map
        (line.length + ·) :=
      find_skip line (crlf ++ rest) hcr
    rw [append_assoc, hskip, find_self crlf rest]
    rfl
  obtain ⟨n, hn⟩ := Nat.exists_eq_succ_of_ne_zero (mt length_eq_zero_iff.mp hne)
  have htake : (line ++ crlf ++ rest).take line.length = line := by
    rw [append_assoc]
    exact take_left
  have hdrop : (line ++ crlf ++ rest).drop (line.length + 2) = rest := by
    have hlen : line.length + 2 = (line ++ crlf).length := by
      rw [length_append]
      rfl
    rw [hlen]
    exact drop_left
  rw [hn] at hfind htake hdrop
  cases hl : line ++ crlf ++ rest with
  | nil =>
    rw [hl] at hfind
    cases hfind
  | cons c t =>
    rw [hl] at hfind htake hdrop
    simp only [parseLines, hfind, htake, hdrop]

end Multipart

namespace FormPart

variable {p : FormPart} {boundary : List UInt8}

theorem not_cr_append {l m : List UInt8} (hl : 13 ∉ l) (hm : 13 ∉ m) : 13 ∉ l ++ m :=
  fun h => (mem_append.mp h).elim hl hm

theorem not_cr_cons {c : UInt8} {l : List UInt8} (hc : 13 ≠ c) (hl : 13 ∉ l) : 13 ∉ c :: l :=
  fun h => (mem_cons.mp h).elim hc hl

theorem disposition_not_cr (h : p.Encodable boundary) :
    13 ∉ ascii "Content-Disposition: " ++ p.disposition := by
  have hfile : 13 ∉ fileParam p.head.filename := by
    cases hf : p.head.filename with
    | none => exact not_mem_nil
    | some f =>
      have hplain := (h.filename f hf).not_cr
      refine not_cr_append (by decide) (not_cr_append (by decide) (not_cr_cons (by decide) ?_))
      exact not_cr_append hplain (by decide)
  refine not_cr_append (by decide)
    (not_cr_append (by decide) (not_cr_append (by decide) (not_cr_cons (by decide) ?_)))
  exact not_cr_append h.name.not_cr (not_cr_cons (by decide) hfile)

theorem type_not_cr (h : p.Encodable boundary) {t : List UInt8} (ht : p.head.contentType = some t) :
    13 ∉ ascii "Content-Type: " ++ t :=
  not_cr_append (by decide) (h.contentType t ht).not_cr

theorem four_le_headerBlock (p : FormPart) : 4 ≤ p.headerBlock.length := by
  unfold headerBlock
  simp only [length_append]
  have hfirst : (ascii "Content-Disposition: ").length = 21 := rfl
  omega

/-- The parser gives back the header of a part. -/
theorem parseHeaders_headerBlock (h : p.Encodable boundary) (hr : p.Restorable) :
    parseHeaders p.headerBlock = some p.head := by
  have hge := p.four_le_headerBlock
  have hlen : p.headerBlock.length = (p.headerBlock.length - 3) + 1 + 1 + 1 := by omega
  have hdisp := disposition_not_cr h
  have hfirst : ascii "Content-Disposition: " ++ p.disposition ≠ [] := cons_ne_nil _ _
  unfold parseHeaders
  rw [hlen]
  generalize p.headerBlock.length - 3 = fuel
  unfold headerBlock
  rw [parseLines_line hfirst hdisp, parseLine_disposition h hr.named]
  cases ht : p.head.contentType with
  | none =>
    show (some (Collected.mk (some (p.head.name, p.head.filename)) none)).bind _ = _
    rw [← ht]
    rfl
  | some t =>
    have htype : parseLines (fuel + 1 + 1) { disposition := some (p.head.name, p.head.filename),
                                             contentType := none }
        (typeLine (some t) ++ crlf) = some ⟨some (p.head.name, p.head.filename), some t⟩ := by
      have hsecond : ascii "Content-Type: " ++ t ≠ [] := cons_ne_nil _ _
      show parseLines _ _ (ascii "Content-Type: " ++ t ++ crlf ++ crlf) = _
      rw [parseLines_line hsecond (type_not_cr h ht), parseLine_type (hr.unpadded t ht)]
      rfl
    rw [Option.bind_some, htype, ← ht]
    rfl

/-- An empty line is found behind a line. -/
theorem find_empty_line {line : List UInt8} (hne : line ≠ []) (hcr : 13 ∉ line)
    (rest : List UInt8) : find KlHttpMultipartReader.crlfCrlf (crlf ++ (line ++ rest)) =
      (find KlHttpMultipartReader.crlfCrlf rest).map fun k => 2 + line.length + k := by
  cases line with
  | nil => exact absurd rfl hne
  | cons c line =>
    have hc : ¬(13 : UInt8) = c := fun heq => hcr (heq ▸ mem_cons_self)
    have hskip : find KlHttpMultipartReader.crlfCrlf (c :: line ++ rest) =
        (find KlHttpMultipartReader.crlfCrlf rest).map ((c :: line).length + ·) :=
          find_skip (c :: line) rest hcr
    have hpre : ¬KlHttpMultipartReader.crlfCrlf.isPrefixOf (13 :: 10 :: (c :: line ++ rest)) =
        true := by
      simp [KlHttpMultipartReader.crlfCrlf, isPrefixOf, hc]
    have hpre' : ¬KlHttpMultipartReader.crlfCrlf.isPrefixOf (10 :: (c :: line ++ rest)) = true :=
      Bool.false_ne_true
    show find _ (13 :: 10 :: (c :: line ++ rest)) = _
    rw [find, if_neg hpre, find, if_neg hpre', hskip, Option.map_map, Option.map_map]
    congr 1
    funext k
    show (c :: line).length + k + 1 + 1 = 2 + (c :: line).length + k
    omega

/-- The header block ends with the first empty line of what is written. -/
theorem find_headerBlock (h : p.Encodable boundary) (rest : List UInt8) :
    find KlHttpMultipartReader.crlfCrlf (p.headerBlock ++ rest) =
    some (p.headerBlock.length - 4) := by
  have hdisp := disposition_not_cr h
  unfold headerBlock
  generalize ascii "Content-Disposition: " ++ p.disposition = line at *
  have hskip (m : List UInt8) : find KlHttpMultipartReader.crlfCrlf (line ++ m) =
      (find KlHttpMultipartReader.crlfCrlf m).map (line.length + ·) := find_skip line m hdisp
  have hend (m : List UInt8) : find KlHttpMultipartReader.crlfCrlf (crlf ++ (crlf ++ m)) = some 0 :=
    find_self KlHttpMultipartReader.crlfCrlf m
  cases ht : p.head.contentType with
  | none =>
    have hshape : line ++ crlf ++ (typeLine none ++ crlf) ++ rest =
        line ++ (crlf ++ (crlf ++ rest)) := by
      simp [typeLine]
    rw [hshape, hskip, hend]
    simp [typeLine, crlf]
  | some t =>
    have hshape : line ++ crlf ++ (typeLine (some t) ++ crlf) ++ rest =
        line ++ (crlf ++ ((ascii "Content-Type: " ++ t) ++ (crlf ++ (crlf ++ rest)))) := by
      simp [typeLine]
    have hline : ascii "Content-Type: " ++ t ≠ [] := cons_ne_nil _ _
    rw [hshape, hskip, find_empty_line hline (type_not_cr h ht), hend]
    simp [typeLine, crlf]
    omega

end FormPart

namespace Multipart

variable {boundary : List UInt8}

/-! ## The form -/

/-- The factory finds the boundary. -/
theorem boundaryOf_formType (h : ValidBoundary boundary) {quoted : Bool}
    (hbare : quoted = false → Bare boundary) :
    KlHttpMultipartReader.boundaryOf (formType quoted boundary) = some boundary := by
  have hsize : ¬(boundary.length = 0 ∨ KL_HTTP_MP_MAX_BOUNDARY < boundary.length) := by
    have hpos := h.pos
    have hshort := h.short
    omega
  unfold KlHttpMultipartReader.boundaryOf
  cases quoted with
  | true =>
    show ((quoteClose (boundary ++ [34])).map ((boundary ++ [34]).take ·)).bind _ = _
    rw [quoteClose_plain h.plain]
    show (some ((boundary ++ [34]).take boundary.length)).bind _ = _
    rw [take_left]
    exact if_neg hsize
  | false =>
    have hall : boundary.takeWhile (· ∉ ascii "; \t\r\n") = boundary := by
      rw [← append_nil boundary, takeWhile_append_of_pos fun c hc =>
        decide_eq_true (hbare rfl c hc), takeWhile_nil]
    cases boundary with
    | nil => exact absurd (.inl rfl) hsize
    | cons c rest =>
      have hquote : c ≠ 34 := (h.plain c mem_cons_self).2.1
      have hparam : findParam (formType false (c :: rest)) (ascii "boundary=") = some (c :: rest) :=
        rfl
      refine (if_neg (of_decide_eq_false rfl)).trans ((if_neg (of_decide_eq_false rfl)).trans ?_)
      simp only [hparam, Option.bind_eq_bind, Option.bind_some, hall]
      split
      next heq => exact absurd (cons.inj heq).1 hquote
      · exact if_neg hsize

/-- What follows a boundary. -/
def afterBoundaryText (boundary : List UInt8) : List FormPart → List UInt8
  | [] => ascii "--" ++ crlf
  | p :: parts =>
    crlf ++ (p.headerBlock ++
    (p.body ++ (delimiterOf boundary ++ afterBoundaryText boundary parts)))

theorem encodeForm_eq (boundary : List UInt8) (parts : List FormPart) :
    encodeForm boundary parts = (ascii "--" ++ boundary) ++ afterBoundaryText boundary parts := by
  induction parts with
  | nil => simp [encodeForm, afterBoundaryText]
  | cons p parts ih =>
    have hcons : encodeForm boundary (p :: parts) =
        (ascii "--" ++ boundary ++ crlf ++ p.headerBlock ++ p.body ++ crlf) ++
          encodeForm boundary parts := by
      unfold encodeForm
      rw [flatMap_cons, append_assoc]
    have hdelim : delimiterOf boundary = crlf ++ (ascii "--" ++ boundary) := rfl
    have htext : afterBoundaryText boundary (p :: parts) =
        crlf ++ (p.headerBlock ++
          (p.body ++ (delimiterOf boundary ++ afterBoundaryText boundary parts))) := rfl
    rw [hcons, ih, htext, hdelim]
    simp only [append_assoc]

end Multipart
