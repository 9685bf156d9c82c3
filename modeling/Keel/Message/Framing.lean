-- SUMMARY: HTTP/1.1 messages as a recipient reads them.
import Mathlib.Data.List.Basic
import Mathlib.Algebra.Ring.Nat

/-!
# Where a response ends

A client finds the end of a response from its bytes and from the method of the request.
The head is a status line and field lines up to an empty line. The body has the length
that the rules give: none after a HEAD request and for the statuses 1xx, 204 and 304, the
transfer coding if there is one, else the content length. A response with neither is ended
by the close of the connection, and no byte of it says so.

The chunked coding is a parameter: a function that says where a chunked body ends.
-/

open List

namespace Message

def ascii (s : String) : List UInt8 := s.toList.map fun c => UInt8.ofNat c.toNat

def crlf : List UInt8 := [13, 10]

/-! ## Lines -/

/-- The bytes before the first CR LF and those after it. -/
def splitLine : List UInt8 → Option (List UInt8 × List UInt8)
  | [] => none
  | b :: rest =>
    if b = 13 ∧ rest.head? = some 10 then some ([], rest.tail)
    else (splitLine rest).map fun (l, r) => (b :: l, r)

/-- The lines up to an empty one, and the bytes after that. -/
def readLines : Nat → List UInt8 → Option (List (List UInt8) × List UInt8)
  | 0, _ => none
  | fuel + 1, bytes =>
    match splitLine bytes with
    | none => none
    | some ([], rest) => some ([], rest)
    | some (line, rest) => (readLines fuel rest).map fun (ls, r) => (line :: ls, r)

/-- Lines as they are written, the empty line included. -/
def unlines (lines : List (List UInt8)) : List UInt8 := lines.flatMap (· ++ crlf) ++ crlf

/-- A line of a head that can be read back. -/
structure Line (l : List UInt8) : Prop where
  nonempty : l ≠ []
  noCr : (13 : UInt8) ∉ l

theorem splitLine_append {l : List UInt8} (hl : (13 : UInt8) ∉ l) (rest : List UInt8) :
    splitLine (l ++ (crlf ++ rest)) = some (l, rest) := by
  induction l with
  | nil => simp [splitLine, crlf]
  | cons b l ih =>
    have hb : b ≠ 13 := fun h => hl (h ▸ mem_cons_self)
    rw [cons_append, splitLine, if_neg (fun h => hb h.1), ih fun h => hl (mem_cons_of_mem b h)]
    rfl

variable {lines : List (List UInt8)} {name : List UInt8}

theorem readLines_unlines (h : ∀ l ∈ lines, Line l) {fuel : Nat}
    (hfuel : lines.length < fuel) (rest : List UInt8) :
    readLines fuel (unlines lines ++ rest) = some (lines, rest) := by
  induction lines generalizing fuel with
  | nil =>
    obtain ⟨fuel, rfl⟩ := Nat.exists_eq_add_one_of_ne_zero (Nat.ne_zero_of_lt hfuel)
    have hsplit : splitLine (unlines [] ++ rest) = some ([], rest) :=
      splitLine_append not_mem_nil rest
    simp only [readLines, hsplit]
  | cons l lines ih =>
    obtain ⟨fuel, rfl⟩ := Nat.exists_eq_add_one_of_ne_zero (Nat.ne_zero_of_lt hfuel)
    have hl := h l mem_cons_self
    have hsplit : splitLine (unlines (l :: lines) ++ rest) = some (l, unlines lines ++ rest) := by
      have := splitLine_append hl.noCr (unlines lines ++ rest)
      simpa [unlines] using this
    have hrest := ih (fun l hl => h l (mem_cons_of_mem _ hl)) (Nat.lt_of_succ_lt_succ hfuel)
    simp only [readLines, hsplit]
    split
    · next heq => cases heq
    · next heq =>
      obtain ⟨rfl, -⟩ := Prod.mk.inj (Option.some.inj heq)
      exact absurd rfl hl.nonempty
    · next heq =>
      obtain ⟨rfl, rfl⟩ := Prod.mk.inj (Option.some.inj heq)
      rw [hrest]
      rfl

/-! ## Fields -/

def lower (b : UInt8) : UInt8 := if 65 ≤ b ∧ b ≤ 90 then b + 32 else b

/-- SP or HTAB. -/
def isBlank (b : UInt8) : Bool := b = 32 || b = 9

def trimEnd (l : List UInt8) : List UInt8 := (l.reverse.dropWhile isBlank).reverse

def trim (l : List UInt8) : List UInt8 := trimEnd (l.dropWhile isBlank)

/-- The name of a field without regard to case: what stands before the first colon. -/
def fieldName (line : List UInt8) : List UInt8 := (trimEnd (line.takeWhile (· ≠ 58))).map lower

/-- What stands after the first colon. -/
def fieldValue (line : List UInt8) : List UInt8 := trim ((line.dropWhile (· ≠ 58)).drop 1)

structure Field where
  name : List UInt8
  value : List UInt8
deriving DecidableEq, Repr

/-- A line that begins with a blank continues the field before it. -/
def addLine (fs : List Field) (line : List UInt8) : List Field :=
  if (line.head?.map isBlank).getD false then
    match fs.getLast? with
    | none => fs
    | some f => fs.dropLast ++ [{ f with value := f.value ++ 32 :: trim line }]
  else fs ++ [⟨fieldName line, fieldValue line⟩]

def fieldsOf (lines : List (List UInt8)) : List Field := lines.foldl addLine []

/-- The values of the fields of one name. -/
def values (name : List UInt8) (fs : List Field) : List (List UInt8) :=
  (fs.filter (·.name = name)).map Field.value

theorem values_append (name : List UInt8) (fs gs : List Field) :
    values name (fs ++ gs) = values name fs ++ values name gs := by
  simp [values]

variable {fs : List Field}

theorem values_eq_nil : values name fs = [] ↔ ∀ f ∈ fs, f.name ≠ name := by
  simp [values]

/-- A line of another name leaves a field absent, folded or not. -/
theorem values_addLine {line : List UInt8} (hfs : values name fs = [])
    (hline : fieldName line ≠ name) : values name (addLine fs line) = [] := by
  rw [values_eq_nil] at hfs ⊢
  unfold addLine
  split
  · split
    · exact hfs
    · next f hlast =>
      intro g hg
      rcases mem_append.mp hg with hg | hg
      · exact hfs g (dropLast_subset fs hg)
      · rw [mem_singleton.mp hg]
        exact hfs f (mem_of_getLast? hlast)
  · intro g hg
    rcases mem_append.mp hg with hg | hg
    · exact hfs g hg
    · rw [mem_singleton.mp hg]
      exact hline

theorem values_foldl_addLine (hfs : values name fs = []) (h : ∀ l ∈ lines, fieldName l ≠ name) :
    values name (lines.foldl addLine fs) = [] := by
  induction lines generalizing fs with
  | nil => exact hfs
  | cons l lines ih =>
    exact ih (values_addLine hfs (h l mem_cons_self)) fun l' hl' => h l' (mem_cons_of_mem _ hl')

/-! ## The end of a response -/

/-- Decimal digits, at least one. -/
def digits (l : List UInt8) : Option Nat :=
  if l ≠ [] ∧ l.all (fun b => 48 ≤ b && b ≤ 57) then
    some (l.foldl (fun n b => n * 10 + (b.toNat - 48)) 0)
  else none

/-- The status code of a status line. -/
def statusOf (line : List UInt8) : Option Nat :=
  if line.take 9 = ascii "HTTP/1.1 " ∧ (line.drop 12).head? = some 32 then
    digits ((line.drop 9).take 3)
  else none

def contentLength : List UInt8 := ascii "content-length"
def transferEncoding : List UInt8 := ascii "transfer-encoding"

/-- How the length of a body is found. -/
inductive BodyLength where
  | none
  | chunked
  | length (n : Nat)
  | untilClose
  | invalid
deriving DecidableEq, Repr

/-- The rules, in the order of their precedence. Repeated content lengths must agree. -/
def bodyLength (head : Bool) (status : Nat) (fs : List Field) : BodyLength :=
  if head ∨ status < 200 ∨ status = 204 ∨ status = 304 then .none
  else if values transferEncoding fs ≠ [] then
    if (values transferEncoding fs).getLast?.map (·.map lower) = some (ascii "chunked") then
      .chunked
    else .untilClose
  else
    match values contentLength fs with
    | [] => .untilClose
    | v :: vs =>
      match digits v with
      | some n => if vs.all (digits · = some n) then .length n else .invalid
      | Option.none => .invalid

/-- The number of bytes after which the response at the start of `bytes` is over. -/
def responseEnd (chunkedEnd : List UInt8 → Option Nat) (head : Bool) (bytes : List UInt8) :
    Option Nat :=
  match readLines bytes.length bytes with
  | some (status :: lines, rest) =>
    match statusOf status with
    | none => none
    | some code =>
      let headLen := bytes.length - rest.length
      match bodyLength head code (fieldsOf lines) with
      | .none => some headLen
      | .chunked => (chunkedEnd rest).map (headLen + ·)
      | .length n => if n ≤ rest.length then some (headLen + n) else none
      | .untilClose => none
      | .invalid => none
  | _ => none

/-- The end of a response whose head is known. -/
theorem responseEnd_unlines {chunkedEnd : List UInt8 → Option Nat} {head : Bool}
    {status : List UInt8} {code : Nat} (hstatus : Line status) (hlines : ∀ l ∈ lines, Line l)
    (hcode : statusOf status = some code) (rest : List UInt8) :
    responseEnd chunkedEnd head (unlines (status :: lines) ++ rest) =
      match bodyLength head code (fieldsOf lines) with
      | .none => some (unlines (status :: lines)).length
      | .chunked => (chunkedEnd rest).map ((unlines (status :: lines)).length + ·)
      | .length n => if n ≤ rest.length then some ((unlines (status :: lines)).length + n) else none
      | .untilClose => none
      | .invalid => none := by
  have hall : ∀ l ∈ status :: lines, Line l := forall_mem_cons.mpr ⟨hstatus, hlines⟩
  have hfuel : (status :: lines).length < (unlines (status :: lines) ++ rest).length := by
    have hcount : ∀ ls : List (List UInt8), ls.length ≤ (ls.flatMap (· ++ crlf)).length := by
      intro ls
      induction ls with
      | nil => exact Nat.le_refl 0
      | cons l ls ih =>
        simp only [flatMap_cons, length_append, length_cons, crlf] at ih ⊢
        omega
    have := hcount (status :: lines)
    simp only [unlines, length_append, crlf, length_cons] at this ⊢
    omega
  have hlen : (unlines (status :: lines) ++ rest).length - rest.length =
      (unlines (status :: lines)).length := by
    simp
  simp only [responseEnd, readLines_unlines hall hfuel, hcode, hlen]

end Message
