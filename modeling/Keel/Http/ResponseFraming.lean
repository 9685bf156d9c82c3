-- SUMMARY: A buffered response ends at its last byte for its recipient.
import Keel.Http.Response

/-!
# The end of a buffered response

The layout is a list of lines and a body. The client finds the Content-Length line behind
whatever lines the handler added, as long as none of those is a framing field itself.
-/

open Message List

namespace KlHttpResponse

/-- The arguments of `kl_http_response_header`, and whether the header buffer could grow. -/
structure HeaderCall where
  name : List UInt8
  value : List UInt8
  room : Bool := true
deriving DecidableEq, Repr

variable (c : HeaderCall)

/-- The call appends its line. -/
def HeaderCall.accepted : Bool := !(containsCrlf c.name || containsCrlf c.value) && c.room

def HeaderCall.text : List UInt8 := headerText c.name c.value

/-- The field name that a recipient sees is one of those that delimit a message. -/
def HeaderCall.framing : Prop :=
  fieldName c.text = contentLength ∨ fieldName c.text = transferEncoding

variable (res : KlHttpResponse) (calls : List HeaderCall)

def addHeaders : KlHttpResponse :=
  calls.foldl (fun res c => (res.header c.name c.value c.room).1) res

/-- The lines that the calls leave in the header buffer. -/
def headerLines : List (List UInt8) :=
  (calls.filter HeaderCall.accepted).map HeaderCall.text

/-- The lines of a response after its status line. -/
def headLines : List (List UInt8) :=
  headerLines calls ++
    (contentLengthText res.body.length :: if res.keepAlive then [keepAliveText] else [])

/-! ## The layout as lines -/

/-- An accepted header is one more line of the block. -/
theorem header_eq : (res.header c.name c.value c.room).1 =
      { res with hdrBuf := res.hdrBuf ++ if c.accepted then c.text ++ crlf else [] } := by
  unfold header HeaderCall.accepted HeaderCall.text
  cases containsCrlf c.name || containsCrlf c.value <;> cases c.room <;> simp

/-- The block is the lines of the accepted headers. -/
theorem addHeaders_eq : res.addHeaders calls =
      { res with hdrBuf := res.hdrBuf ++ (headerLines calls).flatMap (· ++ crlf) } := by
  induction calls generalizing res with
  | nil => simp [addHeaders, headerLines]
  | cons c calls ih =>
    have hstep : res.addHeaders (c :: calls) =
        ((res.header c.name c.value c.room).1).addHeaders calls := rfl
    rw [hstep, header_eq, ih]
    cases hc : c.accepted with
    | true => simp [headerLines, hc]
    | false => simp [headerLines, hc]

/-- The body that follows the head. -/
def sentBody : List UInt8 := if res.headRequest then [] else res.body

/-- What is sent: the status line, the header lines, the empty line and the body. -/
theorem buildIovec_eq {res : KlHttpResponse} (hfresh : res.hdrBuf = [])
    (hmode : res.bodyMode = .buffer ∨ res.bodyMode = .none) (calls : List HeaderCall) :
    ∃ iov, (res.addHeaders calls).buildIovec 7 = some iov ∧
      iov.flatten = unlines (statusText (finalCode res.status) :: res.headLines calls) ++
      res.sentBody := by
  rw [addHeaders_eq, hfresh, nil_append]
  have hfile : res.bodyMode ≠ .file := by
    rcases hmode with h | h <;> rw [h] <;> decide
  have hok : ¬(res.bodyMode ≠ .buffer ∧ res.bodyMode ≠ .none) := fun h => hmode.elim h.1 h.2
  simp only [buildIovec, hfile, decide_false, Bool.not_false, and_true, if_neg hok]
  refine ⟨_, if_neg (by decide), ?_⟩
  -- an absent part contributes no bytes, as an empty one does
  have hhdr : ∀ l : List UInt8, (if l ≠ [] then [l] else []).flatten = l := by
    intro l
    by_cases hl : l = [] <;> simp [hl]
  have hbody : (if ¬res.body = [] ∧ res.headRequest = false then [res.body] else []).flatten =
      res.sentBody := by
    unfold sentBody
    cases res.headRequest with
    | true => simp
    | false => simpa using hhdr res.body
  simp only [flatten_append, hhdr, statusLineFor, formatContentLength, unlines, headLines]
  cases res.keepAlive <;> simp [hbody]

/-! ## The lines can be read back -/

variable {l : List UInt8} {code : Nat}

/-- Text without CR and LF has no CR. -/
theorem not_mem_of_containsCrlf (h : containsCrlf l = false) : (13 : UInt8) ∉ l := by
  intro hmem
  have : containsCrlf l = true := any_eq_true.mpr ⟨13, hmem, by decide⟩
  rw [h] at this
  cases this

/-- An accepted header is one line. -/
theorem line_headerText {c : HeaderCall} (h : c.accepted = true) : Line c.text := by
  simp only [HeaderCall.accepted, Bool.and_eq_true, Bool.not_eq_true', Bool.or_eq_false_iff] at h
  have hsep : (13 : UInt8) ∉ ascii ": " := by decide
  refine ⟨by simp [HeaderCall.text, headerText, ascii], ?_⟩
  simp only [HeaderCall.text, headerText, mem_append]
  rintro (hm | hm | hm)
  · exact not_mem_of_containsCrlf h.1.1 hm
  · exact hsep hm
  · exact not_mem_of_containsCrlf h.1.2 hm

/-- The byte of a decimal digit. -/
theorem toNat_digit {k : Nat} (hk : k < 10) : (UInt8.ofNat (48 + k)).toNat = 48 + k := by
  rw [UInt8.toNat_ofNat']
  omega

theorem digit_bounds {k : Nat} (hk : k < 10) :
    48 ≤ UInt8.ofNat (48 + k) ∧ UInt8.ofNat (48 + k) ≤ 57 := by
  rw [UInt8.le_iff_toNat_le, UInt8.le_iff_toNat_le, toNat_digit hk]
  exact ⟨Nat.le_add_right 48 k, Nat.add_le_add_left (Nat.le_of_lt_succ hk) 48⟩

/-- A number is written in digits. -/
theorem formatUint_digits {n : Nat} : ∀ b ∈ formatUint n, 48 ≤ b ∧ b ≤ 57 := by
  intro b hb
  unfold formatUint at hb
  split at hb
  · rw [mem_singleton.mp hb]
    decide
  · rcases Numeral.mem_putDigits (by decide) hb with hb | ⟨k, hk, rfl⟩
    · exact absurd hb not_mem_nil
    · exact digit_bounds hk

theorem formatUint_ne_nil (n : Nat) : formatUint n ≠ [] := by
  unfold formatUint
  split
  · exact cons_ne_nil _ _
  · next hn =>
    obtain ⟨m, rfl⟩ := Nat.exists_eq_add_one_of_ne_zero hn
    exact ne_nil_of_length_pos (Numeral.length_le_putDigits m _ [_])

/-- The client reads the number that was written. -/
theorem digits_formatUint (n : Nat) : digits (formatUint n) = some n := by
  have hall : (formatUint n).all (fun b => 48 ≤ b && b ≤ 57) = true := by
    rw [all_eq_true]
    intro b hb
    simpa using formatUint_digits b hb
  rw [digits, if_pos ⟨formatUint_ne_nil n, hall⟩]
  refine congrArg some ?_
  unfold formatUint
  split
  · next hn =>
    subst hn
    rfl
  · refine Numeral.worth_putDigits (fun b : UInt8 => b.toNat - 48) ?_ (fun k hk =>
      ?_) (Nat.le_refl n) []
    · decide
    · rw [toNat_digit hk]
      exact Nat.add_sub_cancel_left 48 k

/-- The code is read back from the status line. -/
theorem statusOf_statusText (h : code < 1000) : statusOf (statusText code) = some code := by
  have h1 : code / 100 < 10 := by omega
  have h2 : code / 10 % 10 < 10 := by omega
  have h3 : code % 10 < 10 := by omega
  have htake : (statusText code).take 9 = ascii "HTTP/1.1 " := rfl
  have hsp : ((statusText code).drop 12).head? = some 32 := rfl
  have hcode : ((statusText code).drop 9).take 3 =
      [UInt8.ofNat (48 + code / 100), UInt8.ofNat (48 + code / 10 % 10),
        UInt8.ofNat (48 + code % 10)] := rfl
  rw [statusOf, if_pos ⟨htake, hsp⟩, hcode, digits, if_pos]
  · simp only [foldl_cons, foldl_nil, toNat_digit h1, toNat_digit h2, toNat_digit h3]
    congr 1
    omega
  · refine ⟨cons_ne_nil _ _, ?_⟩
    simp only [all_cons, all_nil, digit_bounds h1, digit_bounds h2, digit_bounds h3,
      decide_true, Bool.and_true]

theorem reasonPhrases_noCr : ∀ p ∈ reasonPhrases, (13 : UInt8) ∉ ascii p.2 := by decide +kernel

/-- No reason phrase breaks its line. -/
theorem reasonPhrase_noCr (code : Nat) : (13 : UInt8) ∉ ascii (reasonPhrase code) := by
  unfold reasonPhrase
  cases h : reasonPhrases.find? (·.1 = code) with
  | none => exact not_mem_nil
  | some p => exact reasonPhrases_noCr p (mem_of_find?_eq_some h)

/-- The status line is one line. -/
theorem line_statusText (h : code < 1000) : Line (statusText code) := by
  have hdigit : ∀ k < 10, (13 : UInt8) ≠ UInt8.ofNat (48 + k) := by
    intro k hk heq
    have := congrArg UInt8.toNat heq
    simp at this
    omega
  have hreason := reasonPhrase_noCr code
  have hversion : (13 : UInt8) ∉ ascii "HTTP/1.1 " := by decide
  refine ⟨by simp [statusText], ?_⟩
  simp only [statusText, mem_append, mem_cons, not_mem_nil, or_false, not_or]
  exact ⟨hversion, ⟨hdigit _ (by omega), hdigit _ (by omega), hdigit _ (by omega)⟩, by decide,
    hreason⟩

/-- The code that is sent has three digits. -/
theorem finalCode_lt (code : Int) : finalCode code < 1000 := by
  unfold finalCode
  split <;> omega

theorem line_contentLength (n : Nat) : Line (contentLengthText n) := by
  have hname : (13 : UInt8) ∉ ascii "Content-Length: " := by decide
  refine ⟨by simp [contentLengthText, formatUint_ne_nil], ?_⟩
  simp only [contentLengthText, mem_append, not_or]
  refine ⟨hname, fun h => ?_⟩
  have := (formatUint_digits 13 h).1
  exact absurd this (by decide)

theorem line_headLines : ∀ l ∈ res.headLines calls, Line l := by
  intro l hl
  have hkeep : Line keepAliveText := ⟨by decide, by decide⟩
  rcases mem_append.mp hl with hl | hl
  · obtain ⟨c, hc, rfl⟩ := mem_map.mp hl
    exact line_headerText (mem_filter.mp hc).2
  rcases mem_cons.mp hl with rfl | hl
  · exact line_contentLength _
  split at hl
  · rw [mem_singleton.mp hl]
    exact hkeep
  · exact absurd hl not_mem_nil

/-! ## What the client makes of them -/

theorem trim_digits (h : ∀ b ∈ l, isBlank b = false) : trim (32 :: l) = l := by
  have hdrop : ∀ {l : List UInt8}, (∀ b ∈ l, isBlank b = false) → l.dropWhile isBlank = l := by
    intro l h
    cases l with
    | nil => rfl
    | cons b l => exact dropWhile_cons_of_neg (by simp [h b mem_cons_self])
  have hfront : (32 :: l).dropWhile isBlank = l := (dropWhile_cons_of_pos rfl).trans (hdrop h)
  rw [trim, hfront, trimEnd, hdrop fun b hb => h b (mem_reverse.mp hb), reverse_reverse]

/-- The value of `Content-Length` is the number. -/
theorem fieldValue_contentLength (n : Nat) : fieldValue (contentLengthText n) = formatUint n := by
  refine trim_digits fun b hb => ?_
  have hge := (formatUint_digits b hb).1
  simp only [isBlank, Bool.or_eq_false_iff, decide_eq_false_iff_not]
  constructor
  · rintro rfl
    exact absurd hge (by decide)
  · rintro rfl
    exact absurd hge (by decide)

theorem addLine_contentLength (fs : List Field) (n : Nat) :
    addLine fs (contentLengthText n) = fs ++ [⟨contentLength, formatUint n⟩] := by
  rw [← fieldValue_contentLength n]
  rfl

theorem addLine_keepAlive (fs : List Field) :
    addLine fs keepAliveText = fs ++ [⟨ascii "connection", ascii "keep-alive"⟩] := rfl

/-- Of the fields that delimit a message, the client sees the Content-Length and no other. -/
theorem values_headLines {calls : List HeaderCall}
    (hnames : ∀ c ∈ calls, c.accepted = true → ¬ c.framing) :
    values transferEncoding (fieldsOf (res.headLines calls)) = [] ∧
    values contentLength (fieldsOf (res.headLines calls)) = [formatUint res.body.length] := by
  have hother : ∀ name, (∀ c ∈ calls, c.accepted = true → fieldName c.text ≠ name) →
      values name (fieldsOf (headerLines calls)) = [] := by
    intro name hname
    refine values_foldl_addLine rfl fun l hl => ?_
    obtain ⟨c, hc, rfl⟩ := mem_map.mp hl
    obtain ⟨hc, hacc⟩ := mem_filter.mp hc
    exact hname c hc hacc
  have hte := hother transferEncoding fun c hc hacc h => hnames c hc hacc (.inr h)
  have hcl := hother contentLength fun c hc hacc h => hnames c hc hacc (.inl h)
  have hfields : ∃ more, fieldsOf (res.headLines calls) =
      fieldsOf (headerLines calls) ++ (⟨contentLength, formatUint res.body.length⟩ :: more) ∧
      (∀ f ∈ more, f.name = ascii "connection") := by
    rw [fieldsOf, headLines, foldl_append, foldl_cons, addLine_contentLength]
    cases res.keepAlive with
    | true =>
      refine ⟨[⟨ascii "connection", ascii "keep-alive"⟩], ?_, fun f hf =>
        by rw [mem_singleton.mp hf]⟩
      rw [if_pos rfl, foldl_cons, foldl_nil, addLine_keepAlive, append_assoc]
      rfl
    | false => exact ⟨[], by simp [fieldsOf], fun f hf => absurd hf not_mem_nil⟩
  obtain ⟨more, heq, hmore⟩ := hfields
  have hte' : values transferEncoding more = [] :=
    values_eq_nil.mpr fun f hf => by rw [hmore f hf]; decide
  have hcl' : values contentLength more = [] :=
    values_eq_nil.mpr fun f hf => by rw [hmore f hf]; decide
  have hne : contentLength ≠ transferEncoding := by decide
  constructor
  · rw [heq, values_append, hte, nil_append, ← singleton_append, values_append, hte']
    simp [values, hne]
  · rw [heq, values_append, hcl, nil_append, ← singleton_append, values_append, hcl']
    simp [values]

/-- A status whose response has no body. -/
def bodiless (status : Int) : Prop := status = 204 ∨ status = 304

instance (status : Int) : Decidable (bodiless status) := inferInstanceAs (Decidable (_ ∨ _))

/-- A receiver and the response agree on which codes have no body. -/
theorem bodiless_iff (status : Int) :
    (finalCode status < 200 ∨ finalCode status = 204 ∨ finalCode status = 304) ↔
    bodiless status := by
  unfold finalCode bodiless
  split <;> omega

/-- A receiver expects as many bytes as the body has. -/
theorem bodyLength_headLines {calls : List HeaderCall}
    (hnames : ∀ c ∈ calls, c.accepted = true → ¬ c.framing) :
    bodyLength res.headRequest (finalCode res.status) (fieldsOf (res.headLines calls)) =
      if res.headRequest = true ∨ bodiless res.status then .none else .length res.body.length := by
  obtain ⟨hte, hcl⟩ := values_headLines res hnames
  simp [bodyLength, hte, hcl, digits_formatUint, bodiless_iff]

/-- A buffered response ends at its last byte, unless it has a body under a status that
allows none. -/
theorem buffered_response_delimited (chunkedEnd : List UInt8 → Option Nat) (res : KlHttpResponse)
    (hfresh : res.hdrBuf = []) (hmode : res.bodyMode = .buffer ∨ res.bodyMode = .none)
    (calls : List HeaderCall) (hnames : ∀ c ∈ calls, c.accepted = true → ¬ c.framing) :
    ∃ iov, (res.addHeaders calls).buildIovec 7 = some iov ∧
      (responseEnd chunkedEnd res.headRequest iov.flatten = some iov.flatten.length ↔
        ¬ (res.headRequest = false ∧ bodiless res.status ∧ res.body ≠ [])) := by
  obtain ⟨iov, hiov, hbytes⟩ := buildIovec_eq hfresh hmode calls
  refine ⟨iov, hiov, ?_⟩
  have hcode := finalCode_lt res.status
  rw [hbytes, responseEnd_unlines (line_statusText hcode) (line_headLines res calls)
    (statusOf_statusText hcode), bodyLength_headLines res hnames, length_append]
  unfold sentBody
  cases hhead : res.headRequest with
  | true => simp
  | false =>
    by_cases hstatus : bodiless res.status
    · simp [hstatus]
    · simp [hstatus]

/-- A 204 with a body, as a handler that always writes its body sends it. -/
theorem no_content_with_body :
    ∃ iov, ({ status := 204, bodyMode := .buffer, body := ascii "x" } : KlHttpResponse).buildIovec
    7 = some iov ∧
      responseEnd (fun _ => none) false iov.flatten = some (iov.flatten.length - 1) ∧
      responseEnd (fun _ => none) false iov.flatten ≠ some iov.flatten.length :=
  ⟨_, rfl, by decide, by decide⟩

/-- An error page on a connection that is kept. -/
theorem buffered_response_delimited_not_found :
    ∃ iov, (({ status := 404, bodyMode := .buffer, body := ascii "no such page",
               keepAlive := true } :
        KlHttpResponse).addHeaders [{ name := ascii "Content-Type",
                                      value := ascii "text/plain" }]).buildIovec 7 =
        some iov ∧
      responseEnd (fun _ => none) false iov.flatten = some iov.flatten.length := by
  obtain ⟨iov, hiov, hend⟩ := buffered_response_delimited (fun _ => none)
    { status := 404, bodyMode := .buffer, body := ascii "no such page", keepAlive := true } rfl
      (.inl rfl)
    [{ name := ascii "Content-Type", value := ascii "text/plain" }] (by
      intro c hc _
      rw [mem_singleton.mp hc]
      rintro (h | h)
      · exact absurd h (by decide)
      · exact absurd h (by decide))
  exact ⟨iov, hiov, hend.mpr fun h => by rcases h.2.1 with h | h <;> cases h⟩

end KlHttpResponse
