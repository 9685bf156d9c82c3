-- SUMMARY: The header buffer of a response holds the accepted headers.
import Keel.Http.Response

/-!
# The header buffer

A header is four appends, and each may have to grow the buffer. When one fails, the call takes
back what the earlier ones have written. The capacity they have reached stays.
-/

open Message List

/-- The header buffer of a response. -/
structure KlHdrBuf where
  /-- `hdr_buf[0..hdr_len]`. -/
  hdrBuf : List UInt8
  hdrCap : Nat
  pos : 0 < hdrCap
  fits : hdrBuf.length ≤ hdrCap

/-- The arguments of `kl_http_response_header`. Within a call no size is asked of the allocator
twice, so `grants` is any pattern of failures. -/
structure HdrCall where
  name : Option (List UInt8)
  value : Option (List UInt8)
  grants : Nat → Bool

namespace KlHdrBuf

open KlHttpResponse KlDrainQueue

/-- The loop of `hdr_append`. Where it fails, the capacity is not what was needed. -/
def grow (b : KlHdrBuf) (grants : Nat → Bool) (need : Nat) :
    { b' : KlHdrBuf // b'.hdrBuf = b.hdrBuf } :=
  if need ≤ b.hdrCap then ⟨b, rfl⟩
  else if b.hdrCap > SIZE_MAX / 2 then ⟨b, rfl⟩
  else if grants (b.hdrCap * 2) then
    grow ⟨b.hdrBuf, b.hdrCap * 2, Nat.mul_pos b.pos Nat.two_pos,
      Nat.le_trans b.fits (Nat.le_mul_of_pos_right _ Nat.two_pos)⟩ grants need
  else ⟨b, rfl⟩
termination_by need - b.hdrCap
decreasing_by have := b.pos; omega

variable (b : KlHdrBuf) (grants : Nat → Bool)

/-- `hdr_append`. -/
def hdrAppend (data : List UInt8) : KlHdrBuf × Bool :=
  if data.length > SIZE_MAX - b.hdrBuf.length then (b, false)
  else
    let grown := (b.grow grants (b.hdrBuf.length + data.length)).1
    if h : b.hdrBuf.length + data.length ≤ grown.hdrCap then
      (⟨b.hdrBuf ++ data, grown.hdrCap, grown.pos, List.length_append ▸ h⟩, true)
    else (grown, false)

/-- Appends up to the first that fails. -/
def appendAll (b : KlHdrBuf) (grants : Nat → Bool) : List (List UInt8) → KlHdrBuf × Bool
  | [] => (b, true)
  | data :: rest =>
    let (b, ok) := b.hdrAppend grants data
    if ok then b.appendAll grants rest else (b, false)

/-- `hdr_len = saved_len`. -/
def rollback (saved : Nat) : KlHdrBuf :=
  { b with hdrBuf := b.hdrBuf.take saved, fits := Nat.le_trans (List.length_take_le' ..) b.fits }

/-- `kl_http_response_header`. -/
def header (c : HdrCall) : KlHdrBuf × Int :=
  match c.name, c.value with
  | some name, some value =>
    if containsCrlf name || containsCrlf value then (b, -1)
    else
      let (b', ok) := b.appendAll c.grants [name, ascii ": ", value, crlf]
      if ok then (b', 0) else (b'.rollback b.hdrBuf.length, -1)
  | _, _ => (b, -1)

/-- `kl_http_response_reset` keeps the buffer and forgets what is in it. -/
def reset : KlHdrBuf := { b with hdrBuf := [], fits := Nat.zero_le _ }

/-- A sequence of calls: the buffer they leave, and each call with what it returned. -/
def headers (b : KlHdrBuf) : List HdrCall → KlHdrBuf × List (HdrCall × Int)
  | [] => (b, [])
  | c :: calls =>
    let (out, rcs) := (b.header c).1.headers calls
    (out, (c, (b.header c).2) :: rcs)

/-! ## One call -/

theorem hdrAppend_spec (data : List UInt8) : (b.hdrAppend grants data).1.hdrBuf =
      b.hdrBuf ++ if (b.hdrAppend grants data).2 then data else [] := by
  unfold hdrAppend
  split
  · exact (append_nil _).symm
  dsimp only
  split
  · rfl
  · exact (b.grow ..).2.trans (append_nil _).symm

theorem appendAll_spec (parts : List (List UInt8)) :
    ∃ done, (b.appendAll grants parts).1.hdrBuf = b.hdrBuf ++ done ∧
      ((b.appendAll grants parts).2 = true → done = parts.flatten) := by
  induction parts generalizing b with
  | nil => exact ⟨[], (append_nil _).symm, fun _ => rfl⟩
  | cons data rest ih =>
    have hdata := b.hdrAppend_spec grants data
    unfold appendAll
    by_cases hok : (b.hdrAppend grants data).2 = true
    · obtain ⟨done, heq, hall⟩ := ih (b.hdrAppend grants data).1
      rw [if_pos hok] at hdata
      simp only [if_pos hok]
      refine ⟨data ++ done, by rw [heq, hdata, append_assoc], fun h => ?_⟩
      rw [hall h, flatten_cons]
    · simp only [if_neg hok]
      exact ⟨_, hdata, fun h => nomatch h⟩

/-- The line of a call without its CR LF. -/
def text (c : HdrCall) : List UInt8 := headerText (c.name.getD []) (c.value.getD [])

/-- A call returns 0 and has appended its line, whose text has no line break, or it returns -1
and leaves the buffer as it was. -/
theorem header_spec (c : HdrCall) :
    (b.header c).2 = 0 ∧ (b.header c).1.hdrBuf = b.hdrBuf ++ (text c ++ crlf) ∧
    containsCrlf (text c) = false ∨ (b.header c).2 = -1 ∧ (b.header c).1.hdrBuf = b.hdrBuf := by
  unfold header
  split
  · next name value hname hvalue =>
    split
    · exact .inr ⟨rfl, rfl⟩
    rename_i hcrlf
    obtain ⟨done, heq, hall⟩ := b.appendAll_spec c.grants [name, ascii ": ", value, crlf]
    dsimp only
    split
    · next hok =>
      refine .inl ⟨rfl, by rw [heq, hall hok]; simp [text, headerText, hname, hvalue], ?_⟩
      have hsep : containsCrlf (ascii ": ") = false := by decide
      rw [Bool.not_eq_true, Bool.or_eq_false_iff] at hcrlf
      simp_all [text, headerText, containsCrlf]
    · exact .inr ⟨rfl, (congrArg (take _) heq).trans take_left⟩
  · exact .inr ⟨rfl, rfl⟩

/-- The `header` of a response is this call, with its success as the room there was. -/
theorem header_room {b : KlHdrBuf} {c : HdrCall} {name value : List UInt8} {res : KlHttpResponse}
    (hres : res.hdrBuf = b.hdrBuf) (hname : c.name = some name) (hvalue : c.value = some value) :
    res.header name value ((b.header c).2 = 0) = ({ res with hdrBuf := (b.header c).1.hdrBuf },
      (b.header c).2) := by
  rcases b.header_spec c with ⟨hrc, heq, hc⟩ | ⟨hrc, heq⟩
  · have hfree : (containsCrlf name || containsCrlf value) = false := by
      simp_all [text, headerText, containsCrlf]
    simp [KlHttpResponse.header, hfree, hrc, heq, hres, text, hname, hvalue]
  · simp [KlHttpResponse.header, hrc, heq, ← hres]

/-! ## Any sequence of calls -/

/-- The calls that returned 0. -/
def accepted (rcs : List (HdrCall × Int)) : List HdrCall := (rcs.filter (·.2 = 0)).map Prod.fst

theorem headers_spec (calls : List HdrCall) :
    (b.headers calls).1.hdrBuf = b.hdrBuf ++ (accepted (b.headers calls).2).flatMap
    (text · ++ crlf) ∧ ∀ c ∈ accepted (b.headers calls).2, containsCrlf (text c) = false := by
  induction calls generalizing b with
  | nil => exact ⟨(append_nil _).symm, fun _ hc => nomatch hc⟩
  | cons c calls ih =>
    obtain ⟨hbuf, hall⟩ := ih (b.header c).1
    rcases b.header_spec c with ⟨hrc, heq, hc⟩ | ⟨hrc, heq⟩
    · simp_all [headers, accepted]
    · simp_all [headers, accepted]

/-- Cut at every CR and every LF, lines are their texts and the empty pieces inside their ends. -/
theorem splitOnP_lines {cs : List HdrCall} (h : ∀ c ∈ cs, containsCrlf (text c) = false) :
    (cs.flatMap (text · ++ crlf)).splitOnP (fun b => b = 13 || b = 10) = cs.flatMap (fun c =>
      [text c, []]) ++ [[]] := by
  induction cs with
  | nil => rfl
  | cons c cs ih =>
    obtain ⟨hc, hcs⟩ := forall_mem_cons.mp h
    have hfree : ∀ b ∈ text c, (decide (b = 13) || decide (b = 10)) =
        false := by simpa [containsCrlf] using hc
    have hline (rest : List UInt8) : text c ++ crlf ++ rest =
        text c ++ 13 :: ([] ++ 10 :: rest) := by simp [crlf]
    rw [flatMap_cons, hline, splitOnP_append_cons_of_forall_mem hfree 13 rfl,
      splitOnP_append_cons_of_forall_mem (forall_mem_nil _) 10 rfl, ih hcs]
    rfl

/-- After any calls the buffer is the lines of those that returned 0. One that fails changes
nothing in it. Its line breaks are those that end the lines. -/
theorem header_block (b : KlHdrBuf) (calls : List HdrCall) : let out := b.reset.headers calls
    out.1.hdrBuf = (accepted out.2).flatMap (text · ++ crlf) ∧
    (∀ (b : KlHdrBuf) (c : HdrCall), (b.header c).2 ≠ 0 → (b.header c).1.hdrBuf = b.hdrBuf) ∧
    out.1.hdrBuf.splitOnP (fun b => b = 13 || b = 10) = (accepted out.2).flatMap (fun c =>
      [text c, []]) ++ [[]] := by
  intro out
  obtain ⟨hbuf, hall⟩ := b.reset.headers_spec calls
  refine ⟨hbuf, fun b c hfail => ?_, hbuf ▸ splitOnP_lines hall⟩
  rcases b.header_spec c with ⟨hrc, -⟩ | ⟨-, heq⟩
  · exact absurd hrc hfail
  · exact heq

/-- The call on a response, with `room` for whether growing its buffer succeeds. -/
def onResponse (c : HdrCall) (room : Bool) (res : KlHttpResponse) : KlHttpResponse :=
  match c.name, c.value with
  | some name, some value => (res.header name value room).1
  | _, _ => res

/-- The buffer refines that of `KlHttpResponse`: after any calls and any failures of the allocator
both hold the same bytes, if a call on the response finds room where the one on the buffer returned
0. -/
theorem headers_refine (res : KlHttpResponse) (calls : List HdrCall) :
    (b.headers calls).2.foldl (fun res x => onResponse x.1 (x.2 = 0) res)
    { res with hdrBuf := b.hdrBuf } =
      { res with hdrBuf := (b.headers calls).1.hdrBuf } := by
  induction calls generalizing b with
  | nil => rfl
  | cons c calls ih =>
    rw [headers, foldl_cons, ← ih]
    refine congrArg (foldl _ · _) ?_
    unfold onResponse
    split
    · next hname hvalue => rw [header_room rfl hname hvalue]
    · next hnull =>
      unfold header
      split
      · next hname hvalue => exact absurd hvalue (hnull _ _ hname)
      · rfl

end KlHdrBuf
