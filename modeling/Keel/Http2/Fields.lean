-- SUMMARY: Header fields of HTTP/2 responses and requests.
import Keel.Http.HeaderBuffer
import Keel.Http2.Server

/-!
# Header fields

A response keeps its headers as HTTP/1.1 lines. For HTTP/2 they are taken apart again into a
table of fixed size. A request is copied into one block of storage, whose size is computed
first, and points into it.
-/

open Message List Option

namespace Http2

/-! ## Responses -/

def H2_MAX_RESP_HEADERS : Nat := 64

/-- `h2_extract_response_headers`, with `left` free entries in the table. -/
def extractResponseHeaders : Nat → List UInt8 → List (List UInt8 × List UInt8)
  | 0, _ => []
  | left + 1, bytes =>
    if bytes.length < 2 ∨ bytes.take 2 = crlf then []
    else
      match bytes.dropWhile (· ≠ 58) with
      | [] => []
      | _ :: after =>
        let name := bytes.takeWhile (· ≠ 58)
        let val := after.dropWhile (· = 32)
        match splitLine val with
        | some (value, rest) => (name, value) :: extractResponseHeaders left rest
        | none => [(name, val.dropLast)]

/-- `h2c_hop_by_hop`. -/
def hopByHop (name : List UInt8) : Bool :=
  ["connection", "upgrade", "http2-settings", "keep-alive", "proxy-connection", "transfer-encoding",
    "te"].any
    fun hop => ascii hop = name.map lower

/-- The response cannot be sent as asked. -/
def replaced (res : KlHttpResponse) (file : FileRead) : Bool :=
  match res.bodyMode with
  | .none | .buffer _ => false
  | .stream => true
  | .file size =>
    MAX_FILE_SIZE < size || (0 < size && !res.headRequest &&
      match file with | .whole _ => false | _ => true)

/-- The status and the header list that `h2_submit_response` gives the session. -/
def submitHeaders (res : KlHttpResponse) (file : FileRead) (hdrBuf : List UInt8) :
    Nat × List (List UInt8 × List UInt8) :=
  if replaced res file then (500, [(ascii "content-type", ascii "text/plain")])
  else (res.status, (extractResponseHeaders H2_MAX_RESP_HEADERS hdrBuf).filter fun h =>
    !hopByHop h.1)

/-- The header of a call as HTTP/2 has it. -/
def fieldOf (c : HdrCall) : List UInt8 × List UInt8 :=
  (c.name.getD [], (c.value.getD []).dropWhile (· = 32))

theorem dropWhile_blank_append (l rest : List UInt8) :
    (l ++ 13 :: rest).dropWhile (· = 32) = l.dropWhile (· = 32) ++ 13 :: rest := by
  rw [dropWhile_append]
  split
  · next hempty => rw [isEmpty_iff.mp hempty]; rfl
  · rfl

/-- One line of the buffer is one entry. -/
theorem extractResponseHeaders_line {c : HdrCall}
    (hname : c.name.getD [] ≠ [] ∧ 58 ∉ c.name.getD [])
    (htext : KlHttpResponse.containsCrlf (KlHdrBuf.text c) = false) (left : Nat)
    (rest : List UInt8) : extractResponseHeaders (left + 1) (KlHdrBuf.text c ++ crlf ++ rest) =
      fieldOf c :: extractResponseHeaders left rest := by
  obtain ⟨hne, hcolon⟩ := hname
  simp only [KlHdrBuf.text, KlHttpResponse.headerText, fieldOf] at htext ⊢
  generalize c.name.getD [] = name at *
  generalize c.value.getD [] = value at *
  obtain ⟨hfree, -, hvalue⟩ : (∀ b ∈ name, b ≠ 13 ∧ b ≠ 10) ∧ _ ∧ ∀ b ∈ value, b ≠ 13 ∧ b ≠ 10 := by
    simpa [KlHttpResponse.containsCrlf] using htext
  have hbytes : name ++ (ascii ": " ++ value) ++ crlf ++ rest = name ++ 58 :: 32 ::
      (value ++ (crlf ++ rest)) := by
    simp [ascii]
  have hword : ∀ b ∈ name, (decide (b ≠ 58)) = true := fun b hb => by
    simpa using ne_of_mem_of_not_mem hb hcolon
  have hsplit : splitLine ((value ++ (crlf ++ rest)).dropWhile (· = 32)) =
      some (value.dropWhile (· = 32), rest) := by
    rw [show value ++ (crlf ++ rest) = value ++ 13 :: (10 :: rest) from rfl, dropWhile_blank_append]
    refine splitLine_append (fun hmem => ?_) rest
    exact (hvalue 13 ((dropWhile_suffix _).mem hmem)).1 rfl
  rw [hbytes, extractResponseHeaders, if_neg]
  · rw [dropWhile_append_of_pos hword, takeWhile_append_of_pos hword]
    simp [hsplit]
  · rintro (hlen | hcr)
    · simp only [length_append, length_cons] at hlen
      omega
    · cases name with
      | nil => exact hne rfl
      | cons a name => exact (hfree a mem_cons_self).1 (cons.inj hcr).1

/-- The table takes the lines of the first calls, as many as it has entries. -/
theorem extractResponseHeaders_lines {cs : List HdrCall}
    (hname : ∀ c ∈ cs, c.name.getD [] ≠ [] ∧ 58 ∉ c.name.getD [])
    (htext : ∀ c ∈ cs, KlHttpResponse.containsCrlf (KlHdrBuf.text c) = false) (left : Nat) :
    extractResponseHeaders left (cs.flatMap (KlHdrBuf.text · ++ crlf)) =
    (cs.take left).map fieldOf := by
  induction cs generalizing left with
  | nil =>
    cases left with
    | zero => rfl
    | succ left => exact if_pos (.inl Nat.two_pos)
  | cons c cs ih =>
    cases left with
    | zero => rfl
    | succ left =>
      obtain ⟨hc, hname⟩ := forall_mem_cons.mp hname
      obtain ⟨hline, htext⟩ := forall_mem_cons.mp htext
      rw [flatMap_cons, extractResponseHeaders_line hc hline, ih hname htext]
      rfl

/-- The session gets every header that was accepted, but for those of the connection, exactly
when all headers that the table has no entry for are of the connection. -/
theorem response_headers_kept (b : KlHdrBuf) (calls : List HdrCall) (res : KlHttpResponse)
    (file : FileRead)
    (hname : ∀ c ∈ KlHdrBuf.accepted (b.reset.headers calls).2,
      c.name.getD [] ≠ [] ∧ 58 ∉ c.name.getD [])
    (hsent : replaced res file = false) :
    submitHeaders res file (b.reset.headers calls).1.hdrBuf = (res.status,
      ((KlHdrBuf.accepted (b.reset.headers calls).2).map fieldOf).filter fun h => !hopByHop h.1) ↔
    ∀ c ∈ (KlHdrBuf.accepted (b.reset.headers calls).2).drop H2_MAX_RESP_HEADERS,
      hopByHop (c.name.getD []) = true := by
  obtain ⟨hbuf, htext⟩ := b.reset.headers_spec calls
  rw [submitHeaders, hsent, if_neg Bool.false_ne_true, hbuf]
  rw [show b.reset.hdrBuf = [] from rfl, nil_append, extractResponseHeaders_lines hname htext]
  generalize KlHdrBuf.accepted (b.reset.headers calls).2 = cs
  have hsplit : (cs.map fieldOf).filter (!hopByHop ·.1) =
      ((cs.take H2_MAX_RESP_HEADERS).map fieldOf).filter (!hopByHop ·.1) ++
        ((cs.drop H2_MAX_RESP_HEADERS).map fieldOf).filter (!hopByHop ·.1) := by
    rw [← filter_append, ← map_append, take_append_drop]
  rw [hsplit, Prod.mk.injEq, and_iff_right rfl, self_eq_append_right, filter_eq_nil_iff,
    List.forall_mem_map]
  simp [fieldOf]

/-- As many headers as the table has entries, and one of the connection. -/
theorem response_headers_kept_full :
    let calls : List HdrCall := List.replicate 64 ⟨some [97], some [32, 98], fun _ => true⟩ ++
      [⟨some (ascii "Connection"), some (ascii "close"), fun _ => true⟩]
    let b : KlHdrBuf := ⟨[], 1000, by decide, by decide⟩
    (KlHdrBuf.accepted (b.reset.headers calls).2).length = 65 ∧
      (submitHeaders ⟨200, .none, false⟩ .short (b.reset.headers calls).1.hdrBuf).2.length =
        64 := by
  intro calls b
  have hkept :=
    (response_headers_kept b calls ⟨200, .none, false⟩ .short (by decide +kernel) rfl).mpr
    (by decide +kernel)
  rw [hkept]
  decide +kernel

/-- Calls that all succeed, on a buffer that is large enough. -/
def sixtyFive : KlHdrBuf × List (HdrCall × Int) :=
  KlHdrBuf.headers ⟨[], 1000, by decide, by decide⟩ (List.replicate 65 ⟨some [97], some [98],
    fun _ => true⟩)

theorem header_dropped : (KlHdrBuf.accepted sixtyFive.2).length = 65 ∧
    (submitHeaders ⟨200, .none, false⟩ .short sixtyFive.1.hdrBuf).2.length = 64 := by
  decide +kernel

/-! ## Requests -/

namespace KlHttp2ServerConn

/-- Bytes of the header storage. -/
structure Span where
  off : Nat
  len : Nat

def Span.read (s : Span) (storage : List UInt8) : List UInt8 := (storage.drop s.off).take s.len

/-- The request of a stream as it points into the storage. -/
structure Stored where
  method : Span
  path : Span
  query : Option Span
  headers : List (Span × Span)
  contentLength : Nat

def Stored.read (req : Stored) (storage : List UInt8) : KlHttpRequest :=
  { method := req.method.read storage
    path := req.path.read storage
    query := req.query.map (·.read storage)
    headers := req.headers.map fun h => (h.1.read storage, h.2.read storage)
    contentLength := req.contentLength }

def isContentLength (h : List UInt8 × List UInt8) : Bool := h.1.map lower = ascii "content-length"

/-- The bytes of a name and a value, each with a zero byte behind it. -/
def entrySize (h : List UInt8 × List UInt8) : Nat := h.1.length + 1 + h.2.length + 1

/-- The sizes of the headers added to `total`, with the checks of the loop. -/
def addEntries : Nat → List (List UInt8 × List UInt8) → Option Nat
  | total, [] => some total
  | total, h :: rest =>
    let entry := entrySize h % (SIZE_MAX + 1)
    if SIZE_MAX / 2 < h.1.length ∨ SIZE_MAX / 2 < h.2.length ∨ SIZE_MAX - total < entry then none
    else addEntries (total + entry) rest

def Reported.hostEntry (r : Reported) : List UInt8 × List UInt8 := (ascii "host", r.authority)

/-- The size of the storage, in a `size_t`; `none` where the request is refused. -/
def Reported.storageSize (r : Reported) : Option Nat :=
  if SIZE_MAX / 2 < r.method.length ∨ SIZE_MAX / 2 < r.path.length ∨
      SIZE_MAX / 2 < r.authority.length then none
  else
    (addEntries (entrySize (r.method, r.path) % (SIZE_MAX + 1)) r.headers).bind fun total =>
      if r.injectHost then
        let hostEntry := entrySize r.hostEntry % (SIZE_MAX + 1)
        if SIZE_MAX - total < hostEntry then none else some (total + hostEntry)
      else some total

/-- A name and a value are copied behind what has been written. -/
def put (storage : List UInt8) (h : List UInt8 × List UInt8) : List UInt8 × (Span × Span) :=
  (storage ++ (h.1 ++ 0 :: (h.2 ++ [0])),
    ⟨storage.length, h.1.length⟩, ⟨storage.length + h.1.length + 1, h.2.length⟩)

/-- The content-length behind a header, or `none` when the header has one that is not valid. -/
def nextLength (cl : Option Nat) (h : List UInt8 × List UInt8) : Option (Option Nat) :=
  if isContentLength h then
    if h.2 = [] then none else (parseLength 0 h.2).map some
  else some cl

/-- The loop over the headers; `storage` is what has been written. A content-length that is not
valid ends it. -/
def putHeaders : List UInt8 → Option Nat → List (List UInt8 × List UInt8) →
    List UInt8 × Option (List (Span × Span) × Option Nat)
  | storage, cl, [] => (storage, some ([], cl))
  | storage, cl, h :: rest =>
    let (storage, spans) := put storage h
    match nextLength cl h with
    | none => (storage, none)
    | some cl =>
      let out := putHeaders storage cl rest
      (out.1, out.2.map fun x => (spans :: x.1, x.2))

/-- The part of `h2_cb_on_request` that fills the storage: the bytes written, and the request if it
is not refused. -/
def storeRequest (alloc : Nat → Bool) (r : Reported) : List UInt8 × Option Stored :=
  match r.storageSize.filter alloc with
  | none => ([], none)
  | some _ =>
    let off := r.method.length + 1
    let i := r.path.findIdx (· = 63)
    match putHeaders (r.method ++ 0 :: (r.path ++ [0])) none r.headers with
    | (storage, none) => (storage, none)
    | (storage, some (headers, cl)) =>
      let host := put storage r.hostEntry
      (if r.injectHost then host.1 else storage, some
        { method := ⟨0, r.method.length⟩
          path := ⟨off, if i < r.path.length then i else r.path.length⟩
          query := if i < r.path.length then some ⟨off + i + 1, r.path.length - i - 1⟩ else none
          headers := if r.injectHost then headers ++ [host.2] else headers
          contentLength := cl.getD 0 })

/-- The method and the path, and the two parts of each header, lie in one address space. -/
def Reported.InMemory (r : Reported) : Prop :=
  entrySize (r.method, r.path) ≤ SIZE_MAX ∧ ∀ h ∈ r.headers, entrySize h ≤ SIZE_MAX

instance (r : Reported) : Decidable r.InMemory := inferInstanceAs (Decidable (_ ∧ _))

/-! ### Content lengths -/

variable {hs : List (List UInt8 × List UInt8)}

/-- The last content-length, or `cl` without one. -/
def lastLength (cl : Nat) (hs : List (List UInt8 × List UInt8)) : Nat :=
  ((hs.filter isContentLength).getLast?.map fun h => (digits h.2).getD 0).getD cl

/-- Digits whose value passes the check of the loop before the last one, but is beyond
`SIZE_MAX`. -/
def Wraps (ds : List UInt8) : Prop := ∃ n, digits ds = some n ∧ SIZE_MAX < n ∧ n ≤ SIZE_MAX + 4

/-- The digits of `ds` behind digits worth `n`. -/
abbrev valueFrom (n : Nat) (ds : List UInt8) : Nat := Numeral.worth 10 (fun b => b.toNat - 48) n ds

variable {ds p : List UInt8} {n size : Nat} {cl out : Option Nat}

/-- What the loop takes for digits is digits, and their value where no beginning of them wraps. -/
theorem parseLength_some {v : Nat} (h : parseLength n ds = some v) (hn : n ≤ SIZE_MAX) :
    (ds.all fun b => 48 ≤ b && b ≤ 57) = true ∧
      ((∀ p, p <+: ds → ¬(SIZE_MAX < valueFrom n p ∧ valueFrom n p ≤ SIZE_MAX + 4)) →
        v = valueFrom n ds ∧ v ≤ SIZE_MAX) := by
  induction ds generalizing n with
  | nil =>
    obtain rfl := some.inj h
    exact ⟨rfl, fun _ => ⟨rfl, hn⟩⟩
  | cons c ds ih =>
    unfold parseLength at h
    split_ifs at h with hc hlimit
    obtain ⟨hall, hval⟩ := ih h (Nat.le_of_lt_succ (Nat.mod_lt _ (Nat.succ_pos _)))
    refine ⟨by simpa [hall] using hc, fun hfree => ?_⟩
    have hnext : n * 10 + (c.toNat - 48) ≤ SIZE_MAX := by
      -- the check leaves room for four values that do not fit
      have hdigit : c.toNat ≤ 57 :=
        UInt8.le_iff_toNat_le.mp (UInt8.not_lt.mp fun hgt => hc (.inr hgt))
      have hone := hfree [c] (List.prefix_append [c] ds)
      simp only [valueFrom, Numeral.worth, foldl_cons, foldl_nil] at hone
      unfold SIZE_MAX at hlimit hone ⊢
      omega
    rw [Nat.mod_eq_of_lt (Nat.lt_succ_of_le hnext)] at hval
    exact hval fun p hp => hfree (c :: p) (cons_prefix_cons.mpr ⟨rfl, hp⟩)

theorem digits_eq_some :
    digits ds = some n ↔ (ds ≠ [] ∧ (ds.all fun b => 48 ≤ b && b ≤ 57) = true) ∧
    valueFrom 0 ds = n := by
  unfold digits
  split
  · next h => exact ⟨fun hn => ⟨h, some.inj hn⟩, fun hn => congrArg some hn.2⟩
  · next h => exact ⟨nofun, fun hn => absurd hn.1 h⟩

/-- A beginning of digits is worth at most what they are. -/
theorem digits_prefix_le {m : Nat} (hp : p <+: ds) (hm : digits p = some m)
    (hn : digits ds = some n) : m ≤ n := by
  obtain ⟨rest, rfl⟩ := hp
  obtain ⟨-, rfl⟩ := digits_eq_some.mp hm
  obtain ⟨-, rfl⟩ := digits_eq_some.mp hn
  rw [valueFrom, valueFrom, Numeral.worth, Numeral.worth, foldl_append]
  exact Numeral.le_worth (by decide) _ _ rest

theorem contentLength_cons (cl : Option Nat) (h : List UInt8 × List UInt8) :
    contentLength cl (h :: hs) = (nextLength cl h).bind (contentLength · hs) := by
  simp only [contentLength, nextLength, isContentLength, decide_eq_true_eq]
  split
  · split
    · rfl
    · rw [Option.bind_map]
      rfl
  · rfl

/-- The content-length behind a header that the loop takes. -/
theorem nextLength_some {h : List UInt8 × List UInt8}
    (hout : nextLength cl h = some out) (hfree : ∀ p, p <+: h.2 → ¬Wraps p) :
    if isContentLength h then ∃ n ≤ SIZE_MAX, digits h.2 = some n ∧ out = some n else out = cl := by
  unfold nextLength at hout
  split_ifs at hout ⊢ with his hne
  · obtain ⟨n, hn, rfl⟩ := map_eq_some_iff.mp hout
    obtain ⟨hall, hval⟩ := parseLength_some hn (Nat.zero_le _)
    obtain ⟨rfl, hle⟩ := hval fun p hp hwrap => by
      by_cases hnil : p = []
      · subst hnil
        exact absurd hwrap.1 (by decide)
      · have hdigits : p.all (fun b => 48 ≤ b && b ≤ 57) = true :=
          all_eq_true.mpr fun b hb => all_eq_true.mp hall b (hp.subset hb)
        exact hfree p hp ⟨_, digits_eq_some.mpr ⟨⟨hnil, hdigits⟩, rfl⟩, hwrap⟩
    exact ⟨_, hle, digits_eq_some.mpr ⟨⟨hne, hall⟩, rfl⟩, rfl⟩
  · exact (some.inj hout).symm

theorem contentLength_some (hout : contentLength cl hs = some out)
    (hfree : ∀ h ∈ hs, isContentLength h = true → ∀ p, p <+: h.2 → ¬Wraps p) :
    out.getD 0 = lastLength (cl.getD 0) hs ∧
      ∀ h ∈ hs, isContentLength h = true → ∃ n ≤ SIZE_MAX, digits h.2 = some n := by
  induction hs generalizing cl with
  | nil =>
    obtain rfl := some.inj hout
    exact ⟨rfl, forall_mem_nil _⟩
  | cons h hs ih =>
    obtain ⟨hhead, hfree⟩ := forall_mem_cons.mp hfree
    rw [contentLength_cons] at hout
    obtain ⟨cl', hnext, hout⟩ := bind_eq_some_iff.mp hout
    obtain ⟨hlast, hvalid⟩ := ih hout hfree
    rw [forall_mem_cons]
    unfold lastLength at hlast ⊢
    by_cases his : isContentLength h = true
    · have hnext := nextLength_some hnext (hhead his)
      rw [if_pos his] at hnext
      obtain ⟨n, hle, hn, rfl⟩ := hnext
      refine ⟨hlast.trans ?_, fun _ => ⟨n, hle, hn⟩, hvalid⟩
      rw [filter_cons_of_pos his, getLast?_cons]
      cases (hs.filter isContentLength).getLast? with
      | none => exact (congrArg (Option.getD · 0) hn).symm
      | some last => rfl
    · have hsame : cl' = cl := by
        rw [nextLength, if_neg his] at hnext
        exact (some.inj hnext).symm
      rw [filter_cons_of_neg his]
      exact ⟨hsame ▸ hlast, fun h => absurd h his, hvalid⟩

/-! ### Storage -/

theorem Span.read_append (a s rest : List UInt8) :
    Span.read ⟨a.length, s.length⟩ (a ++ (s ++ rest)) = s := by
  simp [Span.read]

/-- A copied name and value are read back, whatever is written behind them. -/
theorem put_spec (storage : List UInt8) (h : List UInt8 × List UInt8) :
    ∃ more, (put storage h).1 = storage ++ more ∧ more.length = entrySize h ∧ ∀ rest,
      ((put storage h).2.1.read (storage ++ more ++ rest),
        (put storage h).2.2.read (storage ++ more ++ rest)) = h := by
  refine ⟨h.1 ++ 0 :: (h.2 ++ [0]), rfl, ?_, fun rest => ?_⟩
  · simp only [entrySize, length_append, length_cons, length_nil]
    omega
  · have hname := Span.read_append storage h.1 (0 :: (h.2 ++ 0 :: rest))
    have hvalue := Span.read_append (storage ++ (h.1 ++ [0])) h.2 (0 :: rest)
    simp_all [put, Nat.add_assoc]

/-- The loop writes no more than the sizes of the headers. Where it is not ended early it writes
just as much, and what it points to is the headers. -/
theorem putHeaders_spec (storage : List UInt8) (cl : Option Nat)
    (hs : List (List UInt8 × List UInt8)) : ∃ more, (putHeaders storage cl hs).1 = storage ++ more ∧
      more.length ≤ (hs.map entrySize).sum ∧
      ∀ headers out, (putHeaders storage cl hs).2 = some (headers, out) →
        contentLength cl hs = some out ∧ more.length = (hs.map entrySize).sum ∧ ∀ rest,
          headers.map (fun h => (h.1.read (storage ++ more ++ rest),
            h.2.read (storage ++ more ++ rest))) = hs := by
  induction hs generalizing storage cl with
  | nil =>
    refine ⟨[], (append_nil _).symm, Nat.le_refl _, fun headers out h => ?_⟩
    obtain ⟨rfl, rfl⟩ := Prod.mk.inj (some.inj h)
    exact ⟨rfl, rfl, fun _ => rfl⟩
  | cons h hs ih =>
    obtain ⟨entry, hentry, hsize, hread⟩ := put_spec storage h
    rw [map_cons, sum_cons, contentLength_cons, putHeaders]
    simp only
    cases hnext : nextLength cl h with
    | none => exact ⟨entry, hentry, by omega, nofun⟩
    | some cl' =>
      obtain ⟨more, hmore, hle, hgo⟩ := ih (put storage h).1 cl'
      refine ⟨entry ++ more, hmore.trans (by rw [hentry, append_assoc]),
        by rw [length_append]; omega, fun headers out hout => ?_⟩
      obtain ⟨⟨tail, out'⟩, htail, heq⟩ := map_eq_some_iff.mp hout
      obtain ⟨rfl, rfl⟩ := Prod.mk.inj heq
      obtain ⟨hcl, hlen, hback⟩ := hgo tail out' htail
      refine ⟨hcl, by rw [length_append]; omega, fun rest => ?_⟩
      have hone := hread (more ++ rest)
      have hrest := hback rest
      rw [hentry] at hrest
      simp only [append_assoc] at hone hrest ⊢
      rw [map_cons, hone, hrest]

theorem addEntries_eq {total : Nat} (hfit : ∀ h ∈ hs, entrySize h ≤ SIZE_MAX)
    (h : addEntries total hs = some size) : size = total + (hs.map entrySize).sum := by
  induction hs generalizing total with
  | nil => exact (some.inj h).symm
  | cons e hs ih =>
    obtain ⟨he, hfit⟩ := forall_mem_cons.mp hfit
    unfold addEntries at h
    simp only at h
    split at h
    · cases h
    rw [ih hfit h, Nat.mod_eq_of_lt (Nat.lt_succ_of_le he), map_cons, sum_cons, Nat.add_assoc]

/-- The computed size is that of the method and the path, the headers and the host header. -/
theorem storageSize_eq {r : Reported} (hmem : r.InMemory) (h : r.storageSize = some size) :
    size = entrySize (r.method, r.path) + (r.headers.map entrySize).sum +
      if r.injectHost then entrySize r.hostEntry else 0 := by
  unfold Reported.storageSize at h
  split at h
  · cases h
  next hhalf =>
  obtain ⟨total, htotal, h⟩ := bind_eq_some_iff.mp h
  have htotal := addEntries_eq hmem.2 htotal
  rw [Nat.mod_eq_of_lt (Nat.lt_succ_of_le hmem.1)] at htotal
  split at h
  · next hinject =>
    have hhost : entrySize r.hostEntry ≤ SIZE_MAX := by
      have hauth : r.authority.length ≤ SIZE_MAX / 2 :=
        Nat.le_of_not_lt fun hlt => hhalf (.inr (.inr hlt))
      simp only [entrySize, Reported.hostEntry]
      unfold SIZE_MAX at hauth ⊢
      have hword : (ascii "host").length = 4 := by decide
      omega
    simp only [Nat.mod_eq_of_lt (Nat.lt_succ_of_le hhost)] at h
    split at h
    · cases h
    · rw [if_pos hinject, ← some.inj h, htotal]
  · next hinject =>
    rw [if_neg hinject, ← some.inj h, htotal]
    rfl

theorem Span.read_inside (a : List UInt8) {k : Nat} (h : k + n ≤ p.length) (rest : List UInt8) :
    Span.read ⟨a.length + 1 + k, n⟩ (a ++ 0 :: (p ++ rest)) = (p.drop k).take n := by
  have hdrop := @List.drop_length_add_append _ (a ++ [0]) (p ++ rest) k
  rw [length_append, append_assoc] at hdrop
  rw [Span.read]
  refine (congrArg (take n) hdrop).trans ?_
  rw [drop_append_of_le_length (by omega), take_append_of_le_length (by rw [length_drop]; omega)]

/-- What the request points to in front of its headers. -/
theorem read_request (r : Reported) (rest : List UInt8) (headers : List (Span × Span)) (cl : Nat)
    (hread : headers.map (fun h => (h.1.read (r.method ++ 0 :: (r.path ++ 0 :: rest)),
      h.2.read (r.method ++ 0 :: (r.path ++ 0 :: rest)))) =
        r.headers ++ if r.injectHost then [(ascii "host", r.authority)] else []) :
    Stored.read
      { method := ⟨0, r.method.length⟩
        path := ⟨r.method.length + 1,
          if r.path.findIdx (· = 63) < r.path.length then r.path.findIdx (· = 63)
          else r.path.length⟩
        query := if r.path.findIdx (· = 63) < r.path.length then
            some ⟨r.method.length + 1 + r.path.findIdx (· = 63) + 1,
              r.path.length - r.path.findIdx (· = 63) - 1⟩
          else none
        headers, contentLength := cl } (r.method ++ 0 :: (r.path ++ 0 :: rest)) = r.request cl := by
  have hmethod := Span.read_append [] r.method (0 :: (r.path ++ 0 :: rest))
  -- the query begins behind the first question mark
  have htake : r.path.takeWhile (· ≠ 63) = r.path.take (r.path.findIdx (· = 63)) := by
    simpa using @List.takeWhile_eq_take_findIdx_not _ r.path (fun b => decide (b ≠ 63))
  have hdrop : r.path.dropWhile (· ≠ 63) = r.path.drop (r.path.findIdx (· = 63)) := by
    simpa using @List.dropWhile_eq_drop_findIdx_not _ r.path (fun b => decide (b ≠ 63))
  have hmark : r.path.findIdx (· = 63) < r.path.length ↔ 63 ∈ r.path := by simp
  have hpath {k n : Nat} (h : k + n ≤ r.path.length) := Span.read_inside r.method h (0 :: rest)
  simp only [Stored.read, Reported.request, hread, htake, hdrop, KlHttpRequest.mk.injEq, ← hmark]
  refine ⟨hmethod, ?_, ?_, trivial, trivial⟩
  · refine (hpath (k := 0) (by split <;> omega)).trans ?_
    split
    · rfl
    · next hno => rw [drop_zero, take_length, take_of_length_le (Nat.le_of_not_lt hno)]
  · split
    · next hlt =>
      refine congrArg some ((hpath (k := r.path.findIdx (· = 63) + 1) (by omega)).trans ?_)
      rw [take_of_length_le (by rw [length_drop]; omega), drop_drop]
    · rfl

/-- The bytes written lie in the storage. An accepted request is the one that was reported, and its
content-length is the value of the last one, with every one a number that fits, exactly when no
beginning of a content-length wraps. -/
theorem request_stored (alloc : Nat → Bool) (r : Reported) (hmem : r.InMemory) :
    (storeRequest alloc r).1.length ≤ r.storageSize.getD 0 ∧
    ∀ req, (storeRequest alloc r).2 = some req →
      req.read (storeRequest alloc r).1 = r.request req.contentLength ∧
      ((req.contentLength = lastLength 0 r.headers ∧
          ∀ h ∈ r.headers, isContentLength h = true → ∃ n ≤ SIZE_MAX, digits h.2 = some n) ↔
        ∀ h ∈ r.headers, isContentLength h = true → ∀ p, p <+: h.2 → ¬Wraps p) := by
  obtain ⟨more, hmore, hle, hgo⟩ :=
    putHeaders_spec (r.method ++ 0 :: (r.path ++ [0])) none r.headers
  unfold storeRequest
  cases hsize : r.storageSize.filter alloc with
  | none => exact ⟨Nat.zero_le _, nofun⟩
  | some size =>
    have hsome : r.storageSize = some size := (filter_eq_some_iff.mp hsize).1
    have htotal := storageSize_eq hmem hsome
    have hbase : (r.method ++ 0 :: (r.path ++ [0])).length = entrySize (r.method, r.path) := by
      simp only [entrySize, length_append, length_cons, length_nil]
      omega
    rw [hsome, getD_some]
    generalize putHeaders _ none r.headers = out at hmore hgo
    obtain ⟨storage, out⟩ := out
    obtain rfl : storage = _ := hmore
    cases out with
    | none =>
      refine ⟨?_, nofun⟩
      show length (_ ++ _) ≤ _
      rw [length_append, hbase]
      omega
    | some x =>
      obtain ⟨headers, cl⟩ := x
      obtain ⟨hcl, hlen, hread⟩ := hgo headers cl rfl
      obtain ⟨entry, hentry, hhost, hback⟩ :=
        put_spec (r.method ++ 0 :: (r.path ++ [0]) ++ more) r.hostEntry
      refine ⟨?_, fun req hreq => ?_⟩
      · show length (if _ then _ else _) ≤ _
        rw [htotal, hentry]
        split <;> simp only [length_append, hbase, hhost, hlen] <;> omega
      obtain rfl := some.inj hreq
      refine ⟨?_, fun hexact h hm his p hp => ?_, fun hfree => ?_⟩
      · have happend (rest : List UInt8) : r.method ++ 0 :: (r.path ++ [0]) ++ more ++ rest =
            r.method ++ 0 :: (r.path ++ 0 :: (more ++ rest)) := by simp
        cases hinject : r.injectHost with
        | true =>
          show Stored.read ⟨_, _, _, headers ++ [_], _⟩ (put _ _).1 = _
          rw [hentry, happend]
          refine read_request r (more ++ entry) _ (cl.getD 0) ?_
          have hlast := hback []
          rw [append_nil] at hlast
          rw [← happend, map_append, hread entry, hinject, map_singleton, hlast]
          rfl
        | false =>
          show Stored.read ⟨_, _, _, headers, _⟩ _ = _
          rw [← append_nil (r.method ++ _ ++ more), happend]
          refine read_request r (more ++ []) headers (cl.getD 0) ?_
          rw [← happend, hread [], hinject]
          exact (append_nil _).symm
      · obtain ⟨n, hn, hdigits⟩ := hexact.2 h hm his
        rintro ⟨m, hm, hlt, -⟩
        exact absurd (digits_prefix_le hp hm hdigits) (by omega)
      · exact contentLength_some hcl hfree

/-- A request with a query, an authority and two content-lengths. -/
theorem request_stored_get :
    let r : Reported := ⟨ascii "GET", ascii "/a?b", ascii "h",
      [(ascii "Content-Length", ascii "7"), (ascii "x", []), (ascii "content-length", ascii "12")]⟩
    (storeRequest (fun _ => true) r).1.length = 54 ∧
      (storeRequest (fun _ => true) r).2.map (·.read (storeRequest (fun _ => true) r).1) =
        some (r.request 12) := by
  intro r
  have hmem : r.InMemory := by decide +kernel
  obtain ⟨req, hreq⟩ : ∃ req, (storeRequest (fun _ => true) r).2 = some req := ⟨_, rfl⟩
  obtain ⟨hread, -⟩ := (request_stored (fun _ => true) r hmem).2 req hreq
  rw [hreq]
  refine ⟨by decide +kernel, congrArg some (hread.trans (congrArg r.request ?_))⟩
  rw [← some.inj hreq]
  rfl

/-- 2 to the power of 64 is taken for a content-length of 0. -/
theorem content_length_wraps :
    let r : Reported := ⟨ascii "GET", ascii "/", [],
      [(ascii "content-length", ascii "18446744073709551616")]⟩
    digits (ascii "18446744073709551616") = some (SIZE_MAX + 1) ∧
      (storeRequest (fun _ => true) r).2.map (·.read (storeRequest (fun _ => true) r).1) =
        some (r.request 0) := by
  intro r
  exact ⟨by decide +kernel, by rfl⟩

end KlHttp2ServerConn

end Http2
