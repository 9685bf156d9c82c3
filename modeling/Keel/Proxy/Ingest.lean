-- SUMMARY: Peeking and reading come to one decision about a PROXY header.
import Keel.Proxy.Header

/-!
# Taking in the header

The readiness loop peeks at the socket and then reads the header's bytes; the completion loop
looks at what its receives have gathered. Each asks again when more has arrived. Reads of bytes
that were peeked give at least one of them, and how many is up to the socket.
-/

namespace Proxy

inductive KlHttpPeerSource where
  | socket | proxy
deriving DecidableEq, Repr

/-- The peer of the connection and where it is known from. -/
structure KlHttpConn where
  peerAddr : KlProxyAddr
  peerSource : KlHttpPeerSource
deriving DecidableEq, Repr

/-- A header with an address sets the peer. -/
def KlHttpConn.setPeer (c : KlHttpConn) : Option KlProxyAddr → KlHttpConn
  | some (.inet ip port) => ⟨.inet ip port, .proxy⟩
  | some (.inet6 ip port) => ⟨.inet6 ip port, .proxy⟩
  | some .unspec => c
  | none => c

section

variable (parse : List UInt8 → KlProxyParse)

/-- The reads that take `left` bytes off the socket's queue; read `n` offers `reads n + 1`. -/
def consume (reads : Nat → Nat) : Nat → Nat → List UInt8 → Option (List UInt8)
  | 0, left, queue => if left = 0 then some queue else none
  | fuel + 1, left, queue =>
    if left = 0 then some queue
    else
      let rd := min (reads fuel + 1) (min (min left KL_PROXY_HEADER_MAX) queue.length)
      if rd = 0 then none else consume reads fuel (left - rd) (queue.drop rd)

/-- `kl_http_conn_read_proxy_header` with these bytes in the socket: its result, the bytes left in
the socket, and the connection. -/
def readProxyHeader (reads : Nat → Nat) (c : KlHttpConn) (queue : List UInt8) :
    Int × List UInt8 × KlHttpConn :=
  let buf := queue.take KL_PROXY_HEADER_MAX
  -- nothing there: the peek would block
  if buf = [] then (0, queue, c)
  else
    let p := parse buf
    match p.result with
    | .needMore => (if KL_PROXY_HEADER_MAX ≤ buf.length then -1 else 0, queue, c)
    | .invalid => (-1, queue, c)
    | .none => (1, queue, c)
    | .ok =>
      match consume reads (p.consumed.getD 0) (p.consumed.getD 0) queue with
      | none => (-1, queue, c)
      | some rest => (1, rest, c.setPeer p.peer)

/-- `kl_http_conn_ingest_proxy` with these bytes received. -/
def ingestProxy (c : KlHttpConn) (buf : List UInt8) : Int × KlHttpConn :=
  let p := parse buf
  match p.result with
  | .needMore => (if KL_PROXY_HEADER_MAX ≤ buf.length then -1 else -2, c)
  | .invalid => (-1, c)
  | .none => (0, c)
  | .ok => (p.consumed.getD 0, c.setPeer p.peer)

/-! ## Decisions -/

/-- The connection is refused, or goes on without its first `header` bytes (0 without a header). -/
inductive ProxyDecision where
  | reject
  | goOn (header : Nat) (c : KlHttpConn)
deriving DecidableEq, Repr

/-- What the readiness loop makes of its bytes. -/
def peekDecision (reads : Nat → Nat) (c : KlHttpConn) (queue : List UInt8) : Option ProxyDecision :=
  let r := readProxyHeader parse reads c queue
  if r.1 < 0 then some .reject
  else if r.1 = 0 then none
  else some (.goOn (queue.length - r.2.1.length) r.2.2)

/-- What `comp_drive_proxy` makes of its bytes. -/
def bufferedDecision (c : KlHttpConn) (buf : List UInt8) : Option ProxyDecision :=
  let r := ingestProxy parse c buf
  if r.1 = -1 then some .reject
  else if r.1 = -2 then none
  else some (.goOn r.1.toNat r.2)

/-- What a parse means for the connection. -/
def verdict (c : KlHttpConn) (p : KlProxyParse) : Option ProxyDecision :=
  match p.result with
  | .needMore => none
  | .invalid => some .reject
  | .none => some (.goOn 0 c)
  | .ok => some (.goOn (p.consumed.getD 0) (c.setPeer p.peer))

end

section

variable {pton4 pton6 : List UInt8 → Option (List UInt8)} {c : KlHttpConn}

/-- The header leaves the socket, however the reads are cut. -/
theorem consume_eq (reads : Nat → Nat) (fuel left : Nat) (queue : List UInt8) (hfuel : left ≤ fuel)
    (hin : left ≤ queue.length) : consume reads fuel left queue = some (queue.drop left) := by
  induction fuel generalizing left queue with
  | zero =>
    have hzero : left = 0 := Nat.le_zero.mp hfuel
    unfold consume
    rw [if_pos hzero, hzero, List.drop_zero]
  | succ fuel ih =>
    unfold consume
    split
    · next hzero => rw [hzero, List.drop_zero]
    next hleft =>
    have hmax : KL_PROXY_HEADER_MAX = 536 := rfl
    generalize hrd : min (reads fuel + 1) (min (min left KL_PROXY_HEADER_MAX) queue.length) = rd
    have hpos : rd ≠ 0 := by omega
    have hle : rd ≤ left := by omega
    rw [if_neg hpos, ih (left - rd) (queue.drop rd) (by omega) (by rw [List.length_drop]; omega),
      List.drop_drop]
    congr 2
    omega

/-- A verdict stays when more bytes come. -/
theorem verdict_settled (c : KlHttpConn) :
    Decision.Settled fun buf => verdict c (klProxyParse pton4 pton6 buf) := by
  intro buf more d h
  have hresult : (klProxyParse pton4 pton6 buf).result ≠ .needMore := by
    intro hmore
    simp only [verdict, hmore] at h
    exact absurd h (Option.some_ne_none _).symm
  simp only [klProxyParse_append hresult]
  exact h

/-- There is one when the longest header is there. -/
theorem verdict_by_max {buf : List UInt8} (h : KL_PROXY_HEADER_MAX ≤ buf.length) :
    (verdict c (klProxyParse pton4 pton6 buf)).isSome = true := by
  have hresult : (klProxyParse pton4 pton6 buf).result ≠ .needMore := klProxyParse_by_max h
  unfold verdict
  cases hres : (klProxyParse pton4 pton6 buf).result with
  | needMore => exact absurd hres hresult
  | none => rfl
  | ok => rfl
  | invalid => rfl

theorem klProxyParse_header_le (buf : List UInt8) :
    (klProxyParse pton4 pton6 buf).consumed.getD 0 ≤ buf.length := by
  cases hn : (klProxyParse pton4 pton6 buf).consumed with
  | none => exact Nat.zero_le _
  | some n => exact (klProxyParse_consumed hn).1

/-- The verdict on a peek is the one on the bytes it shows. -/
theorem peekDecision_eq (reads : Nat → Nat) (queue : List UInt8) :
    peekDecision (klProxyParse pton4 pton6) reads c queue =
    verdict c (klProxyParse pton4 pton6 (queue.take KL_PROXY_HEADER_MAX)) := by
  have hle : (klProxyParse pton4 pton6 (queue.take KL_PROXY_HEADER_MAX)).consumed.getD 0 ≤
      (queue.take KL_PROXY_HEADER_MAX).length :=
    klProxyParse_header_le _
  have hlen : (queue.take KL_PROXY_HEADER_MAX).length ≤ queue.length := List.length_take_le' _ _
  unfold peekDecision readProxyHeader verdict
  simp only
  generalize queue.take KL_PROXY_HEADER_MAX = buf at hle hlen ⊢
  by_cases hnil : buf = []
  · rw [if_pos hnil, hnil]
    rfl
  rw [if_neg hnil]
  cases hres : (klProxyParse pton4 pton6 buf).result with
  | needMore =>
    have hshort : ¬ KL_PROXY_HEADER_MAX ≤ buf.length := fun hlong => klProxyParse_by_max hlong hres
    simp only [if_neg hshort]
    rfl
  | invalid => rfl
  | none =>
    simp only [Nat.sub_self]
    rfl
  | ok =>
    -- the reads take the header off the socket
    have hrest := consume_eq reads _ _ queue (Nat.le_refl _) (Nat.le_trans hle hlen)
    simp only [hrest, List.length_drop]
    rw [Nat.sub_sub_self (Nat.le_trans hle hlen)]
    rfl

/-- The verdict on buffered bytes. -/
theorem bufferedDecision_eq (buf : List UInt8) :
    bufferedDecision (klProxyParse pton4 pton6) c buf =
    verdict c (klProxyParse pton4 pton6 buf) := by
  unfold bufferedDecision ingestProxy verdict
  simp only
  cases hres : (klProxyParse pton4 pton6 buf).result with
  | needMore =>
    have hshort : ¬ KL_PROXY_HEADER_MAX ≤ buf.length := fun hlong => klProxyParse_by_max hlong hres
    simp only [if_neg hshort]
    rfl
  | invalid => rfl
  | none => rfl
  | ok =>
    simp only
    rw [if_neg (by omega), if_neg (by omega), Int.toNat_natCast]

/-- A result of the parser stands for every longer prefix and its header is among the bytes given;
so the readiness and the completion loop come to the same decision about a connection, however its
bytes arrive at either. -/
theorem proxy_decision_stable (pton4 pton6 : List UInt8 → Option (List UInt8)) :
    (∀ buf more, (klProxyParse pton4 pton6 buf).result ≠ .needMore →
      klProxyParse pton4 pton6 (buf ++ more) = klProxyParse pton4 pton6 buf) ∧
    (∀ buf n, (klProxyParse pton4 pton6 buf).consumed = some n → n ≤ buf.length) ∧
    ∀ (reads : Nat → Nat) (c : KlHttpConn) (peeked received : List (List UInt8)), peeked.flatten =
    received.flatten →
      Decision.first (peekDecision (klProxyParse pton4 pton6) reads c) [] peeked =
        Decision.first (bufferedDecision (klProxyParse pton4 pton6) c) [] received := by
  refine ⟨fun buf more h => klProxyParse_append h, fun buf n h => (klProxyParse_consumed h).1,
    fun reads c peeked received hsame => ?_⟩
  have hsettled : Decision.Settled fun buf => verdict c (klProxyParse pton4 pton6 buf) :=
    verdict_settled c
  have hpeek : peekDecision (klProxyParse pton4 pton6) reads c = fun buf =>
      verdict c (klProxyParse pton4 pton6 buf) := by
    funext queue
    rw [peekDecision_eq]
    exact hsettled.take (fun buf h => verdict_by_max h) queue
  have hbuffered : bufferedDecision (klProxyParse pton4 pton6) c = fun buf =>
      verdict c (klProxyParse pton4 pton6 buf) :=
    funext bufferedDecision_eq
  rw [hpeek, hbuffered, hsettled.first_eq rfl, hsettled.first_eq rfl, hsame]

end

/-- A version 1 header, "TCP4 1 2 7 8", and the first byte of a request. The socket has its bytes in
two cuts and gives them one at a time, the completion loop receives them in three. -/
theorem proxy_decision_stable_v1 :
    let line := V1SIG ++
      [0x54, 0x43, 0x50, 0x34, 0x20, 0x31, 0x20, 0x32, 0x20, 0x37, 0x20, 0x38, 0x0D, 0x0A]
    let bytes := line ++ [0x47]
    let c : KlHttpConn := ⟨.unspec, .socket⟩
    let decision := Decision.first (peekDecision (klProxyParse some some) (fun _ => 0) c) []
      [bytes.take 9, bytes.drop 9]
    decision = some (.goOn line.length ⟨.inet [0x31] 7, .proxy⟩) ∧
      decision = Decision.first (bufferedDecision (klProxyParse some some) c) []
        [bytes.take 2, (bytes.take 20).drop 2, bytes.drop 20] :=
  ⟨by decide +kernel, (proxy_decision_stable some some).2.2 _ _ _ _ (by decide +kernel)⟩

end Proxy
