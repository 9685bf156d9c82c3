-- SUMMARY: A connection is pooled again only when its response ended it cleanly.
import Keel.Interleaved.System

/-!
# Reuse of pooled connections

A connection as the client sees it: the bytes that wait on the socket, what the TLS engine has
decrypted and not delivered, and everything read so far. Requests run on connections of their
own, in any interleaving. Where a response ends is the parser's verdict on the bytes read since
the request began, and `D` is that verdict.
-/

open Interleaved List Option

namespace PooledReuse

/-- What the reuse of a connection depends on in a response. -/
structure KlHttpClientResponse where
  status : Nat
  /-- What the parser derives from the version and the headers. -/
  closes : Bool
  headers : List (List UInt8 × List UInt8)
deriving DecidableEq, Repr

inductive Verdict where
  | incomplete
  | error
  /-- The response, and the number of bytes up to its end. -/
  | complete (len : Nat) (resp : KlHttpClientResponse)
deriving DecidableEq, Repr

/-- The verdict on the bytes from the beginning of a response; a response to HEAD has no body. -/
abbrev Delimiter := (head : Bool) → List UInt8 → Verdict

/-! ## The Connection header -/

def lower (b : UInt8) : UInt8 := if 65 ≤ b ∧ b ≤ 90 then b + 32 else b

/-- `kl_ascii_strcasecmp` with 0 for equal. -/
def sameName (a b : List UInt8) : Bool := a.map lower == b.map lower

def isSeparator (b : UInt8) : Bool := b == 32 || b == 9 || b == 44

def close : List UInt8 := [99, 108, 111, 115, 101]

def connectionName : List UInt8 := [67, 111, 110, 110, 101, 99, 116, 105, 111, 110]

/-- `connection_has_close`, in at most as many rounds as there are bytes. -/
def hasClose : Nat → List UInt8 → Bool
  | 0, _ => false
  | _ + 1, [] => false
  | n + 1, v =>
    let v := v.dropWhile isSeparator
    sameName (v.takeWhile (!isSeparator ·)) close || hasClose n (v.dropWhile (!isSeparator ·))

variable (v : List UInt8)

def connectionHasClose : Bool := hasClose v.length v

/-- `kl_http_client_server_wants_close` -/
def serverWantsClose (resp : KlHttpClientResponse) : Bool :=
  resp.closes || resp.headers.any fun h => sameName h.1 connectionName && connectionHasClose h.2

/-- `close` is one of the tokens between the separators. -/
def asksClose : Bool := (v.splitOnP isSeparator).any (sameName · close)

/-- Separators in front of a token are skipped. -/
theorem asksClose_cons {b : UInt8} (hb : isSeparator b = true) (v : List UInt8) :
    asksClose (b :: v) = asksClose v := by
  simp [asksClose, splitOnP_cons_eq_if_modifyHead, hb, sameName, close]

theorem asksClose_dropWhile : asksClose (v.dropWhile isSeparator) = asksClose v := by
  induction v with
  | nil => rfl
  | cons b v ih =>
    by_cases hb : isSeparator b = true
    · rw [dropWhile_cons_of_pos hb, ih, asksClose_cons hb]
    · rw [dropWhile_cons_of_neg hb]

/-- The first token, and what is behind it. -/
theorem asksClose_token :
    asksClose v = (sameName (v.takeWhile (!isSeparator ·)) close ||
      asksClose (v.dropWhile (!isSeparator ·))) := by
  have htoken : ∀ b ∈ v.takeWhile (!isSeparator ·), isSeparator b = false :=
    fun b hb => by simpa using all_eq_true.mp all_takeWhile b hb
  have hv := takeWhile_append_dropWhile (p := (!isSeparator ·)) (l := v)
  cases hrest : v.dropWhile (!isSeparator ·) with
  | nil =>
    rw [hrest, append_nil] at hv
    rw [hv] at htoken ⊢
    simp [asksClose, splitOnP_eq_singleton htoken, sameName, close]
  | cons b rest =>
    have hb : isSeparator b = true := by
      have := head_dropWhile_not (!isSeparator ·) (l := v) (by simp [hrest])
      simpa [hrest] using this
    rw [hrest] at hv
    have hsplit := splitOnP_append_cons_of_forall_mem htoken b hb rest
    rw [hv] at hsplit
    rw [asksClose_cons hb, asksClose, hsplit, any_cons, asksClose]

/-- The scan of the header value finds the token `close`. -/
theorem hasClose_eq {n : Nat} {v : List UInt8} (hn : v.length ≤ n) :
    hasClose n v = asksClose v := by
  induction n generalizing v with
  | zero => rw [eq_nil_of_length_eq_zero (Nat.le_zero.mp hn)]; rfl
  | succ n ih =>
    cases v with
    | nil => rfl
    | cons b v =>
      have hlen : (((b :: v).dropWhile isSeparator).dropWhile (!isSeparator ·)).length ≤ n := by
        by_cases hb : isSeparator b = true
        · have h₁ := (dropWhile_sublist (l := v) isSeparator).length_le
          have h₂ := (dropWhile_sublist (l := v.dropWhile isSeparator) (!isSeparator ·)).length_le
          rw [dropWhile_cons_of_pos hb]
          exact Nat.le_trans (Nat.le_trans h₂ h₁) (Nat.le_of_succ_le_succ hn)
        · have h₂ := (dropWhile_sublist (l := v) (!isSeparator ·)).length_le
          rw [dropWhile_cons_of_neg hb, dropWhile_cons_of_pos (by simpa using hb)]
          exact Nat.le_trans h₂ (Nat.le_of_succ_le_succ hn)
      rw [← asksClose_dropWhile, asksClose_token, ← ih hlen, hasClose]
      nofun

/-- No field of the name asks to close when the connection is kept. -/
theorem not_asksClose {resp : KlHttpClientResponse} (h : serverWantsClose resp = false) :
    resp.closes = false ∧ ∀ field ∈ resp.headers, sameName field.1 connectionName = true →
    asksClose field.2 = false := by
  simp only [serverWantsClose, connectionHasClose, hasClose_eq (Nat.le_refl _),
    Bool.or_eq_false_iff, List.any_eq_false] at h
  exact ⟨h.1, fun field hf hname => by simpa [hname] using h.2 field hf⟩

/-! ## Connections and requests -/

structure Conn where
  tls : Bool := false
  inbox : List UInt8 := []
  closed : Bool := false
  reset : Bool := false
  engine : List UInt8 := []
  /-- Everything the server sent, what was read of it, and the responses that ended in that. -/
  sent : List UInt8 := []
  read : List UInt8 := []
  responses : List (List UInt8) := []
deriving DecidableEq, Repr

/-- What `kl_sock_recv_peek` on a non-blocking socket says. -/
inductive Peek where
  | byte | eof | wouldBlock | error
deriving DecidableEq, Repr

def Conn.peek (k : Conn) : Peek :=
  if k.inbox ≠ [] then .byte else if k.reset then .error else if k.closed then .eof else .wouldBlock

/-- The TLS engine takes bytes off the socket. -/
def Conn.decrypt (k : Conn) (pulled : Nat) : Conn :=
  if k.tls then { k with inbox := k.inbox.drop pulled, engine := k.engine ++ k.inbox.take pulled }
  else k

def Conn.chunk (k : Conn) (n : Nat) : List UInt8 := (if k.tls then k.engine else k.inbox).take n

/-- `kl_http_client_io_read` -/
def Conn.ioRead (k : Conn) (n : Nat) : Conn :=
  if k.tls then { k with read := k.read ++ k.chunk n, engine := k.engine.drop n }
  else { k with read := k.read ++ k.chunk n, inbox := k.inbox.drop n }

inductive Driver where
  | sync | async
deriving DecidableEq, Repr

inductive State where
  | sending | receiving
deriving DecidableEq, Repr

structure Request where
  driver : Driver
  head : Bool
  requestLen : Nat
  requestSent : Nat := 0
  state : State := .sending
  /-- What its parser was given. -/
  seen : List UInt8 := []
deriving DecidableEq, Repr

inductive Place where
  | absent
  | idle
  | busy (r : Request)
  | gone
deriving DecidableEq, Repr

structure Client where
  conns : Nat → Conn := fun _ => {}
  place : Nat → Place := fun _ => .absent
  /-- The idle connections, in the order of the table. -/
  pool : List Nat := []

/-- What happens behind a response that is complete: whether its body could be decompressed, and
what the table does with the connection and with others. -/
structure Fate where
  decompressed : Bool := true
  kept : Bool := true
  evicted : List Nat := []
  slot : Nat := 0
deriving DecidableEq, Repr

inductive Act where
  | serverSends (conn : Nat) (bytes : List UInt8)
  | serverCloses (conn : Nat) (reset : Bool)
  /-- `found` are the entries of the table under the key of the request. -/
  | start (driver : Driver) (head tls : Bool) (requestLen : Nat) (found : List Nat) (fresh : Nat)
  | send (conn n : Nat)
  /-- The TLS engine takes `pulled` bytes off the socket, and at most `n` are read. -/
  | recv (conn pulled n : Nat) (fate : Fate)
  /-- A failed read or write, a TLS shutdown, a timeout, a cancel. -/
  | fail (conn : Nat)
  /-- The idle timer, the sweep and the end of the pool. -/
  | expire (conn : Nat)
deriving DecidableEq, Repr

namespace Client

variable (s : Client) (c : Nat)

def setConn (k : Conn) : Client := { s with conns := fun i => if i = c then k else s.conns i }

def setPlace (p : Place) : Client := { s with place := fun i => if i = c then p else s.place i }

/-- `kl_http_client_pool_discard_sp`, and `entry_close` of an entry. -/
def discard : Client := { s.setPlace c .gone with pool := s.pool.erase c }

/-- `pool_acquire` over the entries `es`. -/
def acquire (s : Client) (found : List Nat) : List Nat → Client × Option Nat
  | [] => (s, none)
  | e :: es =>
    if e ∉ found then s.acquire found es
    else if (s.conns e).peek ≠ .wouldBlock then (s.discard e).acquire found es
    else (s, some e)

/-- `kl_http_client_request_pooled` and `kl_http_client_start_pooled`, up to the first write. -/
def start (r : Request) (tls : Bool) (found : List Nat) (fresh : Nat) : Option Client :=
  match s.acquire found s.pool with
  | (s, some c) => some { s.setPlace c (.busy r) with pool := s.pool.erase c }
  | (s, none) =>
    if s.place fresh = .absent then some ((s.setConn fresh { tls }).setPlace fresh (.busy r))
    else none

/-- `pool_release` -/
def poolRelease (fate : Fate) : Client :=
  if fate.kept then
    let s := (fate.evicted.filter (· ∈ s.pool)).foldl discard s
    { s.setPlace c .idle with pool := s.pool.insertIdx (min fate.slot s.pool.length) c }
  else s.discard c

/-- Behind a complete response: `async_complete_success`, and the end of
`kl_http_client_request_pooled`, which decompresses first. -/
def completed (r : Request) (resp : KlHttpClientResponse) (reusable : Bool) (fate : Fate) :
    Client :=
  if r.driver = .sync ∧ !fate.decompressed then s.discard c
  else if !reusable || serverWantsClose resp then s.discard c
  else s.poolRelease c fate

/-- One round of `recv_response_sync` and of `async_handle_receiving`. -/
def recv (D : Delimiter) (s : Client) (c : Nat) (r : Request) (pulled n : Nat) (fate : Fate) :
    Client :=
  let k := (s.conns c).decrypt pulled
  if k.chunk n = [] then
    -- the end of the stream completes a response or fails it: either way the connection is done
    if k.closed ∧ k.inbox = [] ∧ k.engine = [] then s.discard c else s.setConn c k
  else
    let bytes := r.seen ++ k.chunk n
    match D r.head bytes with
    | .incomplete => (s.setConn c (k.ioRead n)).setPlace c (.busy { r with seen := bytes })
    | .error => (s.setConn c (k.ioRead n)).discard c
    | .complete len resp =>
      let consumed := len - r.seen.length
      let reusable :=
        resp.status != 101 && consumed == (k.chunk n).length && !(k.tls && 0 <
        (k.ioRead n).engine.length)
      let k := { k.ioRead n with responses := k.responses ++ [bytes.take len] }
      (s.setConn c k).completed c r resp reusable fate

def step (D : Delimiter) (s : Client) : Act → Option Client
  | .serverSends c bytes =>
    if (s.conns c).closed ∨ (s.conns c).reset then none
    else some (s.setConn c { s.conns c with inbox := (s.conns c).inbox ++ bytes,
                                            sent := (s.conns c).sent ++ bytes })
  | .serverCloses c reset =>
    some (s.setConn c { s.conns c with closed := true, reset := (s.conns c).reset || reset })
  | .start driver head tls requestLen found fresh =>
    s.start { driver, head, requestLen } tls found fresh
  | .send c n =>
    match s.place c with
    | .busy r =>
      if r.state = .sending ∧ r.requestSent + n ≤ r.requestLen then
        some (s.setPlace c (.busy { r with requestSent := r.requestSent + n
                                           state :=
                                           if r.requestSent + n = r.requestLen then .receiving
                                           else .sending }))
      else none
    | _ => none
  | .recv c pulled n fate =>
    match s.place c with
    | .busy r => if r.state = .receiving then some (s.recv D c r pulled n fate) else none
    | _ => none
  | .fail c =>
    match s.place c with
    | .busy _ => some (s.discard c)
    | _ => none
  | .expire c => if s.place c = .idle then some (s.discard c) else none

end Client

def system (D : Delimiter) : System Client Act := ⟨Client.step D⟩

/-! ## The invariant -/

/-- A connection in its place. -/
structure Tidy (k : Conn) (p : Place) : Prop where
  stream : k.sent = k.read ++ k.engine ++ k.inbox
  plain : k.tls = false → k.engine = []
  whole : k.responses.flatten <+: k.read
  idle : p = .idle → k.read = k.responses.flatten ∧ k.engine = []
  busy : ∀ r, p = .busy r → k.read = k.responses.flatten ++ r.seen ∧
    (r.state = .sending → r.seen = []) ∧ (r.state = .receiving → r.requestSent = r.requestLen)

/-- The table holds each idle connection once. -/
structure Table (s : Client) : Prop where
  pooled : ∀ c, c ∈ s.pool ↔ s.place c = .idle
  nodup : s.pool.Nodup

structure Clean (s : Client) : Prop extends Table s where
  tidy : ∀ c, Tidy (s.conns c) (s.place c)

variable {k : Conn} {r : Request}

theorem Tidy.gone {p : Place} (h : Tidy k p) : Tidy k .gone :=
  { h with idle := by rintro ⟨⟩, busy := by rintro _ ⟨⟩ }

variable {D : Delimiter} {s s' : Client} {a : Act} {c : Nat}

theorem Table.discard (h : Table s) (c : Nat) : Table (s.discard c) where
  pooled i := by
    have := h.pooled i
    simp only [Client.discard, Client.setPlace, h.nodup.mem_erase_iff]
    grind
  nodup := h.nodup.erase c

theorem Clean.discard (h : Clean s) (c : Nat) : Clean (s.discard c) where
  toTable := h.toTable.discard c
  tidy i := by
    have := h.tidy i
    have := (h.tidy i).gone
    simp only [Client.discard, Client.setPlace]
    split <;> assumption

/-- What the walk over the entries `es` leaves, and what it finds. -/
structure Walked (s : Client) (es : List Nat) (s' : Client) (found : Option Nat) : Prop where
  clean : Clean s'
  conns : s'.conns = s.conns
  place : ∀ c, s'.place c = s.place c ∨ s'.place c = .gone
  hit : ∀ c, found = some c → c ∈ es ∧ s'.place c = s.place c ∧ (s.conns c).peek = .wouldBlock

/-- The connections that an acquire drops on its way are gone. -/
theorem acquire_walked (h : Clean s) (found : List Nat) {es : List Nat} (hes : es.Nodup) :
    Walked s es (s.acquire found es).1 (s.acquire found es).2 := by
  induction es generalizing s with
  | nil => exact ⟨h, rfl, fun _ => .inl rfl, nofun⟩
  | cons e es ih =>
    obtain ⟨hnot, hes⟩ := nodup_cons.mp hes
    simp only [Client.acquire]
    split
    · exact { ih h hes with hit := fun c hc =>
        have hw := (ih h hes).hit c hc
        ⟨.tail _ hw.1, hw.2⟩ }
    split
    · have hw := ih (h.discard e) hes
      have hplace : ∀ i, (s.discard e).place i = if i = e then .gone else s.place i := fun _ => rfl
      refine ⟨hw.clean, hw.conns, fun i => ?_, fun c hc => ?_⟩
      · have := hw.place i
        grind
      · obtain ⟨hmem, hkept, hpeek⟩ := hw.hit c hc
        exact ⟨.tail _ hmem, by grind, hpeek⟩
    · exact ⟨h, rfl, fun _ => .inl rfl, fun c hc => by grind⟩

/-! ## Putting a connection back -/

theorem foldl_discard (h : Table s) (es : List Nat) :
    Table (es.foldl Client.discard s) ∧ (es.foldl Client.discard s).conns = s.conns ∧
      ∀ i, (es.foldl Client.discard s).place i = if i ∈ es then .gone else s.place i := by
  induction es generalizing s with
  | nil => exact ⟨h, rfl, fun i => by simp⟩
  | cons e es ih =>
    obtain ⟨htable, hconns, hplace⟩ := ih (h.discard e)
    refine ⟨htable, hconns, fun i => (hplace i).trans ?_⟩
    simp only [Client.discard, Client.setPlace, mem_cons]
    grind

/-- The end of a response on `c`, which is kept only if `ok`. -/
structure Ended (s s' : Client) (c : Nat) (ok : Prop) : Prop where
  table : Table s'
  conns : s'.conns = s.conns
  own : s'.place c = .gone ∨ s'.place c = .idle ∧ ok
  others : ∀ i, i ≠ c → s'.place i = s.place i ∨ s'.place i = .gone

theorem discard_ended (h : Table s) {ok : Prop} : Ended s (s.discard c) c ok where
  table := h.discard c
  conns := rfl
  own := .inl (if_pos rfl)
  others _ hi := .inl (if_neg hi)

/-- A release keeps the connection idle or drops it. -/
theorem poolRelease_ended (h : Table s) (hc : s.place c ≠ .idle) (fate : Fate) :
    Ended s (s.poolRelease c fate) c True := by
  unfold Client.poolRelease
  split
  next =>
    obtain ⟨htable, hconns, hplace⟩ := foldl_discard h (fate.evicted.filter (· ∈ s.pool))
    generalize (fate.evicted.filter (· ∈ s.pool)).foldl Client.discard s =
      s₁ at htable hconns hplace
    have hout : c ∉ s₁.pool := by
      have := htable.pooled c
      grind
    have hmem : ∀ i, i ∈ s₁.pool.insertIdx (min fate.slot s₁.pool.length) c ↔ i = c ∨ i ∈ s₁.pool :=
      fun i => mem_insertIdx (Nat.min_le_right ..)
    refine ⟨⟨fun i => ?_, ?_⟩, hconns, .inr ⟨if_pos rfl, trivial⟩, fun i hi => ?_⟩
    · have := htable.pooled i
      simp only [Client.setPlace, hmem]
      grind
    · exact ((perm_insertIdx c s₁.pool (Nat.min_le_right ..)).nodup_iff).mpr (nodup_cons.mpr
        ⟨hout, htable.nodup⟩)
    · have := hplace i
      simp only [Client.setPlace, if_neg hi]
      grind
  next => exact discard_ended h

/-- A request that is complete gives its connection back if it may be reused. -/
theorem completed_ended (h : Table s) (hc : s.place c ≠ .idle) (r : Request)
    (resp : KlHttpClientResponse) (reusable : Bool) (fate : Fate) :
    Ended s (s.completed c r resp reusable fate) c (reusable = true ∧
      serverWantsClose resp = false) := by
  unfold Client.completed
  split
  · exact discard_ended h
  split
  · exact discard_ended h
  next hkeep =>
    have hended := poolRelease_ended h hc fate
    exact { hended with own := hended.own.imp_right fun hp => ⟨hp.1, by simpa using hkeep⟩ }

/-- A connection that a complete response leaves to the pool. -/
structure Put (D : Delimiter) (r : Request) (resp : KlHttpClientResponse) (bytes : List UInt8)
    (before after : Conn) : Prop where
  requestSent : r.requestSent = r.requestLen
  framed : D r.head bytes = .complete bytes.length resp
  responses : after.responses = before.responses ++ [bytes]
  read : after.read = after.responses.flatten
  engine : after.engine = []
  status : resp.status ≠ 101
  version : resp.closes = false
  headers : ∀ field ∈ resp.headers, sameName field.1 connectionName = true →
    asksClose field.2 = false

/-- What one step can do with a connection. -/
inductive Move (D : Delimiter) (s s' : Client) (c : Nat) : Prop where
  | stays : s'.place c = s.place c → Move D s s' c
  | gone : s'.place c = .gone → Move D s s' c
  | busy {r : Request} : s'.place c = .busy r →
      (s.place c = .idle → (s.conns c).peek = .wouldBlock) → Move D s s' c
  | put {r : Request} {resp : KlHttpClientResponse} {bytes : List UInt8} :
    s.place c = .busy r → s'.place c = .idle → Put D r resp bytes (s.conns c) (s'.conns c) →
      Move D s s' c

structure Passed (D : Delimiter) (s s' : Client) : Prop where
  clean : Clean s'
  move : ∀ c, Move D s s' c

theorem discard_passed (h : Clean s) (c : Nat) : Passed D s (s.discard c) where
  clean := h.discard c
  move i := if hi : i = c then .gone (if_pos hi) else .stays (if_neg hi)

/-- A step on one connection, which is neither taken from the table nor put there. -/
theorem passed_of_conn (h : Clean s) {p : Place} (hidle : s.place c = .idle ↔ p = .idle)
    (hk : Tidy k p)
    (hp : p = s.place c ∨ ∃ r, p = .busy r) : Passed D s ((s.setConn c k).setPlace c p) where
  clean :=
    { pooled := fun i => by
        have := h.pooled i
        simp only [Client.setConn, Client.setPlace]
        grind
      nodup := h.nodup
      tidy := fun i => by
        have := h.tidy i
        simp only [Client.setConn, Client.setPlace]
        split <;> assumption }
  move := by
    intro i
    by_cases hi : i = c
    · subst hi
      obtain hp | ⟨r, hp⟩ := hp
      · exact .stays ((if_pos rfl).trans hp)
      · exact .busy ((if_pos rfl).trans hp) fun hidle' => by grind
    · exact .stays (if_neg hi)

theorem setConn_eq (k : Conn) : s.setConn c k = (s.setConn c k).setPlace c (s.place c) := by
  simp only [Client.setConn, Client.setPlace, Client.mk.injEq, true_and, and_true]
  funext i
  split <;> simp_all

theorem setPlace_eq (p : Place) : s.setPlace c p = (s.setConn c (s.conns c)).setPlace c p := by
  simp only [Client.setConn, Client.setPlace, Client.mk.injEq, and_true]
  funext i
  split <;> simp_all

/-- Decrypting moves bytes from one buffer to the next. -/
theorem Tidy.decrypt (h : Tidy k (.busy r)) (pulled : Nat) : Tidy (k.decrypt pulled) (.busy r) := by
  unfold Conn.decrypt
  split
  next htls => exact { h with stream := by simp [h.stream], plain := by simp [htls], idle := nofun }
  next => exact h

/-- The bytes of a read come behind those of the request. -/
theorem ioRead_stream (h : Tidy k (.busy r)) (n : Nat) :
    (k.ioRead n).sent = (k.ioRead n).read ++ (k.ioRead n).engine ++ (k.ioRead n).inbox ∧
      ((k.ioRead n).tls = false → (k.ioRead n).engine = []) ∧ (k.ioRead n).tls = k.tls ∧
      (k.ioRead n).responses = k.responses ∧
      (k.ioRead n).read = k.responses.flatten ++ (r.seen ++ k.chunk n) := by
  have hread := (h.busy r rfl).1
  have hstream := h.stream
  have hplain := h.plain
  unfold Conn.ioRead Conn.chunk
  split <;> simp_all

theorem ended_passed (h : Clean s) {ok : Prop} (hc : s.place c = .busy r) (hk : Tidy k .gone)
    (he : Ended (s.setConn c k) s' c ok)
    (hok : ok → ∃ resp bytes, Put D r resp bytes (s.conns c) k) : Passed D s s' := by
  have hown : s'.conns c = k := he.conns ▸ if_pos rfl
  refine ⟨⟨he.table, fun i => ?_⟩, fun i => ?_⟩ <;> by_cases hi : i = c
  · subst hi
    rw [hown]
    obtain hp | ⟨hp, hkeep⟩ := he.own <;> rw [hp]
    · exact hk
    · obtain ⟨_, _, hput⟩ := hok hkeep
      exact { hk with idle := fun _ => ⟨hput.read, hput.engine⟩, busy := by rintro _ ⟨⟩ }
  · rw [he.conns, show (s.setConn c k).conns i = s.conns i from if_neg hi]
    obtain hp | hp := he.others i hi <;> rw [hp]
    · exact h.tidy i
    · exact (h.tidy i).gone
  · subst hi
    obtain hp | ⟨hp, hkeep⟩ := he.own
    · exact .gone hp
    · obtain ⟨_, _, hput⟩ := hok hkeep
      exact .put hc hp (hown ▸ hput)
  · exact (he.others i hi).elim (fun hp => .stays hp) .gone

theorem setConn_table (h : Table s) (k : Conn) : Table (s.setConn c k) := ⟨h.pooled, h.nodup⟩

/-- A receive: only a complete response lets the connection go back. -/
theorem recv_passed (h : Clean s) (hc : s.place c = .busy r) (hr : r.state = .receiving)
    (pulled n : Nat) (fate : Fate) : Passed D s (s.recv D c r pulled n fate) := by
  have hk : Tidy ((s.conns c).decrypt pulled) (.busy r) :=
    (hc ▸ h.tidy c : Tidy (s.conns c) (.busy r)).decrypt pulled
  have hold : ((s.conns c).decrypt pulled).responses = (s.conns c).responses := by
    unfold Conn.decrypt
    split <;> rfl
  unfold Client.recv
  generalize (s.conns c).decrypt pulled = k at hk hold
  obtain ⟨hstream, hplain, htls, hresponses, hread⟩ := ioRead_stream hk n
  obtain ⟨-, -, hsent⟩ := hk.busy r rfl
  have htidy : Tidy (k.ioRead n) .gone :=
    ⟨hstream, hplain, by rw [hread, hresponses]; exact prefix_append .., by rintro ⟨⟩,
      by rintro _ ⟨⟩⟩
  simp only
  split
  next =>
    split
    · exact discard_passed h c
    · rw [setConn_eq]
      exact passed_of_conn h .rfl (hc ▸ hk) (.inl rfl)
  next hchunk =>
    split
    next =>
      refine passed_of_conn h (by simp [hc]) { htidy with idle := by rintro ⟨⟩,
                                                          busy := ?_ } (.inr ⟨_, rfl⟩)
      rintro _ ⟨⟩
      exact ⟨by rw [hread, hresponses], by simp [hr], hsent⟩
    next =>
      exact ended_passed h hc htidy (discard_ended (setConn_table h.toTable _))
        fun hfalse : False => hfalse.elim
    next len resp hverdict =>
      refine ended_passed h hc ?_ (completed_ended (setConn_table h.toTable _)
        (by simp [Client.setConn, hc]) ..) ?_
      · -- where the response ends, if it is not at the end of the read
        have hprefix : (k.responses ++ [(r.seen ++ k.chunk n).take len]).flatten <+:
            (k.ioRead n).read := by
          rw [hread, flatten_append, flatten_singleton]
          exact (prefix_append_right_inj _).mpr (List.take_prefix ..)
        exact { htidy with whole := hprefix, idle := by rintro ⟨⟩, busy := by rintro _ ⟨⟩ }
      rintro ⟨hreusable, hwants⟩
      simp only [Bool.and_eq_true, bne_iff_ne, beq_iff_eq, Bool.not_eq_true', Bool.and_eq_false_iff,
        decide_eq_false_iff_not, Nat.not_lt, Nat.le_zero, length_eq_zero_iff] at hreusable
      obtain ⟨⟨hstatus, hconsumed⟩, hengine⟩ := hreusable
      have hlen : len = (r.seen ++ k.chunk n).length := by
        have := length_pos_iff.mpr hchunk
        rw [length_append]
        omega
      subst hlen
      rw [take_length]
      refine ⟨resp, r.seen ++ k.chunk n, hsent hr, hverdict, by rw [hold], ?_, ?_, hstatus,
        (not_asksClose hwants).1, (not_asksClose hwants).2⟩
      · simp [hread]
      · exact hengine.elim (fun hplaintext => hplain (htls.trans hplaintext)) id

/-- A request starts on an idle connection or on a new one. -/
theorem start_passed (h : Clean s) (hr : r.state = .sending ∧ r.seen = []) {tls : Bool}
    {found : List Nat} {fresh : Nat}
    (hstart : s.start r tls found fresh = some s') : Passed D s s' := by
  have hw := acquire_walked h found h.nodup
  unfold Client.start at hstart
  generalize s.acquire found s.pool = walked at hw hstart
  obtain ⟨s₁, hit⟩ := walked
  have hclean := hw.clean
  have hbusy {k : Conn} (hk : Tidy k .gone) (hread : k.read = k.responses.flatten) :
      Tidy k (.busy r) :=
    { hk with
      idle := by rintro ⟨⟩
      busy := by rintro _ ⟨⟩; simp [hread, hr] }
  cases hit with
  | some c =>
    obtain ⟨hmem, hkept, hpeek⟩ := hw.hit c rfl
    have hidle : s₁.place c = .idle := hkept.trans ((h.pooled c).mp hmem)
    cases hstart
    refine ⟨⟨⟨fun i => ?_, hclean.nodup.erase c⟩, fun i => ?_⟩, fun i => ?_⟩
    · have := hclean.pooled i
      simp only [Client.setPlace, hclean.nodup.mem_erase_iff]
      grind
    · simp only [Client.setPlace]
      split
      next hi => exact hbusy (hclean.tidy i).gone ((hclean.tidy i).idle (hi ▸ hidle)).1
      next => exact hclean.tidy i
    · by_cases hi : i = c
      · exact .busy (if_pos hi) fun _ => hi ▸ hpeek
      · exact (hw.place i).elim (fun hp => .stays ((if_neg hi).trans hp)) fun hp =>
          .gone ((if_neg hi).trans hp)
  | none =>
    obtain ⟨habsent, hstart⟩ := ite_none_right_eq_some.mp hstart
    cases hstart
    have hfresh : Tidy { tls } (.busy r) :=
      hbusy ⟨rfl, fun _ => rfl, prefix_refl _, by rintro ⟨⟩, by rintro _ ⟨⟩⟩ rfl
    have hpass : Passed D s₁ _ :=
      passed_of_conn (c := fresh) hclean (by simp [habsent]) hfresh (.inr ⟨r, rfl⟩)
    refine ⟨hpass.clean, fun i => ?_⟩
    by_cases hi : i = fresh
    · refine .busy (if_pos hi) fun hidle => ?_
      have := hw.place i
      grind
    · exact (hw.place i).elim (fun hp => .stays ((if_neg hi).trans hp)) fun hp =>
        .gone ((if_neg hi).trans hp)

/-- One step of the client. -/
theorem step_passed (h : Clean s) (hstep : s.step D a = some s') : Passed D s s' := by
  cases a with
  | serverSends c bytes =>
    obtain ⟨-, hstep⟩ := ite_none_left_eq_some.mp hstep
    cases hstep
    rw [setConn_eq]
    exact passed_of_conn h .rfl { h.tidy c with stream := by simp [(h.tidy c).stream] } (.inl rfl)
  | serverCloses c reset =>
    cases hstep
    rw [setConn_eq]
    exact passed_of_conn h .rfl { h.tidy c with } (.inl rfl)
  | start driver head tls requestLen found fresh => exact start_passed h ⟨rfl, rfl⟩ hstep
  | send c n =>
    simp only [Client.step] at hstep
    split at hstep
    next r hc =>
      obtain ⟨⟨hstate, -⟩, hstep⟩ := ite_none_right_eq_some.mp hstep
      cases hstep
      obtain ⟨hread, hseen, -⟩ := (h.tidy c).busy r hc
      rw [setPlace_eq]
      refine passed_of_conn h (by simp [hc]) { h.tidy c with idle := by rintro ⟨⟩,
                                                             busy := ?_ } (.inr ⟨_, rfl⟩)
      rintro _ ⟨⟩
      exact ⟨hread, fun _ => hseen hstate, fun hreceiving => by simpa using hreceiving⟩
    next => cases hstep
  | recv c pulled n fate =>
    simp only [Client.step] at hstep
    split at hstep
    next r hc =>
      obtain ⟨hstate, hstep⟩ := ite_none_right_eq_some.mp hstep
      cases hstep
      exact recv_passed h hc hstate ..
    next => cases hstep
  | fail c =>
    simp only [Client.step] at hstep
    split at hstep
    · cases hstep
      exact discard_passed h c
    · cases hstep
  | expire c =>
    obtain ⟨-, hstep⟩ := ite_none_right_eq_some.mp hstep
    cases hstep
    exact discard_passed h c

/-! ## Runs -/

theorem reach_clean (hs : (system D).Reach {} s) : Clean s := by
  refine hs.invariant ?_ fun s a s' h hstep => (step_passed h hstep).clean
  exact ⟨⟨fun c => by simp, .nil⟩, fun c => ⟨rfl, fun _ => rfl, prefix_refl _, by rintro ⟨⟩,
    by rintro _ ⟨⟩⟩⟩

/-- What is put back is clean, what is handed out is silent, and the bytes read for a request come
right behind the responses before it in what the server sent. -/
theorem pooled_reuse_clean (hs : (system D).Reach {} s) (hstep : (system D).step s a = some s')
    (c : Nat) : (s.place c ≠ .idle → s'.place c = .idle →
      ∃ r resp bytes, s.place c = .busy r ∧ Put D r resp bytes (s.conns c) (s'.conns c)) ∧
    (∀ r, s.place c = .idle → s'.place c = .busy r →
      (s.conns c).inbox = [] ∧ (s.conns c).closed = false ∧ (s.conns c).reset = false ∧
      (s.conns c).engine = []) ∧
    (∀ r, s'.place c = .busy r →
      (s'.conns c).read = (s'.conns c).responses.flatten ++ r.seen ∧
      (s'.conns c).sent = (s'.conns c).responses.flatten ++ r.seen ++ (s'.conns c).engine ++
      (s'.conns c).inbox) := by
  have hclean := reach_clean hs
  obtain ⟨hclean', hmove⟩ := step_passed hclean hstep
  refine ⟨fun hbefore hafter => ?_, fun r hidle hbusy => ?_, fun r hbusy => ?_⟩
  · cases hmove c with
    | stays hp => exact absurd (hp.symm.trans hafter) hbefore
    | gone hp => cases hp.symm.trans hafter
    | busy hp => cases hp.symm.trans hafter
    | put hc _ hput => exact ⟨_, _, _, hc, hput⟩
  · have hpeek : (s.conns c).peek = .wouldBlock := by
      cases hmove c with
      | stays hp => cases hidle.symm.trans (hp.symm.trans hbusy)
      | gone hp => cases hp.symm.trans hbusy
      | busy _ hpeek => exact hpeek hidle
      | put _ hp => cases hp.symm.trans hbusy
    have hengine := ((hclean.tidy c).idle hidle).2
    unfold Conn.peek at hpeek
    grind
  · have hread := ((hclean'.tidy c).busy r hbusy).1
    exact ⟨hread, hread ▸ (hclean'.tidy c).stream⟩

/-- A connection that is reused while its second response arrives. -/
theorem pooled_reuse_clean_second :
    let D : Delimiter := fun _ bytes =>
      if bytes.length < 2 then .incomplete else .complete 2 ⟨200, false, []⟩
    ∃ s s' r, (system D).Reach {} s ∧ (system D).step s (.recv 0 1 1 {}) = some s' ∧
      s'.place 0 = .busy r ∧ r.seen = [3] ∧
      (s'.conns 0).responses = [[1, 2]] ∧ (s'.conns 0).sent = [[1, 2]].flatten ++ r.seen ++ [] ++
        [4] := by
  intro D
  obtain ⟨s, hrun, s', hstep, hplace, hresponses, hengine, hinbox⟩ :
      ∃ s, (system D).run {} [.start .sync false true 5 [] 0, .send 0 5, .serverSends 0 [1, 2],
        .recv 0 2 1 {}, .recv 0 0 4 {},
          .start .async false true 7 [0] 1, .send 0 3, .send 0 4, .serverSends 0 [3, 4]] = some s ∧
        ∃ s', (system D).step s (.recv 0 1 1 {}) = some s' ∧
          s'.place 0 = .busy { driver := .async, head := false, requestLen := 7, requestSent := 7,
                               state := .receiving, seen := [3] } ∧
          (s'.conns 0).responses = [[1, 2]] ∧ (s'.conns 0).engine = [] ∧ (s'.conns 0).inbox = [4] :=
    ⟨_, rfl, _, rfl, rfl, rfl, rfl, rfl⟩
  have hs := System.Reach.run .start hrun
  have hsent := ((pooled_reuse_clean hs hstep 0).2.2 _ hplace).2
  rw [hresponses, hengine, hinbox] at hsent
  exact ⟨s, s', _, hs, hstep, hplace, rfl, hresponses, hsent⟩

end PooledReuse
