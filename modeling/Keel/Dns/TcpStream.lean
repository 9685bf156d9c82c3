-- SUMMARY: DNS over TCP: messages read from a stream in any cutting, queries sent framed.
import Keel.Limits
import Mathlib.Data.List.Basic

/-!
# DNS over TCP

Every message of the stream stands behind its length in two bytes. What has come of the next
message waits in the receive buffer, which holds the longest message there can be.
-/

open List

namespace DnsTcp

def DNS_TCP_MSG_MAX : Nat := 65535

/-- What the settling of a message does to the connection. -/
inductive Settled where
  | kept | closed | destroyed
deriving DecidableEq

/-- The settling of the last of the messages. -/
abbrev React := List (List UInt8) → Settled

/-- The receiving part of a connection, with the messages that were taken out so far. -/
structure KlDnsTcp where
  fd : Bool
  rbuf : List UInt8
  rcap : Nat
  rneed : Nat
  destroyRequested : Bool
  messages : List (List UInt8)
deriving DecidableEq

/-- The length in front of a message. -/
def lengthOf : List UInt8 → Nat
  | a :: b :: _ => a.toNat * 256 + b.toNat
  | _ => 0

namespace KlDnsTcp

def connected : KlDnsTcp :=
  { fd := true, rbuf := [], rcap := 0, rneed := 0, destroyRequested := false, messages := [] }

variable (react : React) (t : KlDnsTcp)

/-- `dns_tcp_close` -/
def close : KlDnsTcp := { t with fd := false, rbuf := [], rcap := 0, rneed := 0 }

/-- The length of the message at the front is read. -/
def known : KlDnsTcp := { t with rneed := lengthOf t.rbuf }

/-- The message at the front leaves the buffer. -/
def take : KlDnsTcp :=
  { t with rbuf := t.rbuf.drop (2 + t.rneed), rneed := 0,
           messages := t.messages ++ [(t.rbuf.drop 2).take t.rneed] }

/-- `dns_tcp_deliver`: one round for each message. -/
def deliver : Nat → KlDnsTcp → KlDnsTcp
  | 0, t => t
  | rounds + 1, t =>
    if t.rneed = 0 ∧ t.rbuf.length < 2 then t
    else
      let t := if t.rneed = 0 then t.known else t
      if t.rbuf.length < 2 + t.rneed then t
      else
        match react t.take.messages with
        | .kept => deliver rounds t.take
        | .closed => deliver rounds t.take.close
        | .destroyed => { t.take with destroyRequested := true }

/-- Room for a read; the connection fails without. -/
def grow (alloc : Bool) : KlDnsTcp :=
  if t.rbuf.length = t.rcap then
    let ncap := min (if t.rcap = 0 then 4096 else t.rcap * 2) (2 + DNS_TCP_MSG_MAX)
    if ncap = t.rcap then t.close else if alloc then { t with rcap := ncap } else t.close
  else t

/-- One round of the read loop: the socket gives at most `n` of the bytes that are there, and not
more than it is asked for. -/
def read (alloc : Bool) (n : Nat) (stream : List UInt8) : KlDnsTcp × List UInt8 :=
  let t := t.grow alloc
  if t.fd then
    let data := stream.take (min n (t.rcap - t.rbuf.length))
    if data = [] then (t, stream)
    else (deliver react (t.rbuf.length + data.length) { t with rbuf := t.rbuf ++ data },
      stream.drop data.length)
  else (t, stream)

/-- A read, or the end of the connection for another reason. -/
inductive Act where
  | read (alloc : Bool) (n : Nat)
  | fail
deriving DecidableEq

/-- Nothing is read once the connection is closed or the resolver is going down. -/
def step (x : KlDnsTcp × List UInt8) : Act → KlDnsTcp × List UInt8
  | .read alloc n => if x.1.fd && !x.1.destroyRequested then x.1.read react alloc n x.2 else x
  | .fail => (x.1.close, x.2)

end KlDnsTcp

/-! ## The messages of a stream -/

/-- The messages that are complete in a stream. -/
def messagesOf : List UInt8 → List (List UInt8)
  | a :: b :: rest =>
    if a.toNat * 256 + b.toNat ≤ rest.length then
      rest.take (a.toNat * 256 + b.toNat) :: messagesOf (rest.drop (a.toNat * 256 + b.toNat))
    else []
  | _ => []
termination_by stream => stream.length
decreasing_by
  rw [List.length_drop, List.length_cons, List.length_cons]
  omega

/-- Messages up to the first one whose settling ends the connection. -/
def settled (react : React) (before : List (List UInt8)) : List (List UInt8) → List (List UInt8)
  | [] => before
  | m :: ms =>
    if react (before ++ [m]) = .kept then settled react (before ++ [m]) ms else before ++ [m]

variable {buf more : List UInt8}

/-- A whole message at the front is the first one, whatever follows. -/
theorem messagesOf_some (hbuf : 2 + lengthOf buf ≤ buf.length) (more : List UInt8) :
    messagesOf (buf ++ more) = (buf.drop 2).take (lengthOf buf) ::
    messagesOf (buf.drop (2 + lengthOf buf) ++ more) := by
  match buf with
  | a :: b :: rest =>
    generalize hn : lengthOf (a :: b :: rest) = n at hbuf ⊢
    have hle : n ≤ rest.length := by
      rw [length_cons, length_cons] at hbuf
      omega
    rw [cons_append, cons_append, messagesOf, show a.toNat * 256 + b.toNat = n from hn,
      Nat.add_comm 2,
      if_pos (Nat.le_trans hle (length_append ▸ Nat.le_add_right _ _)),
        take_append_of_le_length hle,
      drop_append_of_le_length hle]
    rfl

/-- There is none before all of its bytes are there. -/
theorem messagesOf_none (hbuf : buf.length < 2 ∨ buf.length < 2 + lengthOf buf) :
    messagesOf buf = [] := by
  unfold messagesOf
  split
  · simp only [length_cons, lengthOf] at hbuf
    exact if_neg (by omega)
  · rfl

theorem lengthOf_le (buf : List UInt8) : lengthOf buf ≤ DNS_TCP_MSG_MAX := by
  unfold lengthOf DNS_TCP_MSG_MAX
  split
  · next a b _ =>
    have ha := a.toNat_lt
    have hb := b.toNat_lt
    omega
  · exact Nat.zero_le _

/-- The length is known from the first two bytes on. -/
theorem lengthOf_append (hbuf : 2 ≤ buf.length) (more : List UInt8) :
    lengthOf (buf ++ more) = lengthOf buf := by
  match buf with
  | a :: b :: rest => rfl

/-- While the user keeps the connection every message is delivered. -/
theorem settled_kept {react : React} (hreact : ∀ ms, react ms = .kept)
    (before ms : List (List UInt8)) : settled react before ms = before ++ ms := by
  induction ms generalizing before with
  | nil => exact (append_nil _).symm
  | cons m ms ih => rw [settled, if_pos (hreact _), ih, append_assoc, singleton_append]

/-! ## Delivery -/

namespace KlDnsTcp

variable {react : React} {result : List UInt8 → List (List UInt8)} {t : KlDnsTcp} {rounds : Nat}

/-- The length at the front is not known yet, or it is the one in the buffer. -/
def Framed (t : KlDnsTcp) : Prop := t.rneed = 0 ∨ 2 ≤ t.rbuf.length ∧ t.rneed = lengthOf t.rbuf

/-- `result more` is what will have been taken out once `more` has come too. -/
structure Live (react : React) (result : List UInt8 → List (List UInt8)) (t : KlDnsTcp) : Prop where
  framed : t.Framed
  result : ∀ more, result more = settled react t.messages (messagesOf (t.rbuf ++ more))

/-- What a delivery leaves: all that is complete was taken out. -/
structure Delivered (react : React) (result : List UInt8 → List (List UInt8)) (rcap : Nat)
    (t : KlDnsTcp) : Prop where
  messages : t.messages = result []
  fits : t.rbuf.length ≤ t.rcap
  rcap : t.rcap ≤ rcap
  waits : t.fd = true → t.destroyRequested = false →
    t.Live react result ∧ (t.rbuf.length < 2 ∨ t.rbuf.length < 2 + lengthOf t.rbuf)

/-- A closed connection delivers nothing more. -/
theorem deliver_close : deliver react rounds t.close = t.close := by
  cases rounds <;> rfl

/-- The loop ends where a message is not whole. -/
theorem Live.waits (h : t.Live react result) (hfits : t.rbuf.length ≤ t.rcap)
    (hcap : t.rcap ≤ rounds) (hshort : t.rbuf.length < 2 ∨ t.rbuf.length < 2 + lengthOf t.rbuf) :
    Delivered react result rounds t where
  messages := by rw [h.result, append_nil, messagesOf_none hshort, settled]
  fits := hfits
  rcap := hcap
  waits _ _ := ⟨h, hshort⟩

/-- The length of the next message is noted. -/
theorem Live.known (h : t.Live react result) (hlen : 2 ≤ t.rbuf.length) :
    t.known.Live react result :=
  ⟨.inr ⟨hlen, rfl⟩, h.result⟩

/-- One round of the loop. -/
theorem deliver_succ (h : t.Framed) : deliver react (rounds + 1) t = if t.rbuf.length < 2 then t
    else if t.rbuf.length < 2 + lengthOf t.rbuf then t.known
    else
      match react t.known.take.messages with
      | .kept => deliver react rounds t.known.take
      | .closed => t.known.take.close
      | .destroyed => { t.known.take with destroyRequested := true } := by
  have hknown (hlen : ¬ t.rbuf.length < 2) : (if t.rneed = 0 then t.known else t) = t.known := by
    split
    · rfl
    · next hneed => rw [known, ← (h.resolve_left hneed).2]
  by_cases hlen : t.rbuf.length < 2
  · have hneed : t.rneed = 0 := h.resolve_right (fun hr => absurd hlen (Nat.not_lt.2 hr.1))
    rw [deliver, if_pos ⟨hneed, hlen⟩, if_pos hlen]
  · rw [deliver, if_neg (fun hr => hlen hr.2), if_neg hlen]
    simp only [hknown hlen, deliver_close]
    rfl

/-- The message at the front is the next of the result. -/
theorem Live.take (h : t.Live react result) (hbuf : 2 + lengthOf t.rbuf ≤ t.rbuf.length)
    (more : List UInt8) : result more = if react t.known.take.messages = .kept then
        settled react t.known.take.messages (messagesOf (t.known.take.rbuf ++ more))
      else t.known.take.messages := by
  rw [h.result, messagesOf_some hbuf]
  rfl

/-- The loop hands out the whole messages of the buffer until the user ends it. -/
theorem Live.deliver (h : t.Live react result) (hfits : t.rbuf.length ≤ t.rcap)
    (hrounds : t.rbuf.length ≤ rounds) :
    Delivered react result t.rcap (deliver react rounds t) := by
  induction rounds generalizing t with
  | zero => exact h.waits hfits (Nat.le_refl _) (.inl (by omega))
  | succ rounds ih =>
    rw [deliver_succ h.framed]
    split
    · next hlen => exact h.waits hfits (Nat.le_refl _) (.inl hlen)
    rename_i hlen
    split
    · next hshort => exact (h.known (Nat.not_lt.1 hlen)).waits hfits (Nat.le_refl _) (.inr hshort)
    rename_i hbuf
    have hnext := h.take (Nat.not_lt.1 hbuf)
    have hdrop : t.known.take.rbuf.length ≤ t.rbuf.length - 2 := by
      show (t.rbuf.drop (2 + lengthOf t.rbuf)).length ≤ _
      rw [length_drop]
      omega
    split
    · next hkept =>
      simp only [hkept, if_true] at hnext
      exact ih ⟨.inl rfl, hnext⟩ (by show _ ≤ t.rcap; omega) (by omega)
    · next hclosed =>
      exact { messages := by rw [hnext, hclosed]; rfl, fits := Nat.zero_le _, rcap := Nat.zero_le _,
              waits := by rintro ⟨⟩ }
    · next hdestroyed =>
      exact { messages := by rw [hnext, hdestroyed]; rfl,
              fits := Nat.le_trans hdrop (by show _ ≤ t.rcap; omega),
              rcap := Nat.le_refl _, waits := by rintro _ ⟨⟩ }

/-! ## Reads -/

/-- Bytes that come in are what is read next. -/
theorem Live.receive (h : t.Live react result) (data : List UInt8) (rcap : Nat) :
    { t with rbuf := t.rbuf ++ data, rcap }.Live react (fun more => result (data ++ more)) where
  framed := by
    refine h.framed.imp_right fun ⟨hlen, hneed⟩ => ⟨?_, ?_⟩
    · exact Nat.le_trans hlen (length_append ▸ Nat.le_add_right _ _)
    · exact hneed.trans (lengthOf_append hlen data).symm
  result more := by rw [h.result, append_assoc]

/-- The messages of the bytes that came were taken out. -/
def Received (react : React) (received : List UInt8) : KlDnsTcp → Prop :=
  Delivered react (fun more => settled react [] (messagesOf (received ++ more)))
    (2 + DNS_TCP_MSG_MAX)

variable {received stream : List UInt8}

theorem Received.close (h : Received react received t) : Received react received t.close :=
  { messages := h.messages, fits := Nat.le_refl _, rcap := Nat.zero_le _, waits := by rintro ⟨⟩ }

/-- The buffer gets room for a byte at least, or the connection is closed. -/
theorem Received.grow (h : Received react received t) (hfd : t.fd = true)
    (hrun : t.destroyRequested = false) (alloc : Bool) : alloc = false ∧ t.grow alloc = t.close ∨
      ∃ rcap, t.grow alloc = { t with rcap } ∧ t.rbuf.length < rcap ∧
      rcap ≤ 2 + DNS_TCP_MSG_MAX := by
  have hle := lengthOf_le t.rbuf
  have hshort := (h.waits hfd hrun).2
  unfold KlDnsTcp.grow
  split
  · next hfull =>
    have hcap : t.rcap < min (if t.rcap = 0 then 4096 else t.rcap * 2) (2 + DNS_TCP_MSG_MAX) := by
      refine Nat.lt_min.2 ⟨?_, ?_⟩
      · split <;> omega
      · omega
    rw [if_neg (Nat.ne_of_gt hcap)]
    cases alloc with
    | true => exact .inr ⟨_, rfl, hfull ▸ hcap, Nat.min_le_right _ _⟩
    | false => exact .inl ⟨rfl, rfl⟩
  · next hroom => exact .inr ⟨t.rcap, rfl, Nat.lt_of_le_of_ne h.fits hroom, h.rcap⟩

/-- A read appends what it took from the socket. -/
theorem Received.read (h : Received react received t) (hfd : t.fd = true)
    (hrun : t.destroyRequested = false)
    (alloc : Bool) (n : Nat) : ∃ data, stream = data ++ (t.read react alloc n stream).2 ∧
      Received react (received ++ data) (t.read react alloc n stream).1 := by
  unfold KlDnsTcp.read
  obtain ⟨-, hgrow⟩ | ⟨rcap, hgrow, hroom, hcap⟩ := h.grow hfd hrun alloc
  · rw [hgrow]
    exact ⟨[], rfl, by rw [append_nil]; exact h.close⟩
  rw [hgrow]
  dsimp only
  rw [if_pos hfd]
  obtain ⟨hlive, hshort⟩ := h.waits hfd hrun
  generalize hdata : stream.take (min n (rcap - t.rbuf.length)) = data
  split
  · refine ⟨[], rfl, ?_⟩
    rw [append_nil]
    exact ⟨h.messages, Nat.le_of_lt hroom, hcap, fun _ _ => ⟨⟨hlive.framed, hlive.result⟩, hshort⟩⟩
  · refine ⟨data, (prefix_iff_eq_append.1 (hdata ▸ take_prefix _ _)).symm, ?_⟩
    have hfits : (t.rbuf ++ data).length ≤ rcap := by
      rw [length_append, ← hdata, length_take]
      omega
    have hafter := (hlive.receive data rcap).deliver hfits (Nat.le_of_eq length_append)
    simp only [← append_assoc] at hafter
    exact { hafter with rcap := Nat.le_trans hafter.rcap hcap }

/-- A read takes bytes where there are some and there is room. -/
theorem read_lt {alloc : Bool} {n : Nat} (hfd : (t.grow alloc).fd = true)
    (hroom : (t.grow alloc).rbuf.length < (t.grow alloc).rcap) (hn : 0 < n)
    (hstream : stream ≠ []) : (t.read react alloc n stream).2.length < stream.length := by
  have hlen := length_pos_iff.mpr hstream
  have hdata : 0 <
      (stream.take (min n ((t.grow alloc).rcap - (t.grow alloc).rbuf.length))).length := by
    rw [length_take]
    omega
  rw [KlDnsTcp.read, if_pos hfd, if_neg (length_pos_iff.mp hdata), length_drop]
  omega

/-- Of the stream the bytes at the front have come. -/
def Reads (react : React) (stream : List UInt8) (x : KlDnsTcp × List UInt8) : Prop :=
  ∃ received, stream = received ++ x.2 ∧ Received react received x.1

theorem Reads.step {x : KlDnsTcp × List UInt8} (h : Reads react stream x) (act : Act) :
    Reads react stream (KlDnsTcp.step react x act) := by
  obtain ⟨received, rfl, h⟩ := h
  cases act with
  | fail => exact ⟨received, rfl, h.close⟩
  | read alloc n =>
    unfold KlDnsTcp.step
    dsimp only
    split
    · next hlive =>
      rw [Bool.and_eq_true, Bool.not_eq_true'] at hlive
      obtain ⟨data, hdata, hread⟩ := h.read hlive.1 hlive.2 alloc n
      exact ⟨received ++ data, by rw [append_assoc, ← hdata], hread⟩
    · exact ⟨received, rfl, h⟩

/-- The messages delivered are those of the stream, after any events. -/
theorem Reads.run (acts : List Act) {x : KlDnsTcp × List UInt8} (h : Reads react stream x) :
    Reads react stream (acts.foldl (KlDnsTcp.step react) x) := by
  induction acts generalizing x with
  | nil => exact h
  | cons act acts ih => exact ih (h.step act)

/-- Whatever the cuts of the stream, the messages taken out are those that are complete in what came
of it, up to the first whose settling ends the connection; the buffer is never filled over its end,
it has room for the next byte as long as there is memory, and then a read takes bytes. -/
theorem messages_of_stream (react : React) (stream : List UInt8) (acts : List Act) :
    let t := (acts.foldl (step react) (connected, stream)).1
    let rest := (acts.foldl (step react) (connected, stream)).2
    ∃ received, stream = received ++ rest ∧ t.messages = settled react [] (messagesOf received) ∧
      ((∀ ms, react ms = .kept) → t.messages = messagesOf received) ∧
      t.rbuf.length ≤ t.rcap ∧ t.rcap ≤ 2 + DNS_TCP_MSG_MAX ∧
      (t.fd = true → t.destroyRequested = false →
        (t.grow true).fd = true ∧ (t.grow true).rbuf.length < (t.grow true).rcap ∧
          ∀ n, 0 < n → rest ≠ [] → (t.read react true n rest).2.length < rest.length) := by
  intro t rest
  have hconnected : Received react [] connected :=
    Live.waits ⟨.inl rfl, fun _ => rfl⟩ (Nat.le_refl _) (Nat.zero_le _) (.inl (by decide))
  have hreads : Reads react stream (connected, stream) := ⟨[], rfl, hconnected⟩
  obtain ⟨received, hstream, h⟩ := hreads.run acts
  have hmessages := h.messages
  rw [append_nil] at hmessages
  refine ⟨received, hstream, hmessages, fun hkept => ?_, h.fits, h.rcap, fun hfd hrun => ?_⟩
  · rw [hmessages, settled_kept hkept, nil_append]
  · have hready : (t.grow true).fd = true ∧ (t.grow true).rbuf.length < (t.grow true).rcap := by
      obtain ⟨⟨⟩, -⟩ | ⟨rcap, hgrow, hroom, -⟩ := h.grow hfd hrun true
      rw [hgrow]
      exact ⟨hfd, hroom⟩
    exact ⟨hready.1, hready.2, fun n hn hrest => read_lt hready.1 hready.2 hn hrest⟩

/-- A message that comes in three cuts, the first inside its length, and an empty one behind it. The
third has not come as a whole. -/
theorem messages_of_stream_cuts :
    let x := [.read true 1, .read true 2, .read true 3].foldl (step fun _ => .kept)
      (connected, [0, 2, 7, 8, 0, 0, 0, 1, 9])
    x.1.messages = messagesOf [0, 2, 7, 8, 0, 0] ∧ x.1.messages = [[7, 8], []] ∧
      (x.1.read (fun _ => .kept) true 5 x.2).2.length < x.2.length := by
  obtain ⟨received, hstream, -, hkept, -, -, hprogress⟩ := messages_of_stream (fun _ => .kept)
    [0, 2, 7, 8, 0, 0, 0, 1, 9] [.read true 1, .read true 2, .read true 3]
  obtain rfl : received = [0, 2, 7, 8, 0, 0] := append_cancel_right hstream.symm
  exact ⟨hkept fun _ => rfl, by decide +kernel,
    (hprogress (by decide +kernel) (by decide +kernel)).2.2 5 (by decide) (by decide +kernel)⟩

end KlDnsTcp

/-! ## Queries -/

/-- The sending part of a connection: whether it is open and past CONNECTING, and the `wlen` bytes
of the buffer, of which the socket took the first `wsent`. -/
structure Sender where
  fd : Bool := true
  ready : Bool
  wbuf : List UInt8 := []
  wsent : Nat := 0
  wcap : Nat := 0
deriving DecidableEq

/-- A query behind its length. -/
def frame (q : List UInt8) : List UInt8 :=
  UInt8.ofNat (q.length / 256) :: UInt8.ofNat (q.length % 256) :: q

/-- The doubling loop of `dns_tcp_send_leg`. A capacity cannot be doubled 64 times. -/
def grown (need : Nat) : Nat → Nat → Nat
  | 0, _ => need
  | fuel + 1, ncap =>
    if ncap < need then if SIZE_MAX / 2 < ncap then need else grown need fuel (ncap * 2) else ncap

namespace Sender

variable (t : Sender)

def close : Sender := { t with fd := false, wbuf := [], wsent := 0, wcap := 0 }

/-- Room for a query of `n` bytes, unless there is no memory. -/
def reserve (alloc : Bool) (n : Nat) : Option Sender :=
  let need := t.wbuf.length + 2 + n
  if t.wcap < need then
    if alloc then some { t with wcap := grown need 64 (if t.wcap = 0 then 2048 else t.wcap) }
    else none
  else some t

def push (q : List UInt8) : Sender := { t with wbuf := t.wbuf ++ frame q }

/-- `dns_tcp_flush`, with the bytes that the socket takes. It takes so many at each write, or fails
with 0. After the last answer it would block. -/
def flush (t : Sender) : List Nat → Sender × List UInt8
  | [] => if t.wsent < t.wbuf.length then (t, []) else ({ t with wbuf := [], wsent := 0 }, [])
  | n :: answers =>
    if t.wsent < t.wbuf.length then
      if n = 0 then (t.close, [])
      else
        let data := (t.wbuf.drop t.wsent).take n
        let rest := flush { t with wsent := t.wsent + data.length } answers
        (rest.1, data ++ rest.2)
    else ({ t with wbuf := [], wsent := 0 }, [])

/-- A query, with whether memory can be had for it; an event, with whether the connect succeeded and
whether it is a WRITE; or the end of the connection for another reason. -/
inductive Act where
  | sendLeg (alloc : Bool) (q : List UInt8) (answers : List Nat)
  | event (connected write : Bool) (answers : List Nat)
  | fail

/-- What an act leaves: the connection, `tcp_pending` of the leg and the bytes that the socket
took. -/
structure Turn where
  conn : Sender
  tcpPending : Bool := false
  written : List UInt8 := []

/-- `dns_tcp_send_leg` once the query is built, and `dns_tcp_on_event_body` up to the reads. -/
def step : Act → Turn
  | .sendLeg alloc q answers =>
    if !t.fd || DNS_TCP_MSG_MAX < q.length then ⟨t, false, []⟩
    else
      match t.reserve alloc q.length with
      | none => ⟨t, false, []⟩
      | some t =>
        if t.ready then ⟨((t.push q).flush answers).1, true, ((t.push q).flush answers).2⟩
        else ⟨t.push q, true, []⟩
  | .event connected write answers =>
    if !t.fd then ⟨t, false, []⟩
    else if !t.ready && !connected then ⟨t.close, false, []⟩
    else
      let t := { t with ready := true }
      if write then ⟨(t.flush answers).1, false, (t.flush answers).2⟩ else ⟨t, false, []⟩
  | .fail => ⟨t.close, false, []⟩

/-- The queries that wait for an answer after an act. -/
def Act.queries (pending : Bool) : Act → List (List UInt8)
  | .sendLeg _ q _ => if pending then [q] else []
  | .event _ _ _ | .fail => []

/-- A run: the connection, the queries that were put on it and the bytes that the socket took. -/
structure Run where
  conn : Sender
  queries : List (List UInt8) := []
  written : List UInt8 := []

def Run.step (r : Run) (act : Act) : Run :=
  let turn := r.conn.step act
  { conn := turn.conn, queries := r.queries ++ act.queries turn.tcpPending,
    written := r.written ++ turn.written }

variable {t} {qs : List (List UInt8)} {written : List UInt8}

/-- What was written begins the queries in their frames, and the rest of them waits within the
buffer. -/
structure Inv (qs : List (List UInt8)) (written : List UInt8) (t : Sender) : Prop where
  fits : ∀ q ∈ qs, q.length ≤ DNS_TCP_MSG_MAX
  begins : written <+: qs.flatMap frame
  wsent : t.wsent ≤ t.wbuf.length
  wcap : t.wbuf.length ≤ t.wcap
  waits : t.fd = true → written ++ t.wbuf.drop t.wsent = qs.flatMap frame

theorem Inv.close (h : t.Inv qs written) : t.close.Inv qs written :=
  ⟨h.fits, h.begins, Nat.le_refl _, Nat.le_refl _, by rintro ⟨⟩⟩

theorem le_grown (need fuel ncap : Nat) : need ≤ grown need fuel ncap := by
  induction fuel generalizing ncap with
  | zero => exact Nat.le_refl _
  | succ fuel ih =>
    unfold grown
    split_ifs with hlt
    · exact Nat.le_refl _
    · exact ih _
    · exact Nat.le_of_not_lt hlt

/-- Room is made without touching the bytes. -/
theorem reserve_spec {alloc : Bool} {n : Nat} {t' : Sender} (hr : t.reserve alloc n = some t') :
    ∃ wcap, t' = { t with wcap } ∧ t.wcap ≤ wcap ∧ t.wbuf.length + 2 + n ≤ wcap := by
  unfold reserve at hr
  dsimp only at hr
  split at hr
  next hroom =>
    split at hr
    · cases hr
      have hgrown := le_grown (t.wbuf.length + 2 + n) 64 (if t.wcap = 0 then 2048 else t.wcap)
      exact ⟨_, rfl, Nat.le_trans (Nat.le_of_lt hroom) hgrown, hgrown⟩
    · cases hr
  next hroom =>
    cases hr
    exact ⟨t.wcap, rfl, Nat.le_refl _, Nat.le_of_not_lt hroom⟩

/-- A query that has room is queued in its frame. -/
theorem Inv.push (h : t.Inv qs written) (hfd : t.fd = true) {q : List UInt8}
    (hq : q.length ≤ DNS_TCP_MSG_MAX) (hroom : t.wbuf.length + 2 + q.length ≤ t.wcap) :
    (t.push q).Inv (qs ++ [q]) written := by
  have hnext : written ++ (t.wbuf ++ frame q).drop t.wsent = (qs ++ [q]).flatMap frame := by
    rw [drop_append_of_le_length h.wsent, ← append_assoc, h.waits hfd, flatMap_append,
      flatMap_singleton]
  have hlen : (t.wbuf ++ frame q).length = t.wbuf.length + 2 + q.length := by
    rw [length_append, frame, length_cons, length_cons]
    omega
  have hsent := h.wsent
  exact
    { fits := forall_mem_append.mpr ⟨h.fits, forall_mem_singleton.mpr hq⟩
      begins := ⟨_, hnext⟩
      wsent := by show t.wsent ≤ (t.wbuf ++ frame q).length; omega
      wcap := by show (t.wbuf ++ frame q).length ≤ t.wcap; omega
      waits := fun _ => hnext }

/-- All was written, and the buffer starts over. -/
theorem Inv.flushed (h : t.Inv qs written) (hall : ¬ t.wsent < t.wbuf.length) :
    Inv qs written { t with wbuf := [], wsent := 0 } where
  fits := h.fits
  begins := h.begins
  wsent := Nat.le_refl _
  wcap := Nat.zero_le _
  waits hfd := by rw [← h.waits hfd, drop_of_length_le (Nat.le_of_not_lt hall), drop_nil]

/-- The bytes leave the queue in order, however the writes are cut. -/
theorem Inv.flush (h : t.Inv qs written) (hfd : t.fd = true) (answers : List Nat) :
    (t.flush answers).1.Inv qs (written ++ (t.flush answers).2) := by
  induction answers generalizing t written with
  | nil =>
    unfold Sender.flush
    split_ifs with hmore <;> rw [append_nil]
    · exact h
    · exact h.flushed hmore
  | cons n answers ih =>
    unfold Sender.flush
    split_ifs with hmore
    · rw [append_nil]
      exact h.close
    · generalize hdata : (t.wbuf.drop t.wsent).take n = data
      have hsplit : written ++ data ++ t.wbuf.drop (t.wsent + data.length) = qs.flatMap frame := by
        rw [append_assoc, ← drop_drop, ← h.waits hfd]
        exact congrArg _ (prefix_iff_eq_append.1 (hdata ▸ take_prefix _ _))
      have hlen : data.length ≤ t.wbuf.length - t.wsent := by
        rw [← hdata, length_take, length_drop]
        exact Nat.min_le_right _ _
      have hnext : Inv qs (written ++ data) { t with wsent := t.wsent + data.length } :=
        ⟨h.fits, ⟨_, hsplit⟩, by show t.wsent + data.length ≤ t.wbuf.length; omega, h.wcap, fun _ =>
          hsplit⟩
      have hrest := ih hnext hfd
      rwa [append_assoc] at hrest
    · rw [append_nil]
      exact h.flushed hmore

/-- One act of the sender, with the queries it took and the bytes it wrote. -/
theorem Inv.step (h : t.Inv qs written) (act : Act) :
    Inv (qs ++ act.queries (t.step act).tcpPending)
    (written ++ (t.step act).written) (t.step act).conn := by
  have hsame : Inv (qs ++ []) (written ++ []) t := by rwa [append_nil, append_nil]
  have hclosed : Inv (qs ++ []) (written ++ []) t.close := by
    rw [append_nil, append_nil]
    exact h.close
  cases act with
  | fail => exact hclosed
  | event connected write answers =>
    dsimp only [Sender.step]
    split_ifs with hfd
    · exact hsame
    · exact hclosed
    all_goals
      have hready : Inv qs written { t with ready := true } :=
        ⟨h.fits, h.begins, h.wsent, h.wcap, h.waits⟩
      have hflush := hready.flush (by simpa using hfd) answers
    · rwa [← append_nil qs] at hflush
    · rwa [← append_nil qs, ← append_nil written] at hready
  | sendLeg alloc q answers =>
    dsimp only [Sender.step]
    split
    · exact hsame
    next hopen =>
      simp only [Bool.or_eq_true, Bool.not_eq_true', decide_eq_true_eq, not_or, Bool.not_eq_false,
        Nat.not_lt] at hopen
      cases hr : t.reserve alloc q.length with
      | none => exact hsame
      | some t' =>
        obtain ⟨wcap, rfl, hle, hroom⟩ := reserve_spec hr
        have hroomy : Inv qs written { t with wcap } :=
          ⟨h.fits, h.begins, h.wsent, Nat.le_trans h.wcap hle, h.waits⟩
        have hpush := hroomy.push hopen.1 hopen.2 hroom
        dsimp only
        split
        · exact hpush.flush hopen.1 answers
        · rwa [← append_nil written] at hpush

end Sender

end DnsTcp
