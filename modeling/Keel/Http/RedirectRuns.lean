-- SUMMARY: Redirect chains: where credentials go, and when the drivers agree.
import Keel.Http.Redirect

/-!
# Redirect chains

The requests of either driver are a chain of hops, in which the method and the body stay or
become GET and nothing. Where credentials are sent follows from that. Whether the two
drivers agree is decided hop by hop: they differ in what they do at the limit and in the
error for a request that cannot start.
-/

open Message Url List Option

/-! ## The chain of requests -/

/-- The next hop keeps method and body, or drops both. -/
def Hop.Goes (h h' : Hop) : Prop :=
  h'.index = h.index + 1 ∧ ((h'.method = h.method ∧ h'.body = h.body) ∨
    (h'.method = ascii "GET" ∧ h'.body = []))

/-- The requests sent from the hop `h` on, with at most `left` redirects. -/
inductive Hops (w : Client) (q : Initial) : Nat → Hop → List ClientRequest → Prop where
  | unsent (left : Nat) (h : Hop) : Hops w q left h []
  | last (left : Nat) (h : Hop) (hok : w.refuses (h.request q) = none) :
      Hops w q left h [h.request q]
  | next (left : Nat) (h h' : Hop) (sent : List ClientRequest)
      (hok : w.refuses (h.request q) = none)
      (hgoes : h.Goes h') (hrest : Hops w q left h' sent) : Hops w q (left + 1) h
        (h.request q :: sent)

variable {w : Client} {q : Initial} {h : Hop} {sent : List ClientRequest}

theorem sent_asking (url : List UInt8) (v : Visible) : (v.asking w url).sent = v.sent := by
  unfold Visible.asking
  split <;> rfl

theorem Hop.goes_onto (h : Hop) (status : Int) (url : List UInt8) : h.Goes (h.onto status url) := by
  unfold Hop.onto
  split
  · exact ⟨rfl, .inr ⟨rfl, rfl⟩⟩
  · exact ⟨rfl, .inl ⟨rfl, rfl⟩⟩

theorem hop_onto (rc : KlHttpRedirectClient) (status : Int) (url : List UInt8) :
    (rc.onto status url).hop = rc.hop.onto status url := by
  unfold KlHttpRedirectClient.onto Hop.onto
  by_cases h : methodChangesToGet status rc.currentMethod =
    true <;> simp [KlHttpRedirectClient.hop, h]

/-- A request alone, or a request and those of the next hop. -/
def OneHop (w : Client) (q : Initial) (h : Hop) (next : Hop → List ClientRequest)
    (sent : List ClientRequest) : Prop :=
  sent = [] ∨ (w.refuses (h.request q) = none ∧ ∃ rest, sent = h.request q :: rest ∧
    (rest = [] ∨ ∃ h', h.Goes h' ∧ rest = next h'))

theorem syncIteration_sent (w : Client) (q : Initial) (h : Hop) (next : Hop → Visible) :
    OneHop w q h (fun h' => (next h').sent) (syncIteration w q h next).sent := by
  unfold syncIteration
  split
  · exact .inl rfl
  rename_i hok
  refine .inr ⟨hok, _, rfl, ?_⟩
  split
  · exact .inl rfl
  split
  · exact .inl rfl
  split
  · exact .inl rfl
  split
  · exact .inl rfl
  rw [sent_asking]
  split
  · exact .inl rfl
  · exact .inr ⟨_, h.goes_onto _ _, rfl⟩

theorem startNextRequest_sent (w : Client) (q : Initial) (rc : KlHttpRedirectClient)
    (start : KlHttpRedirectClient → Visible) :
    OneHop w q rc.hop (fun h' => (start ⟨h'.index, h'.method, h'.url, h'.body⟩).sent)
    (startNextRequest w q rc start).sent := by
  unfold startNextRequest internalOnDone
  split
  · exact .inl rfl
  rename_i hok
  refine .inr ⟨hok, _, rfl, ?_⟩
  split
  · exact .inl rfl
  split
  · exact .inl rfl
  split
  · exact .inl rfl
  split
  · exact .inl rfl
  split
  · exact .inl rfl
  split
  · exact .inl rfl
  rw [sent_asking]
  split
  · exact .inl rfl
  · exact .inr ⟨_, hop_onto rc _ _ ▸ rc.hop.goes_onto _ _, rfl⟩

variable {left : Nat} {req : ClientRequest} {v v' : Visible}

/-- From the iterations to the chain. -/
theorem OneHop.hops {next : Hop → List ClientRequest}
    (hone : OneHop w q h next sent) (hnext : ∀ h', Hops w q left h' (next h')) :
    Hops w q (left + 1) h sent := by
  rcases hone with rfl | ⟨hok, rest, rfl, rfl | ⟨h', hgoes, rfl⟩⟩
  · exact .unsent _ _
  · exact .last _ h hok
  · exact .next left h h' _ hok hgoes (hnext h')

theorem OneHop.stops (hone : OneHop w q h (fun _ => []) sent) : Hops w q 0 h sent := by
  rcases hone with rfl | ⟨hok, rest, rfl, rfl | ⟨h', -, rfl⟩⟩
  · exact .unsent _ _
  · exact .last _ h hok
  · exact .last _ h hok

theorem syncLoop_hops (left : Nat) (h : Hop) : Hops w q left h (syncLoop w q left h).sent := by
  induction left generalizing h with
  | zero => exact (syncIteration_sent w q h _).stops
  | succ left ih => exact (syncIteration_sent w q h _).hops ih

theorem asyncRun_hops (fuel : Nat) (rc : KlHttpRedirectClient) :
    Hops w q fuel rc.hop (asyncRun w q fuel rc).sent := by
  induction fuel generalizing rc with
  | zero => exact (startNextRequest_sent w q rc _).stops
  | succ fuel ih =>
    exact (startNextRequest_sent w q rc _).hops fun h' => ih ⟨h'.index, h'.method, h'.url, h'.body⟩

/-! ## Credentials -/

/-- The parsed URLs have the same scheme (with or without TLS), and the same host and port or the
same socket path. -/
def SameOrigin (a b : KlUrl) : Prop :=
  a.isHttps = b.isHttps ∧
    ((a.isUnix = true ∧ b.isUnix = true ∧ a.unixPath = b.unixPath) ∨
      (a.isUnix = false ∧ b.isUnix = false ∧ a.host.map lower = b.host.map lower ∧ a.port = b.port))

theorem sameOrigin_of_not_cross {a b : KlUrl} (h : isCrossOrigin a b = false) : SameOrigin a b := by
  unfold isCrossOrigin at h
  split at h
  · cases h
  rename_i hhttps
  refine ⟨not_not.mp hhttps, ?_⟩
  split at h
  · cases h
  rename_i hunix
  have hunix := not_not.mp hunix
  split at h
  · next ha => exact .inl ⟨ha, hunix ▸ ha, not_not.mp (of_decide_eq_false h)⟩
  next ha =>
  have ha := Bool.eq_false_iff.mpr ha
  split at h
  · cases h
  next hport =>
  split at h
  · cases h
  · have hhost : strcasecmp a.host b.host = true := by simpa using h
    exact .inr ⟨ha, hunix ▸ ha, beq_iff_eq.mp hhost, not_not.mp hport⟩

/-- What the requests of a driver have in common. -/
structure Contained (q : Initial) (left : Nat) (sent : List ClientRequest) : Prop where
  /-- A request with credentials goes to the origin of the original URL. -/
  origin : ∀ req ∈ sent, ∀ x ∈ req.headers, isCredential x.name = true →
    ∃ a b, urlParse q.url = some a ∧ urlParse req.url = some b ∧ SameOrigin a b
  count : sent.length ≤ left + 1
  /-- After a change of the method no body is sent. -/
  body : sent.Pairwise fun a b => a.method ≠ b.method → b.body = []

theorem parse_of_accepted (h : w.refuses req = none) : ∃ u, urlParse req.url = some u := by
  unfold Client.refuses at h
  split at h
  · cases h
  · next u hu => exact ⟨u, hu⟩

theorem Hop.origin (hok : w.refuses (h.request q) = none) (hfirst : h.index = 0 → h.url = q.url)
    (hparse : ∃ a, urlParse q.url = some a) {x : KlHttpClientHeader}
    (hx : x ∈ (h.request q).headers)
    (hcred : isCredential x.name = true) :
    ∃ a b, urlParse q.url = some a ∧ urlParse (h.request q).url = some b ∧ SameOrigin a b := by
  obtain ⟨a, ha⟩ := hparse
  obtain ⟨b, hb⟩ := parse_of_accepted hok
  refine ⟨a, b, ha, hb, ?_⟩
  have hb : urlParse h.url = some b := hb
  rcases Nat.eq_zero_or_pos h.index with hzero | hpos
  · rw [hfirst hzero, ha] at hb
    obtain rfl := some.inj hb
    refine ⟨rfl, ?_⟩
    cases hunix : a.isUnix with
    | true => exact .inl ⟨rfl, rfl, rfl⟩
    | false => exact .inr ⟨rfl, rfl, rfl, rfl⟩
  · apply sameOrigin_of_not_cross
    have hkeep := (mem_filter.mp hx).2
    simp only [hpos, if_true, ha, hb] at hkeep
    unfold shouldDropHeader at hkeep
    rw [hcred] at hkeep
    cases hcross : isCrossOrigin a b with
    | false => rfl
    | true => simp [hcross] at hkeep

/-- Of the hops that follow, each has lost the body or has kept method and body. -/
theorem Hops.keeps (hs : Hops w q left h sent) :
    ∀ req ∈ sent, req.body = [] ∨ (req.method = h.method ∧ req.body = h.body) := by
  induction hs with
  | unsent => exact fun _ hreq => nomatch hreq
  | last left h hok => exact forall_mem_singleton.mpr (.inr ⟨rfl, rfl⟩)
  | next left h h' sent hok hgoes hrest ih =>
    refine forall_mem_cons.mpr ⟨.inr ⟨rfl, rfl⟩, fun req hreq => ?_⟩
    rcases ih req hreq with hnil | ⟨hm, hb⟩
    · exact .inl hnil
    · rcases hgoes.2 with ⟨hm', hb'⟩ | ⟨-, hb'⟩
      · exact .inr ⟨hm.trans hm', hb.trans hb'⟩
      · exact .inl (hb.trans hb')

theorem Hops.contained (hs : Hops w q left h sent)
    (hfirst : h.index = 0 → h.url = q.url) (hparse : 0 < h.index → ∃ a, urlParse q.url = some a) :
    Contained q left sent := by
  have hknown : ∀ h : Hop, w.refuses (h.request q) = none → (h.index = 0 → h.url = q.url) →
      (0 < h.index → ∃ a, urlParse q.url = some a) → ∃ a, urlParse q.url = some a := by
    intro h hok hfirst hparse
    rcases Nat.eq_zero_or_pos h.index with hzero | hpos
    · exact hfirst hzero ▸ parse_of_accepted hok
    · exact hparse hpos
  induction hs with
  | unsent => exact ⟨fun _ hreq => (nomatch hreq), Nat.zero_le _, .nil⟩
  | last left h hok =>
    refine ⟨forall_mem_singleton.mpr fun x hx hcred => ?_, Nat.succ_le_succ (Nat.zero_le _),
      pairwise_singleton _ _⟩
    exact Hop.origin hok hfirst (hknown h hok hfirst hparse) hx hcred
  | next left h h' sent hok hgoes hrest ih =>
    have hseen := hknown h hok hfirst hparse
    have hpos : h'.index ≠ 0 := by
      rw [hgoes.1]
      exact Nat.succ_ne_zero _
    have hg := ih (fun hzero => absurd hzero hpos) (fun _ => hseen)
    refine ⟨forall_mem_cons.mpr ⟨fun x hx hcred => Hop.origin hok hfirst hseen hx hcred, hg.origin⟩,
      Nat.succ_le_succ hg.count, pairwise_cons.mpr ⟨fun req hreq hne => ?_, hg.body⟩⟩
    rcases hrest.keeps req hreq with hnil | ⟨hm, hb⟩
    · exact hnil
    · rcases hgoes.2 with ⟨hm', -⟩ | ⟨-, hb'⟩
      · exact absurd (hm.trans hm').symm hne
      · exact hb.trans hb'

/-- Every chain of either driver sends credentials to the origin of the original URL alone, makes
at most one request more than the limit, and sends no body after the method has changed. -/
theorem credentials_stay (w : Client) (q : Initial) :
    Contained q q.limit (syncRequest w q).sent ∧ Contained q q.limit (redirectStart w q).sent := by
  have hnone : Contained q q.limit [] := ⟨fun _ hreq => (nomatch hreq), Nat.zero_le _, .nil⟩
  constructor
  · unfold syncRequest
    split_ifs
    · exact hnone
    · exact hnone
    · exact hnone
    · exact (syncLoop_hops _ _).contained (fun _ => rfl) (fun hpos => absurd hpos (Nat.lt_irrefl 0))
  · unfold redirectStart
    split_ifs
    · exact hnone
    · exact hnone
    · exact hnone
    · exact (asyncRun_hops _ _).contained (fun _ => rfl) (fun hpos => absurd hpos (Nat.lt_irrefl 0))

/-- A client without proxy or policy whose servers answer from a list. -/
def scripted (answers : List KlHttpClientResponse) : Client where
  tls := true
  proxied := false
  rejects _ := none
  answer i := match answers[i]? with
    | some resp => .ok resp
    | none => .error .io
  onRedirect := none
  inline _ := false
  inlineError _ h := nomatch h

/-- A ws URL counts as an http one: the credentials given for the first are sent to the second. -/
theorem credentials_to_http :
    let q : Initial :=
      { method := ascii "GET", url := ascii "ws://h/"
        headers := [⟨ascii "Authorization", ascii "x"⟩], body := [] }
    (syncRequest (scripted [⟨302, [⟨ascii "Location", ascii "http://h/"⟩], []⟩, ⟨200, [], []⟩])
      q).sent =
      [⟨ascii "GET", ascii "ws://h/", q.headers, []⟩, ⟨ascii "GET", ascii "http://h/", q.headers,
        []⟩] := by
  decide


/-! ## Agreement -/

/-- The hop that the answers lead to after `h`, if they lead on. -/
def Hop.follow (w : Client) (q : Initial) (h : Hop) : Option Hop :=
  if (w.refuses (h.request q)).isSome ∨ (h.index = 0 ∧ w.inline 0) then none
  else
    match w.answer h.index with
    | .error _ => none
    | .ok resp =>
      if !isRedirect resp.status then none
      else
        (findLocation resp).bind fun location =>
          (urlResolve h.url location KL_URL_MAX).bind fun url =>
            if w.permits h.index url then some (h.onto resp.status url) else none

/-- The hops from `h` on, with at most `left` redirects. -/
def hopsFrom (w : Client) (q : Initial) : Nat → Hop → List Hop
  | 0, h => [h]
  | left + 1, h =>
    match h.follow w q with
    | none => [h]
    | some h' => h :: hopsFrom w q left h'

/-- The answer at the limit is not a redirect, or it is one that leads on and nobody is asked
about. -/
def PlainAtLimit (w : Client) (h : Hop) : Prop :=
  match w.answer h.index with
  | .error _ => True
  | .ok resp =>
    isRedirect resp.status = true →
      w.onRedirect.isNone = true ∧
        ((findLocation resp).bind (urlResolve h.url · KL_URL_MAX)).isSome = true

/-- The request of a hop can be started, or the client refuses it with the error that the
asynchronous driver reports. The first one does not complete inside its start, unless with that
error. At the limit the answer is a plain one. -/
def Agreed (w : Client) (q : Initial) (h : Hop) : Prop :=
  match w.refuses (h.request q) with
  | some e => e = if h.index = 0 then .invalidArg else .io
  | none =>
    if h.index = 0 ∧ w.inline 0 then
      match w.answer 0 with
      | .error e => e = .invalidArg
      | .ok _ => True
    else q.limit ≤ h.index → PlainAtLimit w h

theorem Visible.ext_iff : v = v' ↔ v.sent = v'.sent ∧ v.asked = v'.asked ∧
    v.outcome = v'.outcome := by
  obtain ⟨sent, asked, outcome⟩ := v
  obtain ⟨sent', asked', outcome'⟩ := v'
  exact Visible.mk.injEq .. |>.to_iff

theorem sending_inj : v.sending req = v'.sending req ↔ v = v' := by
  simp [Visible.ext_iff, Visible.sending]

theorem asking_inj {url : List UInt8} : v.asking w url = v'.asking w url ↔ v = v' := by
  unfold Visible.asking
  split
  · simp [Visible.ext_iff]
  · exact Iff.rfl

theorem error_iff {e e' : KlError} :
    ({ outcome := .error e } : Visible) = { outcome := .error e' } ↔ e = e' := by
  simp [Visible.ext_iff]

def Hop.client (h : Hop) : KlHttpRedirectClient := ⟨h.index, h.method, h.url, h.body⟩

theorem client_onto (h : Hop) (status : Int) (url : List UInt8) :
    h.client.onto status url = (h.onto status url).client := by
  unfold KlHttpRedirectClient.onto Hop.onto
  by_cases hm : methodChangesToGet status h.method = true <;> simp [Hop.client, hm]

/-- A completion inside the first start: the loop sees the error, the caller of the asynchronous
driver a NULL handle. -/
theorem agree_inline (next : Hop → Visible) (start : KlHttpRedirectClient → Visible)
    (hok : w.refuses (h.request q) = none) (hin : h.index = 0 ∧ w.inline 0 = true) :
    (syncIteration w q h next = startNextRequest w q h.client start ↔ Agreed w q h) ∧
    h.follow w q = none := by
  obtain ⟨e, he⟩ := w.inlineError 0 hin.2
  have hfollow : h.follow w q = none := if_pos (.inr hin)
  refine ⟨?_, hfollow⟩
  unfold syncIteration startNextRequest Agreed
  have hsame : h.client.hop.request q = h.request q := rfl
  have hin' : h.client.redirectsDone = 0 ∧ w.inline 0 = true := hin
  rw [hsame, hok]
  rw [if_pos hin', if_pos hin, sending_inj, hin.1, he]
  exact error_iff

/-- A hop before the limit. -/
theorem agree_before {next : Hop → Visible} {start : KlHttpRedirectClient → Visible}
    (hlt : h.index < q.limit) : syncIteration w q h next = startNextRequest w q h.client start ↔
      Agreed w q h ∧ ∀ h', h.follow w q = some h' → next h' = start h'.client := by
  cases hr : w.refuses (h.request q) with
  | some e =>
    have hfollow : h.follow w q = none := if_pos (.inl (by rw [hr]; rfl))
    unfold syncIteration startNextRequest Agreed
    have hsame : h.client.hop.request q = h.request q := rfl
    rw [hsame, hr, hfollow]
    rw [error_iff]
    exact ⟨fun heq => ⟨heq, fun _ hnone => nomatch hnone⟩, fun hand => hand.1⟩
  | none =>
    by_cases hin : h.index = 0 ∧ w.inline 0 = true
    · obtain ⟨hiff, hfollow⟩ := agree_inline next start hr hin
      rw [hiff, hfollow]
      exact ⟨fun ha => ⟨ha, fun _ hnone => nomatch hnone⟩, fun hand => hand.1⟩
    have hagreed : Agreed w q h := by
      unfold Agreed
      rw [hr]
      rw [if_neg hin]
      exact fun hle => absurd hle (Nat.not_le.mpr hlt)
    have hsame : h.client.hop.request q = h.request q := rfl
    have hin' : ¬(h.client.redirectsDone = 0 ∧ w.inline 0 = true) := hin
    have hlimit : ¬q.limit ≤ h.index := Nat.not_le.mpr hlt
    unfold syncIteration startNextRequest internalOnDone Hop.follow
    rw [hsame, hr]
    rw [if_neg hin', sending_inj,
      if_neg (by rw [isSome_none]; exact fun hor => hor.elim Bool.false_ne_true hin)]
    have hindex : h.client.redirectsDone = h.index := rfl
    have hurl : h.client.currentUrl = h.url := rfl
    rw [hindex, hurl]
    -- both go through the same cases, and lead on in the last one
    have hsplit : ∀ v : Visible, v = v ↔ Agreed w q h ∧ ∀ h', (none : Option Hop) = some h' →
        next h' = start h'.client :=
      fun v => ⟨fun _ => ⟨hagreed, fun _ hnone => nomatch hnone⟩, fun _ => rfl⟩
    cases w.answer h.index with
    | error e => exact hsplit _
    | ok resp =>
      simp only
      cases isRedirect resp.status with
      | false => exact hsplit _
      | true =>
        simp only [Bool.not_true, Bool.false_eq_true, if_false, hlimit]
        cases findLocation resp with
        | none => exact hsplit _
        | some location =>
          simp only [bind_some]
          cases urlResolve h.url location KL_URL_MAX with
          | none => exact hsplit _
          | some url =>
            simp only [bind_some]
            rw [asking_inj]
            cases w.permits h.index url with
            | false => exact hsplit _
            | true =>
              simp only [Bool.not_true, Bool.false_eq_true, if_false, if_true, client_onto]
              constructor
              · rintro heq
                exact ⟨hagreed, fun h' hh' => some.inj hh' ▸ heq⟩
              · exact fun hand => hand.2 _ rfl

theorem Initial.limit_pos (q : Initial) : 0 < q.limit := by
  unfold Initial.limit
  split
  · omega
  · decide

/-- The hop at the limit: the loop looks at the redirect once more, the asynchronous driver does
not. -/
theorem agree_at (heq : h.index = q.limit) {start : KlHttpRedirectClient → Visible} :
    syncIteration w q h (fun _ => { outcome := .error .redirectLoop }) =
    startNextRequest w q h.client start ↔ Agreed w q h := by
  have hsame : h.client.hop.request q = h.request q := rfl
  have hpos := q.limit_pos
  have hne : h.index ≠ 0 := by omega
  unfold Agreed
  cases hr : w.refuses (h.request q) with
  | some e =>
    unfold syncIteration startNextRequest
    rw [hsame, hr]
    exact error_iff
  | none =>
    have hin : ¬(h.index = 0 ∧ w.inline 0 = true) := fun hand => hne hand.1
    have hin' : ¬(h.client.redirectsDone = 0 ∧ w.inline 0 = true) := hin
    unfold syncIteration startNextRequest internalOnDone PlainAtLimit
    rw [hsame, hr]
    rw [if_neg hin', if_neg hin, sending_inj]
    have hindex : h.client.redirectsDone = h.index := rfl
    rw [hindex]
    have hle : q.limit ≤ h.index := Nat.le_of_eq heq.symm
    cases w.answer h.index with
    | error e => exact ⟨fun _ _ => trivial, fun _ => rfl⟩
    | ok resp =>
      simp only
      cases isRedirect resp.status with
      | false => exact ⟨fun _ _ hfalse => absurd hfalse Bool.false_ne_true, fun _ => rfl⟩
      | true =>
        simp only [Bool.not_true, Bool.false_eq_true, if_false, true_implies, hle, if_true]
        cases findLocation resp with
        | none =>
          exact ⟨fun hv => by simp [Visible.ext_iff] at hv, fun hplain =>
            absurd hplain.2 Bool.false_ne_true⟩
        | some location =>
          simp only [bind_some]
          cases urlResolve h.url location KL_URL_MAX with
          | none =>
            exact ⟨fun hv => by simp [Visible.ext_iff] at hv, fun hplain =>
              absurd hplain.2 Bool.false_ne_true⟩
          | some url =>
            simp only [isSome_some, and_true]
            cases hpolicy : w.onRedirect with
            | none =>
              have hpermits : w.permits h.index url = true := by
                unfold Client.permits
                rw [hpolicy]
              have hask : ∀ v : Visible, v.asking w url = v := by
                intro v
                unfold Visible.asking
                rw [hpolicy]
                rfl
              rw [hpermits, hask]
              exact ⟨fun _ => rfl, fun _ => rfl⟩
            | some check =>
              refine ⟨fun hv => ?_, fun hplain => absurd hplain Bool.false_ne_true⟩
              have hasked := congrArg Visible.asked hv
              unfold Visible.asking at hasked
              rw [hpolicy] at hasked
              cases hasked

theorem follow_index {h' : Hop} (hf : h.follow w q = some h') : h'.index = h.index + 1 := by
  unfold Hop.follow at hf
  split at hf
  · cases hf
  split at hf
  · cases hf
  split at hf
  · cases hf
  obtain ⟨location, -, hf⟩ := bind_eq_some_iff.mp hf
  obtain ⟨url, -, hf⟩ := bind_eq_some_iff.mp hf
  split at hf
  · obtain rfl := some.inj hf
    exact (h.goes_onto _ _).1
  · cases hf

theorem agree_from (left : Nat) (h : Hop) (hleft : q.limit = h.index + left) :
    syncLoop w q left h = asyncRun w q left h.client ↔ ∀ x ∈ hopsFrom w q left h, Agreed w q x := by
  induction left generalizing h with
  | zero =>
    rw [hopsFrom, forall_mem_singleton]
    exact agree_at hleft.symm
  | succ left ih =>
    rw [syncLoop, asyncRun, agree_before (by omega), hopsFrom]
    cases hf : h.follow w q with
    | none =>
      rw [forall_mem_singleton]
      exact ⟨fun hand => hand.1, fun ha => ⟨ha, fun _ hnone => nomatch hnone⟩⟩
    | some h' =>
      have hindex := follow_index hf
      simp only [forall_mem_cons, some.injEq, forall_eq']
      rw [ih h' (by omega)]

/-- The two drivers send the same requests, ask the policy callback about the same hops and end in
the same way exactly when the checks of the arguments agree and every hop of the chain is
agreed. -/
theorem drivers_agree_iff (w : Client) (q : Initial) : syncRequest w q = redirectStart w q ↔
      KL_HTTP_CLIENT_MAX_REQ_HEADERS < q.headers.length ∨ (q.url.length < KL_URL_MAX ∧
          (METHOD_MAX ≤ q.method.length ∨ ∀ h ∈ hopsFrom w q q.limit q.first, Agreed w q h)) := by
  unfold syncRequest redirectStart
  by_cases hheaders : KL_HTTP_CLIENT_MAX_REQ_HEADERS < q.headers.length
  · rw [if_pos hheaders, if_pos hheaders]
    exact ⟨fun _ => .inl hheaders, fun _ => rfl⟩
  rw [if_neg hheaders, if_neg hheaders]
  by_cases hurl : KL_URL_MAX ≤ q.url.length
  · rw [if_pos hurl, if_pos hurl, ite_self, error_iff]
    exact ⟨fun heq => (nomatch heq), fun hor => hor.elim (absurd · hheaders) fun hand =>
      absurd hand.1 (Nat.not_lt.mpr hurl)⟩
  rw [if_neg hurl, if_neg hurl]
  have hshort := Nat.lt_of_not_le hurl
  by_cases hmethod : METHOD_MAX ≤ q.method.length
  · rw [if_pos hmethod, if_pos hmethod]
    exact ⟨fun _ => .inr ⟨hshort, .inl hmethod⟩, fun _ => rfl⟩
  rw [if_neg hmethod, if_neg hmethod]
  have hagree := agree_from (w := w) (q := q) q.limit q.first (by simp [Initial.first])
  constructor
  · exact fun heq => .inr ⟨hshort, .inr (hagree.mp heq)⟩
  · rintro (hor | ⟨-, hor | hall⟩)
    · exact absurd hor hheaders
    · exact absurd hor hmethod
    · exact hagree.mpr hall

/-- At the limit a redirect without a Location is the response of one driver and an error of the
other. -/
theorem drivers_differ_at_limit :
    let q : Initial :=
  { method := ascii "GET", url := ascii "http://h/", headers := [], body := [], maxRedirects := 1 }
    let w := scripted [⟨302, [⟨ascii "Location", ascii "/x"⟩], []⟩, ⟨302, [], []⟩]
    (syncRequest w q).outcome = .response ⟨302, [], []⟩ ∧
      (redirectStart w q).outcome = .error .redirectLoop := by
  decide
