-- SUMMARY: The router: paths, routes and middleware.
import Keel.Message.Framing

/-!
# Routes and middleware

A route pattern is matched segment by segment, with one slash tolerated at the start and at
the end of either side. A middleware pattern that ends in `/*` is matched as a string, and
every other one as a route pattern. The two agree on the paths of a route where the prefix
is written as a request path begins.
-/

open Message List Option

def slashByte : UInt8 := 47
def colonByte : UInt8 := 58
def starByte : UInt8 := 42

def KL_HTTP_ROUTER_MAX_PARAMS : Nat := 16
def KL_HTTP_ROUTER_MAX_POST_MIDDLEWARE : Nat := 64

structure KlHttpParam where
  name : List UInt8
  value : List UInt8
deriving DecidableEq, Repr

structure KlHttpRoute where
  method : List UInt8
  pattern : List UInt8
  handler : Nat
deriving DecidableEq, Repr

structure KlHttpMiddlewareEntry where
  method : List UInt8
  pattern : List UInt8
  fn : Nat
deriving DecidableEq, Repr

/-- What the router reads of a request. -/
structure KlHttpRequest where
  method : List UInt8
  path : List UInt8
deriving DecidableEq, Repr

structure KlHttpRouter where
  routes : List KlHttpRoute := []
  middleware : List KlHttpMiddlewareEntry := []
  postMiddleware : List KlHttpMiddlewareEntry := []
  /-- `kl_http_router_use_post` refuses more. -/
  postBound : postMiddleware.length ≤ KL_HTTP_ROUTER_MAX_POST_MIDDLEWARE

/-! ## Paths -/

variable (s : List UInt8)

/-- The bytes up to the next slash. -/
def pathSegment : List UInt8 := s.takeWhile (· ≠ slashByte)

def skipSlash : List UInt8 → List UInt8
  | [] => []
  | b :: s => if b = slashByte then s else b :: s

/-- What is left after a segment and the slash behind it. -/
def afterSegment : List UInt8 := skipSlash (s.dropWhile (· ≠ slashByte))

/-- The loop of `match_path`, with the parameters captured so far. -/
def matchSegments : Nat → List UInt8 → List UInt8 → List KlHttpParam → Option (List KlHttpParam)
  | 0, _, _, _ => none
  | fuel + 1, pp, rp, params =>
    if pp ≠ [] ∧ rp ≠ [] then
      if (pathSegment pp).head? = some colonByte then
        -- a full parameter table still matches
        let params :=
          if params.length < KL_HTTP_ROUTER_MAX_PARAMS then
            params ++ [⟨(pathSegment pp).tail, pathSegment rp⟩]
          else params
        matchSegments fuel (afterSegment pp) (afterSegment rp) params
      else if pathSegment pp = pathSegment rp then
        matchSegments fuel (afterSegment pp) (afterSegment rp) params
      else none
    else if pp = [] ∧ rp = [] then some params else none

/-- Each round takes a byte off the pattern. -/
def matchPath (pattern path : List UInt8) : Option (List KlHttpParam) :=
  matchSegments (pattern.length + 1) (skipSlash pattern) (skipSlash path) []

/-! ## Routes and middleware -/

def methodGet : List UInt8 := ascii "GET"
def methodHead : List UInt8 := ascii "HEAD"

/-- The method check of both matchers: any method, the same one, or HEAD for GET. -/
def methodServes (registered method : List UInt8) : Bool :=
  registered.head? = some starByte || registered == method ||
    (method == methodHead && registered == methodGet)

/-- The prefix of a pattern that ends in slash-star. -/
def prefixOf (pattern : List UInt8) : Option (List UInt8) :=
  if 2 ≤ pattern.length ∧ pattern.drop (pattern.length - 2) = [slashByte, starByte] then
    some (pattern.take (pattern.length - 2))
  else none

def matchMiddlewarePattern (mw : KlHttpMiddlewareEntry) (req : KlHttpRequest) : Bool :=
  if !methodServes mw.method req.method then false
  else
    match prefixOf mw.pattern with
    | some pre =>
      if pre.length = 0 then true
      else if req.path.length < pre.length then false
      else if req.path.take pre.length ≠ pre then false
      else req.path.length = pre.length || req.path.getD pre.length 0 == slashByte
    | none => (matchPath mw.pattern req.path).isSome

namespace KlHttpRouter

/-- The status, and the route that serves the request with its parameters. -/
def matchFrom (req : KlHttpRequest) (pathMatched : Bool) :
    List KlHttpRoute → Nat × Option (KlHttpRoute × List KlHttpParam)
  | [] => (if pathMatched then 405 else 404, none)
  | route :: rest =>
    match matchPath route.pattern req.path with
    | none => matchFrom req pathMatched rest
    | some params =>
      if methodServes route.method req.method then (200, some (route, params))
      else matchFrom req true rest

variable (r : KlHttpRouter)

def routerMatch (req : KlHttpRequest) : Nat × Option (KlHttpRoute × List KlHttpParam) :=
  matchFrom req false r.routes

/-- A call that the router makes. -/
inductive Called where
  | middleware (mw : KlHttpMiddlewareEntry)
  | handler (route : KlHttpRoute)
deriving DecidableEq, Repr

/-- Run the selected entries until one answers other than 0. `answer` is the result of the
call made last. -/
def runSelected (answer : List Called → Int) : List (Bool × KlHttpMiddlewareEntry) → List Called →
    List Called × Int
  | [], calls => (calls, 0)
  | (selected, mw) :: rest, calls =>
    if selected then
      let calls := calls ++ [.middleware mw]
      if answer calls ≠ 0 then (calls, answer calls) else runSelected answer rest calls
    else runSelected answer rest calls

variable (answer : List Called → Int)

def runMiddleware (req : KlHttpRequest) (calls : List Called) :
    List Called × Int :=
  runSelected answer (r.middleware.map fun mw => (matchMiddlewarePattern mw req, mw)) calls

/-- Set the bit of an entry that matches. -/
def markMatch (req : KlHttpRequest) (matched : BitVec 64) (x : KlHttpMiddlewareEntry × Nat) :
    BitVec 64 :=
  if matchMiddlewarePattern x.1 req then matched ||| (1#64 <<< x.2) else matched

/-- The set of post-body middleware that matches, one bit each. -/
def postMatch (req : KlHttpRequest) : BitVec 64 :=
  r.postMiddleware.zipIdx.foldl (markMatch req) 0#64

def runPostMatched (matched : BitVec 64) (calls : List Called) :
    List Called × Int :=
  runSelected answer (r.postMiddleware.zipIdx.map fun x => (matched.getLsbD x.2, x.1)) calls

def runPostMiddleware (req : KlHttpRequest) (calls : List Called) :
    List Called × Int :=
  r.runPostMatched answer (r.postMatch req) calls

/-- The calls made and the result. -/
def dispatchSynthetic (req : KlHttpRequest) (middleware : Bool) :
    List Called × Int :=
  match r.routerMatch req with
  | (status, matched) =>
    if middleware then
      match r.runMiddleware answer req [] with
      | (calls, rc) =>
        if rc ≠ 0 then (calls, rc)
        else
          match r.runPostMiddleware answer req calls with
          | (calls, rc) =>
            if rc ≠ 0 then (calls, rc)
            else
              match matched with
              | some (route, _) => (calls ++ [.handler route], 200)
              | none => (calls, status)
    else
      match matched with
      | some (route, _) => ([.handler route], 200)
      | none => ([], status)

end KlHttpRouter

/-! ## Prefixes -/

/-- No segment is a parameter. `atStart` says that a segment begins here. -/
def literalFrom : Bool → List UInt8 → Bool
  | _, [] => true
  | atStart, b :: s => !(atStart && b == colonByte) && literalFrom (b == slashByte) s

/-- The pattern goes on at a segment boundary. -/
def AtBoundary (rest : List UInt8) : Prop := rest = [] ∨ rest.head? = some slashByte

theorem AtBoundary.cases {rest : List UInt8} (h : AtBoundary rest) :
    rest = [] ∨ ∃ t, rest = slashByte :: t :=
  h.imp_right head?_eq_some_iff.mp

theorem skipSlash_slash (t : List UInt8) : skipSlash (slashByte :: t) = t := by simp [skipSlash]

theorem segment_append : pathSegment s ++ s.dropWhile (· ≠ slashByte) = s :=
  takeWhile_append_dropWhile

theorem boundary_dropWhile : AtBoundary (s.dropWhile (· ≠ slashByte)) := by
  cases h : s.dropWhile (· ≠ slashByte) with
  | nil => exact .inl rfl
  | cons b t =>
    refine .inr ?_
    have := head?_dropWhile_not (· ≠ slashByte) s
    rw [h] at this
    simpa using this

variable {rest q : List UInt8} {params : List KlHttpParam} {seg rp pattern : List UInt8}
  {fuel : Nat} {mw : KlHttpMiddlewareEntry} {req : KlHttpRequest}

theorem takeWhile_boundary (hseg : ∀ b ∈ seg, b ≠ slashByte) (hrest : AtBoundary rest) :
    pathSegment (seg ++ rest) = seg ∧ (seg ++ rest).dropWhile (· ≠ slashByte) = rest := by
  have hall : ∀ b ∈ seg, decide (b ≠ slashByte) = true := fun b hb => decide_eq_true (hseg b hb)
  rw [pathSegment, takeWhile_append_of_pos hall, dropWhile_append_of_pos hall]
  rcases hrest.cases with rfl | ⟨t, rfl⟩ <;> simp

theorem mem_segment {s : List UInt8} {b : UInt8} (h : b ∈ pathSegment s) : b ≠ slashByte := by
  have hall : (pathSegment s).all (· ≠ slashByte) = true := all_takeWhile
  simpa using all_eq_true.mp hall b h

theorem literalFrom_segment (hseg : ∀ b ∈ seg, b ≠ slashByte)
    (h : literalFrom true (seg ++ rest) = true) :
    seg.head? ≠ some colonByte ∧ (∀ t, rest = slashByte :: t → literalFrom true t = true) := by
  have hrun : ∀ (b : Bool) (seg : List UInt8), (∀ x ∈ seg, x ≠ slashByte) →
      literalFrom b (seg ++ rest) = true →
      ∀ t, rest = slashByte :: t → literalFrom true t = true := by
    intro b seg
    induction seg generalizing b with
    | nil =>
      intro _ hlit t ht
      rw [nil_append, ht, literalFrom, Bool.and_eq_true] at hlit
      exact hlit.2
    | cons x seg ih =>
      intro hx hlit
      rw [cons_append, literalFrom, Bool.and_eq_true] at hlit
      exact ih _ (fun y hy => hx y (mem_cons_of_mem _ hy)) hlit.2
  refine ⟨?_, hrun true seg hseg h⟩
  cases seg with
  | nil => exact fun hnone => nomatch hnone
  | cons b seg =>
    rw [cons_append, literalFrom, Bool.and_eq_true] at h
    intro hcolon
    obtain rfl : b = colonByte := some.inj hcolon
    exact absurd h.1 (by decide)

/-- A literal beginning of a pattern is the beginning of every path that the pattern matches. It
may not end in a slash where the pattern ends, since the path need not have that slash. -/
theorem matchSegments_beginning {res : List KlHttpParam}
    (hlit : literalFrom true q = true) (hrest : AtBoundary rest)
    (hend : rest = [] → q.getLast? ≠ some slashByte)
    (h : matchSegments fuel (q ++ rest) rp params = some res) :
    ∃ tail, rp = q ++ tail ∧ AtBoundary tail := by
  induction fuel generalizing q rp params with
  | zero => cases h
  | succ fuel ih =>
    unfold matchSegments at h
    -- the first segment of `q`, and where it ends
    obtain ⟨seg, q', hq, hseg, hq'⟩ : ∃ seg q', q = seg ++ q' ∧ (∀ b ∈ seg, b ≠ slashByte) ∧
      AtBoundary q' :=
      ⟨pathSegment q, _, (segment_append q).symm, fun b => mem_segment, boundary_dropWhile q⟩
    have hbound : AtBoundary (q' ++ rest) := by
      rcases hq'.cases with rfl | ⟨t, rfl⟩
      · exact hrest
      · exact .inr rfl
    obtain ⟨hpseg, hpdrop⟩ := takeWhile_boundary hseg hbound
    rw [hq] at hlit
    obtain ⟨hfirst, hlater⟩ := literalFrom_segment hseg hlit
    rw [hq, append_assoc] at h
    split at h
    · rw [hpseg, if_neg hfirst] at h
      split at h
      · next heq =>
        -- the path has the same segment
        obtain ⟨tail, hrp, htail⟩ : ∃ tail, rp = seg ++ tail ∧ AtBoundary tail :=
          ⟨_, (heq ▸ segment_append rp).symm, boundary_dropWhile rp⟩
        have hrdrop : rp.dropWhile (· ≠ slashByte) = tail := by
          rw [hrp]
          exact (takeWhile_boundary hseg htail).2
        unfold afterSegment at h
        rw [hpdrop, hrdrop] at h
        cases q' with
        | nil =>
          refine ⟨tail, ?_, htail⟩
          rw [hrp, hq, append_nil]
        | cons b q'' =>
          obtain rfl : b = slashByte := some.inj (hq'.resolve_left (cons_ne_nil _ _))
          have hend' : rest = [] → q''.getLast? ≠ some slashByte := by
            intro hnil hlast
            refine hend hnil ?_
            rw [hq, getLast?_append, getLast?_cons, hlast]
            rfl
          obtain ⟨tail', htail', hbound'⟩ := ih (hlater q'' rfl) hend' h
          rcases htail.cases with rfl | ⟨t, rfl⟩
          · -- the path ends here, so the pattern does
            obtain ⟨rfl, rfl⟩ := append_eq_nil_iff.mp htail'.symm
            have hnil : rest = [] := by
              cases fuel with
              | zero => cases h
              | succ fuel =>
                unfold matchSegments at h
                by_contra hne
                simp [hne, skipSlash] at h
            refine absurd ?_ (hend hnil)
            rw [hq, getLast?_append]
            rfl
          · rw [skipSlash_slash] at htail'
            refine ⟨tail', ?_, hbound'⟩
            rw [hrp, hq, htail']
            simp
      · cases h
    · next hstop =>
      split at h
      · next hboth =>
        obtain ⟨rfl, hnil⟩ := append_eq_nil_iff.mp hboth.1
        obtain ⟨rfl, rfl⟩ := append_eq_nil_iff.mp hnil
        exact ⟨[], by rw [hboth.2, hq]; rfl, .inl rfl⟩
      · cases h

/-! ## Covering -/

/-- The prefix of a middleware pattern, written as a request path begins: nothing, or a slash and
literal segments. -/
def PathPrefix (q rest : List UInt8) : Prop :=
  q = [] ∨ ∃ q', q = slashByte :: q' ∧ literalFrom true q' = true ∧
    (rest = [] → q'.getLast? ≠ some slashByte)

/-- The middleware is registered for the route: with its method and its pattern, or for any method
with a literal prefix of its pattern. A prefix pattern is written as a request path begins. -/
inductive Covers (mw : KlHttpMiddlewareEntry) (route : KlHttpRoute) : Prop where
  | same (hmethod : mw.method = route.method) (hpattern : mw.pattern = route.pattern)
      (hform : ∀ q, prefixOf mw.pattern = some q → PathPrefix q [slashByte, starByte])
  | under (q rest : List UInt8) (hmethod : mw.method.head? = some starByte)
      (hpattern : mw.pattern = q ++ [slashByte, starByte])
      (hroute : route.pattern = q ++ rest) (hrest : AtBoundary rest) (hform : PathPrefix q rest)

theorem prefixOf_append (q : List UInt8) : prefixOf (q ++ [slashByte, starByte]) = some q := by
  unfold prefixOf
  simp

theorem eq_of_prefixOf (h : prefixOf pattern = some q) : pattern = q ++ [slashByte, starByte] := by
  unfold prefixOf at h
  split at h
  · next hend =>
    obtain rfl := some.inj h
    rw [← hend.2]
    exact (take_append_drop _ _).symm
  · cases h

/-- What the string comparison of a prefix pattern accepts. -/
theorem matchMiddlewarePattern_of_prefix
    (hmethod : methodServes mw.method req.method = true) (hq : prefixOf mw.pattern = some q)
    (hpath : q = [] ∨ ∃ tail, req.path = q ++ tail ∧ AtBoundary tail) :
    matchMiddlewarePattern mw req = true := by
  unfold matchMiddlewarePattern
  rw [hmethod, hq]
  simp only [Bool.not_true, Bool.false_eq_true, if_false]
  rcases hpath with rfl | ⟨tail, hp, htail⟩
  · rfl
  rw [hp]
  split
  · rfl
  · rw [if_neg (by simp), if_neg (by simp)]
    rcases htail.cases with rfl | ⟨t, rfl⟩ <;> simp

/-- A literal prefix of a route pattern begins every path that the route serves. -/
theorem path_of_prefix {path : List UInt8} (hpath : path.head? = some slashByte)
    (h : matchPath pattern path = some params) (hpattern : pattern = q ++ rest)
    (hrest : AtBoundary rest)
    (hform : PathPrefix q rest) : q = [] ∨ ∃ tail, path = q ++ tail ∧ AtBoundary tail := by
  rcases hform with rfl | ⟨q', rfl, hlit, hend⟩
  · exact .inl rfl
  refine .inr ?_
  cases path with
  | nil => cases hpath
  | cons b path =>
    obtain rfl : b = slashByte := some.inj hpath
    rw [hpattern] at h
    unfold matchPath at h
    rw [cons_append, skipSlash_slash, skipSlash_slash] at h
    obtain ⟨tail, htail, hbound⟩ := matchSegments_beginning hlit hrest hend h
    exact ⟨tail, by rw [htail]; rfl, hbound⟩

theorem Covers.matches {route : KlHttpRoute}
    (h : Covers mw route) (hpath : req.path.head? = some slashByte)
    (hmatch : matchPath route.pattern req.path = some params)
    (hmethod : methodServes route.method req.method = true) :
    matchMiddlewarePattern mw req = true := by
  cases h with
  | same hsame hpattern hform =>
    rw [← hsame] at hmethod
    cases hq : prefixOf mw.pattern with
    | none =>
      unfold matchMiddlewarePattern
      rw [hmethod, hq, hpattern, hmatch]
      rfl
    | some q =>
      refine matchMiddlewarePattern_of_prefix hmethod hq ?_
      rw [← hpattern] at hmatch
      exact path_of_prefix hpath hmatch (eq_of_prefixOf hq) (.inr rfl) (hform q hq)
  | under q rest hany hpattern hroute hrest hform =>
    refine matchMiddlewarePattern_of_prefix ?_ (hpattern ▸ prefixOf_append q) ?_
    · unfold methodServes
      simp [hany]
    · exact path_of_prefix hpath hmatch hroute hrest hform

namespace KlHttpRouter

variable {route : KlHttpRoute}

/-- The route that serves a request matches its path and its method. -/
theorem matchFrom_served {pathMatched : Bool} {routes : List KlHttpRoute} {status : Nat}
    {params : List KlHttpParam}
    (h : matchFrom req pathMatched routes = (status, some (route, params))) :
    matchPath route.pattern req.path = some params ∧
      methodServes route.method req.method = true := by
  induction routes generalizing pathMatched with
  | nil => cases h
  | cons r rest ih =>
    unfold matchFrom at h
    split at h
    · exact ih h
    next hmatch =>
    split at h
    · next hmethod =>
      obtain ⟨rfl, rfl⟩ := Prod.mk.inj (some.inj (Prod.mk.inj h).2)
      exact ⟨hmatch, hmethod⟩
    · exact ih h

/-! ## Running -/

/-- Calls of middleware alone. -/
def OnlyMiddleware (calls : List Called) : Prop := ∀ x ∈ calls, ∃ mw, x = .middleware mw

/-- A run calls middleware after the calls made before, and all that is selected when it was not
cut short. -/
theorem runSelected_spec (answer : List Called → Int)
    (entries : List (Bool × KlHttpMiddlewareEntry)) (calls : List Called) :
    (∃ more, (runSelected answer entries calls).1 = calls ++ more ∧ OnlyMiddleware more) ∧
      ((runSelected answer entries calls).2 = 0 →
        ∀ e ∈ entries, e.1 = true → .middleware e.2 ∈ (runSelected answer entries calls).1) := by
  induction entries generalizing calls with
  | nil => exact ⟨⟨[], (append_nil _).symm, fun _ hx => nomatch hx⟩, fun _ e he => nomatch he⟩
  | cons x rest ih =>
    obtain ⟨selected, mw⟩ := x
    unfold runSelected
    split
    · next hsel =>
      simp only
      split
      · next hcut =>
        exact ⟨⟨_, rfl, forall_mem_singleton.mpr ⟨mw, rfl⟩⟩, fun hzero => absurd hzero hcut⟩
      obtain ⟨⟨more, hmore, honly⟩, hall⟩ := ih (calls ++ [.middleware mw])
      refine ⟨⟨.middleware mw :: more, by rw [hmore]; simp, forall_mem_cons.mpr ⟨⟨mw, rfl⟩, honly⟩⟩,
        fun hzero e he hsel => ?_⟩
      rcases mem_cons.mp he with rfl | he
      · rw [hmore]
        simp
      · exact hall hzero e he hsel
    · next hsel =>
      obtain ⟨hmore, hall⟩ := ih calls
      refine ⟨hmore, fun hzero e he hsel' => ?_⟩
      rcases mem_cons.mp he with rfl | he
      · exact absurd hsel' hsel
      · exact hall hzero e he hsel'

theorem runMiddleware_spec (r : KlHttpRouter) (answer : List Called → Int) (req : KlHttpRequest)
    (calls : List Called) :
    (∃ more, (r.runMiddleware answer req calls).1 = calls ++ more ∧ OnlyMiddleware more) ∧
      ((r.runMiddleware answer req calls).2 = 0 → ∀ mw ∈ r.middleware,
        matchMiddlewarePattern mw req = true →
        .middleware mw ∈ (r.runMiddleware answer req calls).1) := by
  obtain ⟨hmore, hall⟩ :=
    runSelected_spec answer (r.middleware.map fun mw => (matchMiddlewarePattern mw req, mw)) calls
  refine ⟨hmore, fun hzero mw hmw hm => ?_⟩
  exact hall hzero _ (mem_map.mpr ⟨mw, hmw, rfl⟩) hm

/-- A bit once set stays set. -/
theorem markMatch_keeps {i : Nat} (l : List (KlHttpMiddlewareEntry × Nat)) (acc : BitVec 64)
    (hacc : acc.getLsbD i = true) : (l.foldl (markMatch req) acc).getLsbD i = true := by
  induction l generalizing acc with
  | nil => exact hacc
  | cons x l ih =>
    refine ih _ ?_
    unfold markMatch
    split
    · rw [BitVec.getLsbD_or, hacc, Bool.true_or]
    · exact hacc

/-- The bit of an entry that matches is set. -/
theorem postMatch_bit {l : List (KlHttpMiddlewareEntry × Nat)} {x : KlHttpMiddlewareEntry × Nat}
    (acc : BitVec 64) (hx : x ∈ l) (hi : x.2 < 64) (hm : matchMiddlewarePattern x.1 req = true) :
    (l.foldl (markMatch req) acc).getLsbD x.2 = true := by
  induction l generalizing acc with
  | nil => cases hx
  | cons y rest ih =>
    rcases mem_cons.mp hx with rfl | hx
    · refine markMatch_keeps rest _ ?_
      have hbit : (1#64 <<< x.2).getLsbD x.2 = true := by simp [hi]
      unfold markMatch
      rw [if_pos hm, BitVec.getLsbD_or, hbit, Bool.or_true]
    · exact ih _ hx

theorem runPostMiddleware_spec (r : KlHttpRouter) (answer : List Called → Int) (req : KlHttpRequest)
    (calls : List Called) :
    (∃ more, (r.runPostMiddleware answer req calls).1 = calls ++ more ∧ OnlyMiddleware more) ∧
      ((r.runPostMiddleware answer req calls).2 = 0 → ∀ mw ∈ r.postMiddleware,
        matchMiddlewarePattern mw req = true →
        .middleware mw ∈ (r.runPostMiddleware answer req calls).1) := by
  obtain ⟨hmore, hall⟩ := runSelected_spec answer
    (r.postMiddleware.zipIdx.map fun x => ((r.postMatch req).getLsbD x.2, x.1)) calls
  refine ⟨hmore, fun hzero mw hmw hm => ?_⟩
  obtain ⟨i, hi, rfl⟩ := mem_iff_getElem.mp hmw
  have hmem : (r.postMiddleware[i], i) ∈ r.postMiddleware.zipIdx :=
    mk_mem_zipIdx_iff_getElem?.mpr (getElem?_eq_getElem hi)
  have hlt : i < 64 := Nat.lt_of_lt_of_le hi r.postBound
  exact hall hzero (_, r.postMiddleware[i]) (mem_map.mpr ⟨_, hmem, rfl⟩)
    (postMatch_bit 0#64 hmem hlt hm)

theorem OnlyMiddleware.no_handler {calls : List Called} (h : OnlyMiddleware calls)
    (route : KlHttpRoute) : .handler route ∉ calls := by
  intro hin
  obtain ⟨mw, hmw⟩ := h _ hin
  cases hmw

/-- Where a handler is called, every matching middleware was called before. -/
theorem dispatch_handler {r : KlHttpRouter} {answer : List Called → Int}
    (h : .handler route ∈ (r.dispatchSynthetic answer req true).1) :
    ∃ calls, (r.dispatchSynthetic answer req true).1 = calls ++ [.handler route] ∧
      ∀ mw ∈ r.middleware ++ r.postMiddleware, matchMiddlewarePattern mw req = true →
      .middleware mw ∈ calls := by
  obtain ⟨⟨pre, hpre, hpreOnly⟩, hpreAll⟩ := r.runMiddleware_spec answer req []
  obtain ⟨⟨post, hpost, hpostOnly⟩, hpostAll⟩ :=
    r.runPostMiddleware_spec answer req (r.runMiddleware answer req []).1
  have hprenone : .handler route ∉ (r.runMiddleware answer req []).1 := by
    rw [hpre]
    exact hpreOnly.no_handler route
  have hpostnone : .handler route ∉ (r.runPostMiddleware answer req
      (r.runMiddleware answer req []).1).1 := by
    rw [hpost, mem_append]
    exact fun hin => hin.elim hprenone (hpostOnly.no_handler route)
  unfold dispatchSynthetic at h ⊢
  simp only [if_true] at h ⊢
  split at h
  · exact absurd h hprenone
  rename_i hzero
  rw [if_neg hzero]
  split at h
  · exact absurd h hpostnone
  rename_i hzero'
  rw [if_neg hzero']
  split at h
  · next served _ _ =>
    obtain rfl : route = served := by
      rcases mem_append.mp h with hin | hin
      · exact absurd hin hpostnone
      · exact Called.handler.inj (mem_singleton.mp hin)
    refine ⟨_, rfl, fun mw hmw hm => ?_⟩
    rcases mem_append.mp hmw with hmw | hmw
    · rw [hpost]
      exact mem_append_left _ (hpreAll (not_not.mp hzero) mw hmw hm)
    · exact hpostAll (not_not.mp hzero') mw hmw hm
  · exact absurd h hpostnone

/-- For a request that a route serves, every middleware registered for the route matches, and
`kl_http_router_dispatch_synthetic` calls the handler only after all of them. -/
theorem middleware_covers {r : KlHttpRouter} {req : KlHttpRequest} {route : KlHttpRoute}
    {params : List KlHttpParam}
    (hpath : req.path.head? = some slashByte)
    (hserved : r.routerMatch req = (200, some (route, params))) :
    ∀ mw ∈ r.middleware ++ r.postMiddleware, Covers mw route →
      matchMiddlewarePattern mw req = true ∧
        ∀ answer, .handler route ∈ (r.dispatchSynthetic answer req true).1 →
          ∃ calls, (r.dispatchSynthetic answer req true).1 = calls ++ [.handler route] ∧
          .middleware mw ∈ calls := by
  intro mw hmw hcovers
  obtain ⟨hmatch, hmethod⟩ := matchFrom_served hserved
  have hm := hcovers.matches hpath hmatch hmethod
  refine ⟨hm, fun answer hcalled => ?_⟩
  obtain ⟨calls, hcalls, hall⟩ := dispatch_handler hcalled
  exact ⟨calls, hcalls, hall mw hmw hm⟩

/-- HEAD of a path with a parameter, with a middleware for GET of the same pattern and one for the
prefix. -/
theorem middleware_covers_head : let route : KlHttpRoute := ⟨methodGet, ascii "/users/:id", 1⟩
    let exact : KlHttpMiddlewareEntry := ⟨methodGet, ascii "/users/:id", 2⟩
    let under : KlHttpMiddlewareEntry := ⟨ascii "*", ascii "/users/*", 3⟩
    let r : KlHttpRouter := ⟨[route], [exact], [under], by decide⟩
    let req : KlHttpRequest := ⟨methodHead, ascii "/users/7/"⟩
    (r.routerMatch req).1 = 200 ∧ matchMiddlewarePattern exact req = true ∧
      matchMiddlewarePattern under req = true := by
  intro route exact under r req
  have hserved : r.routerMatch req = (200, some (route, [⟨ascii "id", ascii "7"⟩])) := by decide
  have hexact : prefixOf exact.pattern = none := by decide
  have hsame : Covers exact route := .same rfl rfl fun q hq => nomatch hexact.symm.trans hq
  have hunder : Covers under route :=
    .under (ascii "/users") (ascii "/:id") (by decide) (by decide) (by decide) (.inr (by decide))
      (.inr ⟨ascii "users", by decide, by decide, fun hnil => absurd hnil (by decide)⟩)
  exact ⟨congrArg Prod.fst hserved, (middleware_covers rfl hserved exact (by decide) hsame).1,
    (middleware_covers rfl hserved under (by decide) hunder).1⟩

/-- Served requests that the middleware of their route misses: a pattern with a parameter before
its slash-star, a prefix without the leading slash, and a prefix that ends in a slash. -/
theorem uncovered_patterns :
    ((routerMatch ⟨[⟨methodGet, ascii "/:x/*", 1⟩], [], [], by decide⟩ ⟨methodGet,
      ascii "/foo/*"⟩).1 = 200 ∧
      matchMiddlewarePattern ⟨methodGet, ascii "/:x/*", 2⟩ ⟨methodGet, ascii "/foo/*"⟩ = false) ∧
    ((routerMatch ⟨[⟨methodGet, ascii "admin/users", 1⟩], [], [], by decide⟩ ⟨methodGet,
      ascii "/admin/users"⟩).1 = 200 ∧
      matchMiddlewarePattern ⟨ascii "*", ascii "admin/*", 2⟩ ⟨methodGet, ascii "/admin/users"⟩ =
      false) ∧
    (routerMatch ⟨[⟨methodGet, ascii "/a/", 1⟩], [], [], by decide⟩ ⟨methodGet, ascii "/a"⟩).1 =
    200 ∧
      matchMiddlewarePattern ⟨ascii "*", ascii "/a//*", 2⟩ ⟨methodGet, ascii "/a"⟩ = false := by
  decide

end KlHttpRouter

/-! ## The answer of the matcher -/

/-- The segments of a pattern or of a path: what stands between the slashes, without the empty
piece after a slash at the end. -/
def segments : List (List UInt8) :=
  let pieces := s.splitOnP (· = slashByte)
  if pieces.getLast? = some [] then pieces.dropLast else pieces

def isParam (seg : List UInt8) : Bool := seg.head? = some colonByte

/-- As many segments, each a parameter or the same. -/
def segmentsMatch (ps ss : List (List UInt8)) : Bool :=
  ps.length == ss.length && (ps.zip ss).all fun x => isParam x.1 || x.1 == x.2

/-- The segments of a path at the parameters of a pattern. -/
def captured (ps ss : List (List UInt8)) : List KlHttpParam :=
  (ps.zip ss).filterMap fun x => if isParam x.1 then some ⟨x.1.tail, x.2⟩ else none

/-- One slash at the start of either side is skipped. -/
def patternMatches (pattern path : List UInt8) : Bool :=
  segmentsMatch (segments (skipSlash pattern)) (segments (skipSlash path))

def captures (pattern path : List UInt8) : List KlHttpParam :=
  captured (segments (skipSlash pattern)) (segments (skipSlash path))

/-- A segment goes up to the end or up to a slash. -/
theorem segment_cases :
    (pathSegment s = s ∧ afterSegment s = []) ∨
      pathSegment s ++ slashByte :: afterSegment s = s := by
  have happ := segment_append s
  have hbound := boundary_dropWhile s
  unfold afterSegment
  generalize s.dropWhile (· ≠ slashByte) = rest at happ hbound
  rcases hbound.cases with rfl | ⟨t, rfl⟩
  · exact .inl ⟨by rwa [append_nil] at happ, rfl⟩
  · exact .inr happ

theorem segments_cons {s : List UInt8} (hs : s ≠ []) :
    segments s = pathSegment s :: segments (afterSegment s) := by
  have hseg : ∀ b ∈ pathSegment s, decide (b = slashByte) = false := fun b hb =>
    by simpa using mem_segment hb
  rcases segment_cases s with ⟨hall, hnil⟩ | hsplit
  · rw [hall] at hseg ⊢
    rw [hnil]
    simp [segments, splitOnP_eq_singleton hseg, hs]
  · have hne := splitOnP_ne_nil (fun b => decide (b = slashByte)) (afterSegment s)
    have hpieces := splitOnP_append_cons_of_forall_mem hseg slashByte (by simp) (afterSegment s)
    rw [hsplit] at hpieces
    simp only [segments, hpieces, getLast?_cons_of_ne_nil hne, dropLast_cons_of_ne_nil hne]
    split <;> rfl

theorem segments_eq_nil {s : List UInt8} : segments s = [] ↔ s = [] := by
  refine ⟨fun h => ?_, by rintro rfl; rfl⟩
  by_contra hs
  rw [segments_cons hs] at h
  cases h

theorem length_afterSegment {s : List UInt8} (hs : s ≠ []) :
    (afterSegment s).length < s.length := by
  rcases segment_cases s with ⟨-, hnil⟩ | hsplit
  · rw [hnil]
    exact length_pos_iff.mpr hs
  · have := congrArg length hsplit
    rw [length_append, length_cons] at this
    omega

@[simp] theorem segmentsMatch_cons (p s : List UInt8) (ps ss : List (List UInt8)) :
    segmentsMatch (p :: ps) (s :: ss) = ((isParam p || p == s) && segmentsMatch ps ss) := by
  simp [segmentsMatch, Bool.and_left_comm]

@[simp] theorem captured_cons (p s : List UInt8) (ps ss : List (List UInt8)) :
    captured (p :: ps) (s :: ss) = (if isParam p then [⟨p.tail, s⟩] else []) ++ captured ps ss := by
  cases h : isParam p <;> simp [captured, h]

/-- The loop compares the segments one by one. -/
theorem matchSegments_spec {pp : List UInt8} (hfuel : pp.length < fuel)
    (hparams : params.length ≤ KL_HTTP_ROUTER_MAX_PARAMS) :
    matchSegments fuel pp rp params = if segmentsMatch (segments pp) (segments rp) then
        some ((params ++ captured (segments pp) (segments rp)).take KL_HTTP_ROUTER_MAX_PARAMS)
      else none := by
  induction fuel generalizing pp rp params with
  | zero => cases hfuel
  | succ fuel ih =>
    unfold matchSegments
    by_cases hboth : pp ≠ [] ∧ rp ≠ []
    · obtain ⟨hpp, hrp⟩ := hboth
      have hshort : (afterSegment pp).length < fuel :=
        Nat.lt_of_lt_of_le (length_afterSegment hpp) (Nat.le_of_lt_succ hfuel)
      rw [if_pos ⟨hpp, hrp⟩, segments_cons hpp, segments_cons hrp]
      by_cases hcolon : (pathSegment pp).head? = some colonByte
      · have hparam : isParam (pathSegment pp) = true := decide_eq_true hcolon
        rw [if_pos hcolon, segmentsMatch_cons, captured_cons, hparam, Bool.true_or, Bool.true_and,
          if_pos rfl]
        split
        · next hroom =>
          rw [ih hshort (by rw [length_append]; exact hroom), append_assoc]
        next hroom =>
        -- the table is full, and stays as it is
        rw [ih hshort hparams, take_append_of_le_length (Nat.not_lt.mp hroom),
          take_append_of_le_length (Nat.not_lt.mp hroom)]
      · have hparam : isParam (pathSegment pp) = false := decide_eq_false hcolon
        rw [if_neg hcolon, segmentsMatch_cons, captured_cons, hparam, Bool.false_or,
          if_neg Bool.false_ne_true, nil_append]
        by_cases heq : pathSegment pp = pathSegment rp
        · rw [if_pos heq, ih hshort hparams, beq_iff_eq.mpr heq, Bool.true_and]
        · rw [if_neg heq, beq_eq_false_iff_ne.mpr heq, Bool.false_and, if_neg Bool.false_ne_true]
    · -- one side has ended, so both have to
      by_cases hpp : pp = []
      · subst hpp
        cases rp with
        | nil => simp [segmentsMatch, captured, segments, take_of_length_le hparams]
        | cons b rp => simp [segments_cons (cons_ne_nil b rp), segments_eq_nil.mpr, segmentsMatch]
      · obtain rfl : rp = [] := by simpa [hpp] using hboth
        simp [segments_cons hpp, segments_eq_nil.mpr, segmentsMatch, hpp]

theorem matchPath_spec (pattern path : List UInt8) : matchPath pattern path =
      if patternMatches pattern path then
        some ((captures pattern path).take KL_HTTP_ROUTER_MAX_PARAMS)
      else none := by
  refine matchSegments_spec (Nat.lt_succ_of_le ?_) (Nat.zero_le _)
  cases pattern with
  | nil => exact Nat.le_refl _
  | cons b s =>
    rw [skipSlash]
    split <;> simp

/-- A segment has no slash in it. -/
theorem slash_not_mem_segments {s : List UInt8} (h : seg ∈ segments s) : slashByte ∉ seg := by
  induction hn : s.length using Nat.strong_induction_on generalizing s with
  | _ n ih =>
    by_cases hs : s = []
    · rw [segments_eq_nil.mpr hs] at h
      cases h
    rw [segments_cons hs] at h
    rcases mem_cons.mp h with rfl | h
    · exact fun hin => mem_segment hin rfl
    · exact ih _ (hn ▸ length_afterSegment hs) h rfl

theorem value_mem_segments {ps ss : List (List UInt8)} {p : KlHttpParam} (h : p ∈ captured ps ss) :
    p.value ∈ ss := by
  obtain ⟨x, hx, hsome⟩ := mem_filterMap.mp h
  split at hsome
  · obtain rfl := some.inj hsome
    exact (of_mem_zip hx).2
  · cases hsome

namespace KlHttpRouter

/-- The first route whose pattern and method fit. -/
def served (r : KlHttpRouter) (req : KlHttpRequest) : Option KlHttpRoute :=
  r.routes.find? fun route =>
    patternMatches route.pattern req.path && methodServes route.method req.method

theorem matchFrom_spec (req : KlHttpRequest) (pathMatched : Bool) (routes : List KlHttpRoute) :
    matchFrom req pathMatched routes =
      match routes.find? fun route =>
      patternMatches route.pattern req.path && methodServes route.method req.method with
      | some route =>
        (200, some (route, (captures route.pattern req.path).take KL_HTTP_ROUTER_MAX_PARAMS))
      | none =>
        (if pathMatched || routes.any fun route => patternMatches route.pattern req.path then 405
          else 404, none) := by
  induction routes generalizing pathMatched with
  | nil => simp [matchFrom]
  | cons route rest ih =>
    unfold matchFrom
    rw [matchPath_spec]
    by_cases hpath : patternMatches route.pattern req.path
    · by_cases hmethod : methodServes route.method req.method
      · simp [hpath, hmethod]
      · simp [hpath, hmethod, ih]
    · simp [hpath, ih]

/-- The first route whose pattern and method fit serves the request, with the segments of the path
at the first sixteen parameters of its pattern. Otherwise the status says whether some pattern fits.
A value has no slash in it, and is empty only where the path has an empty segment. -/
theorem router_match (r : KlHttpRouter) (req : KlHttpRequest) : r.routerMatch req =
      (match r.served req with
      | some route =>
        (200, some (route, (captures route.pattern req.path).take KL_HTTP_ROUTER_MAX_PARAMS))
      | none =>
        (if r.routes.any fun route => patternMatches route.pattern req.path then 405 else 404,
          none)) ∧
    ∀ route params, r.routerMatch req = (200, some (route, params)) →
      ∀ p ∈ params, slashByte ∉ p.value ∧ ([] ∉ segments (skipSlash req.path) → p.value ≠ []) := by
  refine ⟨matchFrom_spec req false r.routes, fun route params hserved p hp => ?_⟩
  obtain ⟨hmatch, -⟩ := matchFrom_served hserved
  rw [matchPath_spec] at hmatch
  split at hmatch
  · obtain rfl := some.inj hmatch
    have hvalue := value_mem_segments (mem_of_mem_take hp)
    exact ⟨slash_not_mem_segments hvalue, fun hnone hnil => hnone (hnil ▸ hvalue)⟩
  · cases hmatch

/-- HEAD is served by the second route, with the last segment of the path. -/
theorem router_match_head :
    let route : KlHttpRoute := ⟨methodGet, ascii "/users/:id", 2⟩
    let r : KlHttpRouter := ⟨[⟨ascii "PUT", ascii "/users/:id", 1⟩, route], [], [], by decide⟩
    let req : KlHttpRequest := ⟨methodHead, ascii "/users/7/"⟩
    r.routerMatch req = (200, some (route, [⟨ascii "id", ascii "7"⟩])) ∧
      slashByte ∉ ascii "7" := by
  intro route r req
  have hserved := (router_match r req).1.trans
    (show _ = (200, some (route, [⟨ascii "id", ascii "7"⟩])) by decide +kernel)
  exact ⟨hserved, ((router_match r req).2 route _ hserved _ mem_cons_self).1⟩

/-- A parameter takes an empty segment, and of seventeen parameters the last is not captured. -/
theorem empty_and_lost_param :
    routerMatch ⟨[⟨methodGet, ascii "/a/:id/b", 1⟩], [], [], by decide⟩ ⟨methodGet, ascii "/a//b"⟩ =
      (200, some (⟨methodGet, ascii "/a/:id/b", 1⟩, [⟨ascii "id", []⟩])) ∧
    ((routerMatch
      ⟨[⟨methodGet, ascii "/:a/:b/:c/:d/:e/:f/:g/:h/:i/:j/:k/:l/:m/:n/:o/:p/:q", 1⟩], [], [],
        by decide⟩
      ⟨methodGet, ascii "/A/B/C/D/E/F/G/H/I/J/K/L/M/N/O/P/Q"⟩).2.map fun x =>
        x.2.map KlHttpParam.value) = some ((ascii "ABCDEFGHIJKLMNOP").map ([·])) := by
  decide +kernel

end KlHttpRouter
