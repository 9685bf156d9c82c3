-- SUMMARY: Requests of the caching resolver.
import Keel.Reentrant.Machine
import Keel.Resolver.Cache

/-!
# Requests of the caching resolver

A request is a heap object that three frames may hold: `cache_resolve` while it asks the
inner resolver, `inner_done_fn` while the caller's callback runs, and the caller. Each
stretch of code works on one request. The invariant says, for each request on its own, which
of its frames are on the stack, which of its flags are set and what has happened to it.
-/

open Reentrant List

structure KlResCacheReq where
  host : List UInt8
  port : Int
  innerReq : Option Nat := none
  inResolve : Bool := false
  completed : Bool := false
  inUserDone : Bool := false
  cancelDeferred : Bool := false
deriving DecidableEq, Repr

/-- What happens to the request `r`. -/
inductive ReqEvent (ρ : Type) where
  /-- The inner resolver is asked. -/
  | started (r : Nat)
  /-- The inner resolver could not start. -/
  | refused (r : Nat)
  /-- The caller gets the handle. -/
  | returned (r : Nat)
  /-- The inner resolver reports its result. -/
  | innerDone (r : Nat)
  /-- The caller's callback is called. -/
  | done (r : Nat) (result : Option ρ) (error : Int)
  /-- The caller cancels. -/
  | cancelled (r : Nat)
  | innerCancelled (r : Nat)
  | freed (r : Nat)
deriving DecidableEq, Repr

def ReqEvent.req {ρ : Type} : ReqEvent ρ → Nat
  | .started r => r
  | .refused r => r
  | .returned r => r
  | .innerDone r => r
  | .done r _ _ => r
  | .cancelled r => r
  | .innerCancelled r => r
  | .freed r => r

def ReqEvent.isDone {ρ : Type} : ReqEvent ρ → Bool
  | .done _ _ _ => true
  | _ => false

/-- A hook that has not returned, with the request of the frame that called it. -/
inductive Waiting where
  /-- The callback, called for a cached result. -/
  | hitDone (r : Nat)
  | innerResolve (r : Nat)
  /-- The callback, called for a result of the inner resolver. -/
  | innerDone (r : Nat) (wasSync : Bool)
  | innerCancel (r : Nat)
deriving DecidableEq, Repr

def Waiting.req : Waiting → Nat
  | .hitDone r => r
  | .innerResolve r => r
  | .innerDone r _ => r
  | .innerCancel r => r

/-- The caller's callback. -/
def Waiting.isUserDone : Waiting → Bool
  | .hitDone _ => true
  | .innerDone _ _ => true
  | _ => false

/-- Request objects by address; `fault` records an access to one that does not exist. -/
structure CacheResolver (ρ : Type) where
  cache : KlResolverCache ρ
  reqs : Nat → Option KlResCacheReq := fun _ => none
  next : Nat := 0
  log : List (ReqEvent ρ) := []
  fault : Bool := false

inductive ResolveOp (ρ : Type) where
  /-- `room` is the answer of the allocator. -/
  | resolve (now : Nat) (host : List UInt8) (port : Int) (room : Bool)
  | cancel (r : Nat)
  /-- The inner resolver calls `inner_done_fn`. -/
  | innerDone (now r : Nat) (result : Option ρ) (error : Int)
  | clear
deriving DecidableEq, Repr

namespace CacheResolver

variable {ρ : Type} {f : Waiting} {fr : List Waiting} {log : List (ReqEvent ρ)}
  (s : CacheResolver ρ) (r : Nat)

/-- The request `r` becomes `o`, and `evs` happens to it. -/
def put (o : Option KlResCacheReq) (evs : List (ReqEvent ρ)) : CacheResolver ρ :=
  { s with reqs := fun i => if i = r then o else s.reqs i, log := s.log ++ evs }

abbrev ResolveOut (ρ : Type) := Out (CacheResolver ρ) Waiting (Option Nat)

/-- Run code that reads the request `r`. -/
def withReq (k : KlResCacheReq → ResolveOut ρ) : ResolveOut ρ :=
  match s.reqs r with
  | none => .done { s with fault := true } none
  | some cr => k cr

def cacheResolve (now : Nat) (host : List UInt8) (port : Int) (room : Bool) : ResolveOut ρ :=
  if host.length = 0 ∨ KL_RESOLVER_CACHE_HOSTNAME_MAX ≤ host.length then .done s none
  else if !room then .done s none
  else
    let r := s.next
    let cr : KlResCacheReq := { host, port, inResolve := true }
    match s.cache.cacheLookup now host port with
    | (cache, some cached) =>
      .call ({ s with next := r + 1, cache }.put r (some { cr with inUserDone := true,
                                                                   completed := true })
        [.done r (some cached) 0]) (.hitDone r)
    | (cache, none) => .call ({ s with next := r + 1, cache }.put r (some cr) [.started r])
      (.innerResolve r)

def innerDoneFn (now r : Nat) (result : Option ρ) (error : Int) : ResolveOut ρ :=
  s.withReq r fun cr =>
    let cache := match result with
      | some res => if error = 0 then s.cache.cacheInsert now cr.host cr.port res else s.cache
      | none => s.cache
    .call ({ s with cache }.put r (some { cr with completed := true, inUserDone := true })
      [.innerDone r, .done r result error])
      (.innerDone r cr.inResolve)

def cacheCancel : ResolveOut ρ :=
  s.withReq r fun cr =>
    if cr.inUserDone then
      .done (s.put r (some { cr with cancelDeferred := true }) [.cancelled r]) none
    else if cr.innerReq.isSome ∧ ¬cr.completed then
      .call (s.put r (some cr) [.cancelled r, .innerCancelled r]) (.innerCancel r)
    else .done (s.put r none [.cancelled r, .freed r]) none

/-- What a hook returns to. `v` is the handle of the inner resolver. -/
def resume : Waiting → Option Nat → ResolveOut ρ
  | .hitDone r, _ => s.withReq r fun _ => .done (s.put r none [.freed r]) none
  | .innerResolve r, v =>
    s.withReq r fun cr =>
      if cr.completed then .done (s.put r none [.freed r]) none
      else
        match v with
        | none => .done (s.put r none [.refused r, .freed r]) none
        | some h => .done (s.put r (some { cr with inResolve := false, innerReq := some h })
          [.returned r]) (some r)
  | .innerDone r wasSync, _ =>
    s.withReq r fun cr =>
      if wasSync then .done (s.put r (some { cr with inUserDone := false }) []) none
      else .done (s.put r none [.freed r]) none
  | .innerCancel r, _ => s.withReq r fun _ => .done (s.put r none [.freed r]) none

def machine : Machine (CacheResolver ρ) (ResolveOp ρ) Waiting (Option Nat) (Option Nat) where
  enter op s := match op with
    | .resolve now host port room => s.cacheResolve now host port room
    | .cancel r => s.cacheCancel r
    | .innerDone now r result error => s.innerDoneFn now r result error
    | .clear => .done { s with cache := s.cache.clear } none
  resume f v s := s.resume f v

/-- Callers cancel a request inside its callback, or with a handle that they were given and
before its callback was called. The inner resolver reports a result once for each request it
was asked, unless that request was cancelled or could not start. -/
def Lawful (c : Config (CacheResolver ρ) (ResolveOp ρ) Waiting (Option Nat) (Option Nat)) :
    Act (ResolveOp ρ) (Option Nat) → Prop
  | .call (.cancel r) =>
    (∃ f ∈ c.stack, f.req = r ∧ f.isUserDone = true) ∨
      (.returned r ∈ c.state.log ∧ (∀ ev ∈ c.state.log, ev.isDone = true → ev.req ≠ r) ∧
        .cancelled r ∉ c.state.log)
  | .call (.innerDone _ r _ _) =>
    .started r ∈ c.state.log ∧ .innerDone r ∉ c.state.log ∧ .innerCancelled r ∉ c.state.log ∧
    .refused r ∉ c.state.log
  | .call (.resolve _ _ _ _) => True
  | .call .clear => True
  | .ret _ => True

instance [DecidableEq ρ]
    (c : Config (CacheResolver ρ) (ResolveOp ρ) Waiting (Option Nat) (Option Nat))
    (a : Act (ResolveOp ρ) (Option Nat)) : Decidable (Lawful c a) := by
  unfold Lawful
  split <;> exact inferInstance

/-! ## One request -/

/-- What happened to `r`, and the hooks of `r` that have not returned. -/
def logOf (log : List (ReqEvent ρ)) : List (ReqEvent ρ) := log.filter (·.req == r)
def framesOf (stack : List Waiting) : List Waiting := stack.filter (·.req == r)

/-- The history of a request, once it is freed. -/
inductive Over (r : Nat) : List (ReqEvent ρ) → Prop where
  | hit (res : Option ρ) (err : Int) (n : Nat) :
      Over r (.done r res err :: (List.replicate n (.cancelled r) ++ [.freed r]))
  | synced (res : Option ρ) (err : Int) (n : Nat) :
      Over r (.started r :: .innerDone r :: .done r res err ::
        (List.replicate n (.cancelled r) ++ [.freed r]))
  | refused : Over r [.started r, .refused r, .freed r]
  | completed (res : Option ρ) (err : Int) (n : Nat) :
      Over r (.started r :: .returned r :: .innerDone r :: .done r res err ::
        (List.replicate n (.cancelled r) ++ [.freed r]))
  | cancelled : Over r [.started r, .returned r, .cancelled r, .innerCancelled r, .freed r]

/-- The object, the open hooks and the history of one request. A request may be cancelled any
number of times inside its callback. -/
inductive Phase (r : Nat) : Option KlResCacheReq → List Waiting → List (ReqEvent ρ) → Prop where
  | unborn : Phase r none [] []
  | hit (cr : KlResCacheReq) (res : Option ρ) (err : Int) (n : Nat) (hdone : cr.inUserDone = true) :
      Phase r (some cr) [.hitDone r] (.done r res err :: List.replicate n (.cancelled r))
  | starting (cr : KlResCacheReq) (hin : cr.inResolve = true) (hopen : cr.completed = false)
      (hdone : cr.inUserDone = false) :
      Phase r (some cr) [.innerResolve r] [.started r]
  | syncDone (cr : KlResCacheReq) (res : Option ρ) (err : Int) (n : Nat)
      (hdone : cr.inUserDone = true)
      (hover : cr.completed = true) :
      Phase r (some cr) [.innerDone r true, .innerResolve r]
        (.started r :: .innerDone r :: .done r res err :: List.replicate n (.cancelled r))
  | synced (cr : KlResCacheReq) (res : Option ρ) (err : Int) (n : Nat)
      (hover : cr.completed = true) : Phase r (some cr) [.innerResolve r]
        (.started r :: .innerDone r :: .done r res err :: List.replicate n (.cancelled r))
  | pending (cr : KlResCacheReq) (hin : cr.inResolve = false) (hopen : cr.completed = false)
      (hdone : cr.inUserDone = false) (hinner : cr.innerReq.isSome = true) :
      Phase r (some cr) [] [.started r, .returned r]
  | asyncDone (cr : KlResCacheReq) (res : Option ρ) (err : Int) (n : Nat)
      (hdone : cr.inUserDone = true) : Phase r (some cr) [.innerDone r false]
        (.started r :: .returned r :: .innerDone r :: .done r res err :: List.replicate n
          (.cancelled r))
  | cancelling (cr : KlResCacheReq) :
      Phase r (some cr) [.innerCancel r] [.started r, .returned r, .cancelled r, .innerCancelled r]
  | ended (evs : List (ReqEvent ρ)) (h : Over r evs) : Phase r none [] evs

structure Inv (s : CacheResolver ρ) (stack : List Waiting) : Prop where
  safe : s.fault = false
  phase : ∀ r, Phase r (s.reqs r) (framesOf r stack) (logOf r s.log)
  fresh : ∀ r, s.next ≤ r → s.reqs r = none ∧ framesOf r stack = [] ∧ logOf r s.log = []
  born : ∀ r, r < s.next → logOf r s.log ≠ []

variable {s : CacheResolver ρ} {stack stack' : List Waiting} {r : Nat} {o : Option KlResCacheReq}
  {evs : List (ReqEvent ρ)}

theorem logOf_append (r : Nat) (log evs : List (ReqEvent ρ)) :
    logOf r (log ++ evs) = logOf r log ++ logOf r evs :=
  filter_append _ _

theorem logOf_all (h : ∀ ev ∈ evs, ev.req = r) : logOf r evs = evs :=
  filter_eq_self.mpr fun ev hev => beq_iff_eq.mpr (h ev hev)

theorem logOf_none {i : Nat} (h : ∀ ev ∈ evs, ev.req = r) (hi : i ≠ r) : logOf i evs = [] :=
  filter_eq_nil_iff.mpr fun ev hev => by
    rw [h ev hev, beq_iff_eq]
    exact Ne.symm hi

theorem framesOf_self (h : f.req = r) : framesOf r (f :: stack) = f :: framesOf r stack :=
  filter_cons_of_pos (beq_iff_eq.mpr h)

theorem framesOf_other {i : Nat} (h : f.req = r) (hi : i ≠ r) :
    framesOf i (f :: stack) = framesOf i stack := by
  refine filter_cons_of_neg ?_
  rw [h, beq_iff_eq]
  exact Ne.symm hi

section

variable (h : Inv s stack) (hevs : ∀ ev ∈ evs, ev.req = r)
include h hevs

/-- Code that works on `r` alone, which may be a new request. -/
theorem Inv.put {next : Nat} (hr : r < next)
    (hnext : ∀ i, i < next ↔ i < s.next ∨ i = r)
    (hstack : ∀ i, i ≠ r → framesOf i stack' = framesOf i stack)
    (hborn : logOf r s.log ++ evs ≠ [])
    (hphase : Phase r o (framesOf r stack') (logOf r s.log ++ evs)) :
    Inv { s.put r o evs with next } stack' where
  safe := h.safe
  phase i := by
    by_cases hi : i = r
    · subst hi
      simp only [CacheResolver.put, if_true, logOf_append, logOf_all hevs]
      exact hphase
    · simp only [CacheResolver.put, if_neg hi, logOf_append, logOf_none hevs hi, append_nil,
        hstack i hi]
      exact h.phase i
  fresh i hi := by
    have hne : i ≠ r := fun heq => absurd (heq ▸ hr) (Nat.not_lt.mpr hi)
    have hold : s.next ≤ i :=
      Nat.le_of_not_lt fun hlt => absurd ((hnext i).mpr (.inl hlt)) (Nat.not_lt.mpr hi)
    simp only [CacheResolver.put, if_neg hne, logOf_append, logOf_none hevs hne, append_nil,
      hstack i hne]
    exact h.fresh i hold
  born i hi := by
    by_cases heq : i = r
    · subst heq
      simp only [CacheResolver.put, logOf_append, logOf_all hevs]
      exact hborn
    · simp only [CacheResolver.put, logOf_append, logOf_none hevs heq, append_nil]
      exact h.born i (((hnext i).mp hi).resolve_right heq)

/-- Code that works on a request that exists. -/
theorem Inv.put_old (hr : r < s.next)
    (hstack : ∀ i, i ≠ r → framesOf i stack' = framesOf i stack)
    (hphase : Phase r o (framesOf r stack') (logOf r s.log ++ evs)) : Inv (s.put r o evs) stack' :=
  h.put hevs hr (fun _ => ⟨.inl, fun hi => hi.elim id (· ▸ hr)⟩) hstack
    (fun hnil => h.born r hr (append_eq_nil_iff.mp hnil).1) hphase

theorem Inv.stay (hr : r < s.next)
    (hphase : Phase r o (framesOf r stack) (logOf r s.log ++ evs)) : Inv (s.put r o evs) stack :=
  h.put_old hevs hr (fun _ _ => rfl) hphase

end

/-- A hook is called. -/
theorem Inv.push (h : Inv s stack) (hf : f.req = r) (hevs : ∀ ev ∈ evs, ev.req = r)
    (hr : r < s.next)
    (hphase : Phase r o (f :: framesOf r stack) (logOf r s.log ++ evs)) :
    Inv (s.put r o evs) (f :: stack) :=
  h.put_old hevs hr (fun _ hi => framesOf_other hf hi) (framesOf_self hf ▸ hphase)

/-- A hook returns. -/
theorem Inv.pop (h : Inv s (f :: stack)) (hf : f.req = r) (hevs : ∀ ev ∈ evs, ev.req = r)
    (hr : r < s.next)
    (hphase : Phase r o (framesOf r stack) (logOf r s.log ++ evs)) : Inv (s.put r o evs) stack :=
  h.put_old hevs hr (fun _ hi => (framesOf_other hf hi).symm) hphase

/-- The cache takes no part in the life of a request. -/
theorem Inv.cache (h : Inv s stack) (cache : KlResolverCache ρ) : Inv { s with cache } stack :=
  ⟨h.safe, h.phase, h.fresh, h.born⟩

variable {ev : ReqEvent ρ} {cr : KlResCacheReq}
  {tr : List (Step (CacheResolver ρ) (ResolveOp ρ) Waiting (Option Nat) (Option Nat))}

/-- A new object, and the first hook called for it. -/
theorem Inv.malloc (h : Inv s stack) (hf : f.req = s.next) (hev : ev.req = s.next)
    (hphase : Phase s.next o [f] [ev]) :
    Inv { s.put s.next o [ev] with next := s.next + 1 } (f :: stack) := by
  obtain ⟨-, hframes, hlog⟩ := h.fresh s.next (Nat.le_refl _)
  refine h.put (forall_mem_singleton.mpr hev) (Nat.lt_succ_self _) (fun i =>
    Nat.lt_succ_iff_lt_or_eq)
    (fun _ hi => framesOf_other hf hi) ?_ ?_
  · rw [hlog]
    exact cons_ne_nil _ _
  · rw [framesOf_self hf, hframes, hlog]
    exact hphase

theorem Inv.lt_next (h : Inv s stack) (hr : s.reqs r = some cr) : r < s.next := by
  by_contra hge
  rw [(h.fresh r (Nat.le_of_not_lt hge)).1] at hr
  cases hr

/-! ## The stretches -/

theorem Inv.resolve (h : Inv s stack) (now : Nat) (host : List UInt8) (port : Int) (room : Bool) :
    Inv (s.cacheResolve now host port room).state
    ((s.cacheResolve now host port room).stack stack) := by
  unfold cacheResolve
  split
  · exact h
  split
  · exact h
  simp only
  split
  · exact (h.cache _).malloc rfl rfl (.hit _ _ _ 0 rfl)
  · exact (h.cache _).malloc rfl rfl (.starting _ rfl rfl rfl)

/-- Inside its callback a request has its flag set, and a cancel only adds to its history. -/
theorem Phase.deferred (h : Phase r o fr log) (hf : ∃ f ∈ fr, f.isUserDone = true) :
    ∃ cr, o = some cr ∧ cr.inUserDone = true ∧
      Phase r (some { cr with cancelDeferred := true }) fr (log ++ [.cancelled r]) := by
  obtain ⟨f, hf, hdone⟩ := hf
  have hmore : ∀ n, replicate n (ReqEvent.cancelled r : ReqEvent ρ) ++ [.cancelled r] =
      replicate (n + 1) (.cancelled r) := fun n => replicate_succ'.symm
  cases h with
  | hit cr res err n hin =>
    refine ⟨cr, rfl, hin, ?_⟩
    rw [cons_append, hmore]
    exact .hit _ res err (n + 1) hin
  | syncDone cr res err n hin hover =>
    refine ⟨cr, rfl, hin, ?_⟩
    rw [cons_append, cons_append, cons_append, hmore]
    exact .syncDone _ res err (n + 1) hin hover
  | asyncDone cr res err n hin =>
    refine ⟨cr, rfl, hin, ?_⟩
    rw [cons_append, cons_append, cons_append, cons_append, hmore]
    exact .asyncDone _ res err (n + 1) hin
  | unborn => cases hf
  | starting => rw [mem_singleton.mp hf] at hdone; cases hdone
  | synced => rw [mem_singleton.mp hf] at hdone; cases hdone
  | pending => cases hf
  | cancelling => rw [mem_singleton.mp hf] at hdone; cases hdone
  | ended => cases hf

/-- A request with a handle at the caller, not called back and not cancelled. -/
theorem Phase.handed (h : Phase r o fr log) (hret : .returned r ∈ log)
    (hdone : ∀ ev ∈ log, ev.isDone = false) (hcancel : .cancelled r ∉ log) :
    ∃ cr, o = some cr ∧ cr.inUserDone = false ∧ cr.completed = false ∧ cr.innerReq.isSome = true ∧
      fr = [] ∧ log = [.started r, .returned r] := by
  cases h with
  | pending cr hin hopen hu hinner => exact ⟨cr, rfl, hu, hopen, hinner, rfl, rfl⟩
  | unborn => simp at hret
  | hit => simp [ReqEvent.isDone] at hdone
  | starting => simp at hret
  | syncDone => simp [ReqEvent.isDone] at hdone
  | synced => simp [ReqEvent.isDone] at hdone
  | asyncDone => simp [ReqEvent.isDone] at hdone
  | cancelling => simp at hcancel
  | ended evs hover => cases hover <;> simp [ReqEvent.isDone] at hret hdone hcancel

/-- A request that the inner resolver still owes a result. -/
theorem Phase.owed (h : Phase r o fr log) (hstart : .started r ∈ log)
    (hdone : .innerDone r ∉ log) (hcancel : .innerCancelled r ∉ log) (href : .refused r ∉ log)
    (res : Option ρ) (err : Int) : ∃ cr, o = some cr ∧
      Phase r (some { cr with completed := true, inUserDone := true }) (.innerDone r cr.inResolve ::
        fr) (log ++ [.innerDone r, .done r res err]) := by
  cases h with
  | starting cr hin hopen hu =>
    refine ⟨cr, rfl, ?_⟩
    rw [hin]
    exact .syncDone _ res err 0 rfl rfl
  | pending cr hin hopen hu hinner =>
    refine ⟨cr, rfl, ?_⟩
    rw [hin]
    exact .asyncDone _ res err 0 rfl
  | unborn => simp at hstart
  | hit => simp at hstart
  | syncDone => simp at hdone
  | synced => simp at hdone
  | asyncDone => simp at hdone
  | cancelling => simp at hcancel
  | ended evs hover => cases hover <;> simp at hstart hdone hcancel href

theorem mem_logOf : ev ∈ logOf r s.log ↔ ev ∈ s.log ∧ ev.req = r := by
  simp [logOf]

theorem mem_framesOf : f ∈ framesOf r stack ↔ f ∈ stack ∧ f.req = r := by
  simp [framesOf]

theorem Inv.cancel (h : Inv s stack) (hp : Lawful ⟨s, stack, tr⟩ (.call (.cancel r))) :
    Inv (s.cacheCancel r).state ((s.cacheCancel r).stack stack) := by
  unfold cacheCancel withReq
  rcases hp with ⟨f, hf, hreq, hdone⟩ | ⟨hret, hdone, hcancel⟩
  · obtain ⟨cr, ho, hin, hphase⟩ := (h.phase r).deferred ⟨f, mem_framesOf.mpr ⟨hf, hreq⟩, hdone⟩
    rw [ho]
    simp only
    rw [if_pos hin]
    exact h.stay (forall_mem_singleton.mpr rfl) (h.lt_next ho) hphase
  have hnone : ∀ ev ∈ logOf r s.log, ev.isDone = false := by
    intro ev hev
    obtain ⟨hmem, hr⟩ := mem_logOf.mp hev
    exact Bool.eq_false_iff.mpr fun hd => hdone ev hmem hd hr
  obtain ⟨cr, ho, hu, hopen, hinner, hfr, hlog⟩ :=
    (h.phase r).handed (mem_logOf.mpr ⟨hret, rfl⟩) hnone
    fun hmem => hcancel (mem_logOf.mp hmem).1
  rw [ho]
  simp only [hu, hinner, hopen, Bool.false_eq_true, if_false, not_false_eq_true, and_self, if_true]
  refine h.push rfl (by simp [ReqEvent.req]) (h.lt_next ho) ?_
  rw [hfr, hlog]
  exact .cancelling cr

theorem Inv.complete {now : Nat} {result : Option ρ} {error : Int} (h : Inv s stack)
    (hp : Lawful ⟨s, stack, tr⟩ (.call (.innerDone now r result error))) :
    Inv (s.innerDoneFn now r result error).state
    ((s.innerDoneFn now r result error).stack stack) := by
  obtain ⟨hstart, hdone, hcancel, href⟩ := hp
  obtain ⟨cr, ho, hphase⟩ :=
    (h.phase r).owed (mem_logOf.mpr ⟨hstart, rfl⟩) (fun hm => hdone (mem_logOf.mp hm).1)
    (fun hm => hcancel (mem_logOf.mp hm).1) (fun hm => href (mem_logOf.mp hm).1) result error
  unfold innerDoneFn withReq
  rw [ho]
  exact (h.cache _).push rfl (by simp [ReqEvent.req]) (h.lt_next ho) hphase

/-! What a hook finds when it returns. -/

section

theorem Phase.hitReturns (h : Phase r o (.hitDone r :: fr) log) :
    ∃ cr, o = some cr ∧ Phase r none fr (log ++ [.freed r]) := by
  cases h with
  | hit cr res err n _ => exact ⟨cr, rfl, .ended _ (.hit res err n)⟩

theorem Phase.resolveReturns (h : Phase r o (.innerResolve r :: fr) log) :
    ∃ cr, o = some cr ∧ (cr.completed = true ∧ Phase r none fr (log ++ [.freed r]) ∨
      cr.completed = false ∧ Phase r none fr (log ++ [.refused r, .freed r]) ∧
        ∀ i, Phase r (some { cr with inResolve := false, innerReq := some i }) fr
        (log ++ [.returned r])) := by
  cases h with
  | starting cr hin hopen hu =>
    exact ⟨cr, rfl, .inr ⟨hopen, .ended _ .refused, fun i => .pending _ rfl hopen hu rfl⟩⟩
  | synced cr res err n hover => exact ⟨cr, rfl, .inl ⟨hover, .ended _ (.synced res err n)⟩⟩

theorem Phase.syncReturns (h : Phase r o (.innerDone r true :: fr) log) :
    ∃ cr, o = some cr ∧ Phase r (some { cr with inUserDone := false }) fr log := by
  cases h with
  | syncDone cr res err n _ hover => exact ⟨cr, rfl, .synced _ res err n hover⟩

theorem Phase.asyncReturns (h : Phase r o (.innerDone r false :: fr) log) :
    ∃ cr, o = some cr ∧ Phase r none fr (log ++ [.freed r]) := by
  cases h with
  | asyncDone cr res err n _ => exact ⟨cr, rfl, .ended _ (.completed res err n)⟩

theorem Phase.cancelReturns (h : Phase r o (.innerCancel r :: fr) log) :
    ∃ cr, o = some cr ∧ Phase r none fr (log ++ [.freed r]) := by
  cases h with
  | cancelling cr => exact ⟨cr, rfl, .ended _ .cancelled⟩

end

theorem withReq_some (h : s.reqs r = some cr)
    (k : KlResCacheReq → ResolveOut ρ) : s.withReq r k = k cr := by
  unfold withReq
  rw [h]

theorem Inv.resume (h : Inv s (f :: stack)) (v : Option Nat) :
    Inv (s.resume f v).state ((s.resume f v).stack stack) := by
  have hphase := h.phase f.req
  rw [framesOf_self rfl] at hphase
  cases f with
  | hitDone r =>
    obtain ⟨cr, (ho : s.reqs r = some cr), hnext⟩ := hphase.hitReturns
    simp only [resume, withReq_some ho]
    exact h.pop rfl (forall_mem_singleton.mpr rfl) (h.lt_next ho) hnext
  | innerResolve r =>
    obtain ⟨cr, (ho : s.reqs r = some cr), ⟨hover, hnext⟩ | ⟨hopen, hrefused, hpending⟩⟩ :=
      hphase.resolveReturns
    · simp only [resume, withReq_some ho, hover, if_true]
      exact h.pop rfl (forall_mem_singleton.mpr rfl) (h.lt_next ho) hnext
    · simp only [resume, withReq_some ho]
      rw [if_neg (by rw [hopen]; exact Bool.false_ne_true)]
      cases v with
      | none => exact h.pop rfl (by simp [ReqEvent.req]) (h.lt_next ho) hrefused
      | some i => exact h.pop rfl (forall_mem_singleton.mpr rfl) (h.lt_next ho) (hpending i)
  | innerDone r wasSync =>
    cases wasSync with
    | true =>
      obtain ⟨cr, (ho : s.reqs r = some cr), hnext⟩ := hphase.syncReturns
      simp only [resume, withReq_some ho, if_true]
      refine h.pop rfl (forall_mem_nil _) (h.lt_next ho) ?_
      rw [append_nil]
      exact hnext
    | false =>
      obtain ⟨cr, (ho : s.reqs r = some cr), hnext⟩ := hphase.asyncReturns
      simp only [resume, withReq_some ho, Bool.false_eq_true, if_false]
      exact h.pop rfl (forall_mem_singleton.mpr rfl) (h.lt_next ho) hnext
  | innerCancel r =>
    obtain ⟨cr, (ho : s.reqs r = some cr), hnext⟩ := hphase.cancelReturns
    simp only [resume, withReq_some ho]
    exact h.pop rfl (forall_mem_singleton.mpr rfl) (h.lt_next ho) hnext

/-! ## Histories -/

theorem inv_preserved : (machine (ρ := ρ)).Preserves Lawful (fun _ s stack => Inv s stack) where
  enter tr s st op h hp := by
    cases op with
    | resolve now host port room => exact h.resolve now host port room
    | cancel r => exact h.cancel hp
    | innerDone now r result error => exact h.complete hp
    | clear => exact h.cache _
  resume tr s st f v h _ := h.resume v

theorem Inv.start (cache : KlResolverCache ρ) : Inv { cache } [] :=
  ⟨rfl, fun _ => .unborn, fun _ _ => ⟨rfl, rfl, rfl⟩, fun _ hr => absurd hr (Nat.not_lt_zero _)⟩

/-- What may follow what in the history of one request: no callback after a cancel, and no
cancel of the inner request after its result. -/
def Follows (r : Nat) (x y : ReqEvent ρ) : Prop :=
  (x = .cancelled r → y.isDone = false) ∧ (x = .innerDone r → y ≠ .innerCancelled r)

/-- The counts and the order of a request's history. -/
structure Orderly (r : Nat) (log : List (ReqEvent ρ)) : Prop where
  done : log.countP (·.isDone) ≤ 1
  completed : .innerDone r ∈ log → log.countP (·.isDone) = 1
  innerCancelled : log.countP (· matches .innerCancelled _) ≤ 1
  freed : log.countP (· matches .freed _) ≤ 1
  order : log.Pairwise (Follows r)

theorem Over.orderly (h : Over r log) : Orderly r log := by
  cases h <;> constructor <;>
    simp [ReqEvent.isDone, Follows, pairwise_append, countP_replicate, mem_replicate,
      pairwise_replicate, or_imp, forall_and]

theorem Phase.orderly (h : Phase r o fr log) : Orderly r log := by
  cases h with
  | ended evs hover => exact hover.orderly
  | _ =>
    constructor <;>
    simp [ReqEvent.isDone, Follows, countP_replicate, mem_replicate, pairwise_replicate]

/-- The fate of a request, when no code of the resolver is running. -/
inductive Settled (r : Nat) (o : Option KlResCacheReq) (log : List (ReqEvent ρ)) : Prop where
  /-- The inner resolver has the request, and the caller the handle. -/
  | pending (hobj : o.isSome = true) (hlog : log = [.started r, .returned r])
  /-- The callback was called once, and then the object freed. -/
  | done (hobj : o = none) (hdone : log.countP (·.isDone) = 1)
      (hfreed : log.countP (· matches .freed _) = 1)
  /-- The request was cancelled and never called back. -/
  | cancelled (hobj : o = none) (hcancel : .cancelled r ∈ log) (hdone : log.countP (·.isDone) = 0)
      (hfreed : log.countP (· matches .freed _) = 1)
  /-- The inner resolver could not start it, and `resolve` returned NULL. -/
  | refused (hobj : o = none) (hlog : log = [.started r, .refused r, .freed r])

theorem Phase.settled (h : Phase r o [] log) (hborn : log ≠ []) : Settled r o log := by
  cases h with
  | unborn => exact absurd rfl hborn
  | pending cr => exact .pending rfl rfl
  | ended evs hover =>
    cases hover with
    | hit res err n =>
      exact .done rfl (by simp [ReqEvent.isDone, countP_replicate]) (by simp [countP_replicate])
    | synced res err n =>
      exact .done rfl (by simp [ReqEvent.isDone, countP_replicate]) (by simp [countP_replicate])
    | refused => exact .refused rfl rfl
    | completed res err n =>
      exact .done rfl (by simp [ReqEvent.isDone, countP_replicate]) (by simp [countP_replicate])
    | cancelled => exact .cancelled rfl (by simp) (by simp [ReqEvent.isDone]) (by simp)

/-- In every run no freed request is touched, the history of each request is in order, and when no
code of the resolver is running each request that was made is pending or freed once. -/
theorem request_lifecycle (cache : KlResolverCache ρ)
    {c : Config (CacheResolver ρ) (ResolveOp ρ) Waiting (Option Nat) (Option Nat)}
    (hc : machine.Reach Lawful { cache } c) :
    c.state.fault = false ∧ (∀ r, Orderly r (logOf r c.state.log)) ∧
      (c.stack = [] → ∀ r, r < c.state.next →
        Settled r (c.state.reqs r) (logOf r c.state.log)) := by
  have h : Inv c.state c.stack := hc.invariant (.start cache) inv_preserved
  refine ⟨h.safe, fun r => (h.phase r).orderly, fun hstack r hr => ?_⟩
  have hphase := h.phase r
  rw [hstack] at hphase
  exact hphase.settled (h.born r hr)

/-- One request completes inside `resolve` and is cancelled in its callback, a second one hits the
cache, a third one is cancelled by its caller. -/
theorem request_lifecycle_sync :
    ∃ c, (machine (ρ := Nat)).run Lawful (Machine.start { cache := KlResolverCache.create none })
        [.call (.resolve 0 [97] 80 true), .call (.innerDone 0 0 (some 5) 0), .call (.cancel 0),
          .ret none, .ret none,
          .call (.resolve 1 [97] 80 true), .ret none, .call (.resolve 1 [98] 80 true),
          .ret (some 7), .call (.cancel 2), .ret none] = some c ∧
      c.state.next = 3 ∧ Settled 0 (c.state.reqs 0) (logOf 0 c.state.log) := by
  refine Machine.exists_run ⟨_, rfl, fun hc => ⟨rfl, ?_⟩⟩
  exact (request_lifecycle _ hc).2.2 rfl 0 (Nat.zero_lt_succ 2)

end CacheResolver
