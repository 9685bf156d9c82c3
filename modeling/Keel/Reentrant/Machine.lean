-- SUMMARY: Machines that call hooks which may call back into them.
import Mathlib.Data.List.Basic
import Mathlib.Algebra.Ring.Nat

/-!
# Re-entrant machines

A component written as a set of public operations that call *hooks*. A hook is
code of somebody else: before it returns it may call any public operation of the
same component again. Such a component is described by the stretches of its own
code between two hook boundaries. Each stretch starts where an operation is
entered or where a hook returns, and ends where the operation returns or where
the next hook is called. What is left to do after a hook is kept in a *frame*,
and the frames of all operations that are inside a hook form the call stack.
-/

open List Option

namespace Reentrant

/-- How a stretch of code ends: the public operation returns `r`, or a hook is
called and `f` is left on the stack. -/
inductive Out (σ φ ρ : Type) where
  | done (s : σ) (r : ρ)
  | call (s : σ) (f : φ)

/-- How a stretch of code starts. -/
inductive Cause (ω φ ν : Type) where
  | enter (op : ω)
  | resume (f : φ) (v : ν)

/-- What the surrounding code can do whenever it has control: call an operation,
or return from the innermost hook. -/
inductive Act (ω ν : Type) where
  | call (op : ω)
  | ret (v : ν)

/-- States `σ`, operations `ω`, frames `φ`, hook results `ν`, results `ρ`. -/
structure Machine (σ ω φ ν ρ : Type) where
  enter : ω → σ → Out σ φ ρ
  resume : φ → ν → σ → Out σ φ ρ

/-- One stretch of code as it was run. -/
structure Step (σ ω φ ν ρ : Type) where
  pre : σ
  cause : Cause ω φ ν
  out : Out σ φ ρ

/-- The state, the frames inside a hook (innermost first), and everything that
was run so far (oldest first). -/
structure Config (σ ω φ ν ρ : Type) where
  state : σ
  stack : List φ
  trace : List (Step σ ω φ ν ρ)

variable {σ ω φ ν ρ : Type}

def Out.state : Out σ φ ρ → σ
  | .done s _ => s
  | .call s _ => s

/-- The stack after a stretch that started with `rest` below it. -/
def Out.stack (rest : List φ) : Out σ φ ρ → List φ
  | .done _ _ => rest
  | .call _ f => f :: rest

/-- The hook called at the end of a stretch. -/
def Out.hook : Out σ φ ρ → Option φ
  | .done _ _ => none
  | .call _ f => some f

/-- The result of an operation that returned. -/
def Out.result : Out σ φ ρ → Option ρ
  | .done _ r => some r
  | .call _ _ => none

/-- The hooks called so far, in order. -/
def hooks (tr : List (Step σ ω φ ν ρ)) : List φ := tr.filterMap (·.out.hook)

/-- The hook whose call has just been made. -/
def Config.calling (c : Config σ ω φ ν ρ) : Option φ := c.trace.getLast?.bind (·.out.hook)

@[simp] theorem Out.state_done (s : σ) (r : ρ) : (Out.done s r : Out σ φ ρ).state = s := rfl
@[simp] theorem Out.state_call (s : σ) (f : φ) : (Out.call s f : Out σ φ ρ).state = s := rfl
@[simp] theorem Out.stack_done (rest : List φ) (s : σ) (r : ρ) :
    (Out.done s r : Out σ φ ρ).stack rest = rest := rfl
@[simp] theorem Out.stack_call (rest : List φ) (s : σ) (f : φ) :
    (Out.call s f : Out σ φ ρ).stack rest = f :: rest := rfl
@[simp] theorem Out.hook_done (s : σ) (r : ρ) : (Out.done s r : Out σ φ ρ).hook = none := rfl
@[simp] theorem Out.hook_call (s : σ) (f : φ) : (Out.call s f : Out σ φ ρ).hook = some f := rfl

/-- Whatever is asked of the hook called, when there is none. -/
theorem Out.no_hook {P : φ → Prop} : ∀ f, (none : Option φ) = some f → P f := nofun

theorem Out.stack_eq (o : Out σ φ ρ) (rest : List φ) : o.stack rest = o.hook.toList ++ rest := by
  cases o <;> rfl

/-- A stretch that ends with a hook has called it. -/
theorem Out.eq_call {o : Out σ φ ρ} {f : φ} (h : o.hook = some f) : o = .call o.state f := by
  cases o with
  | done s r => cases h
  | call s g =>
    cases h
    rfl

@[simp] theorem hooks_append (tr : List (Step σ ω φ ν ρ)) (st : Step σ ω φ ν ρ) :
    hooks (tr ++ [st]) = hooks tr ++ st.out.hook.toList := by
  cases h : st.out.hook <;> simp [hooks, h]

/-- The hook that is being called is on the trace. -/
theorem Config.calling_mem {c : Config σ ω φ ν ρ} {f : φ} (h : c.calling = some f) :
    f ∈ hooks c.trace := by
  obtain ⟨st, hlast, hf⟩ := bind_eq_some_iff.mp h
  exact mem_filterMap.mpr ⟨st, mem_of_getLast? hlast, hf⟩

namespace Machine

def start (s : σ) : Config σ ω φ ν ρ := ⟨s, [], []⟩

/-- The configuration after the stretch `st`, with `rest` the stack below it. -/
def push (c : Config σ ω φ ν ρ) (st : Step σ ω φ ν ρ) (rest : List φ) : Config σ ω φ ν ρ :=
  ⟨st.out.state, st.out.stack rest, c.trace ++ [st]⟩

/-- Calls are always possible; a return needs a hook to return from. -/
def step (M : Machine σ ω φ ν ρ) (c : Config σ ω φ ν ρ) : Act ω ν → Option (Config σ ω φ ν ρ)
  | .call op => some (push c ⟨c.state, .enter op, M.enter op c.state⟩ c.stack)
  | .ret v =>
    match c.stack with
    | [] => none
    | f :: rest => some (push c ⟨c.state, .resume f v, M.resume f v c.state⟩ rest)

/-- The configurations of the runs from `s₀` in which every action meets `P`. -/
inductive Reach (M : Machine σ ω φ ν ρ) (P : Config σ ω φ ν ρ → Act ω ν → Prop) (s₀ : σ) :
    Config σ ω φ ν ρ → Prop where
  | start : Reach M P s₀ (start s₀)
  | step {c c' : Config σ ω φ ν ρ} {a : Act ω ν} :
      Reach M P s₀ c → P c a → M.step c a = some c' → Reach M P s₀ c'

variable {M : Machine σ ω φ ν ρ} {P : Config σ ω φ ν ρ → Act ω ν → Prop} {s₀ : σ}
  {c : Config σ ω φ ν ρ} {I : List (Step σ ω φ ν ρ) → σ → List φ → Prop}

/-- Runs with no condition on the surrounding code. -/
def Any (_ : Config σ ω φ ν ρ) (_ : Act ω ν) : Prop := True

instance (c : Config σ ω φ ν ρ) (a : Act ω ν) : Decidable (Any c a) := .isTrue trivial

/-- A condition on the calls into the machine and on the returns of its hooks, each in
the state it is made in. -/
def Guarded (onCall : σ → ω → Prop) (onRet : σ → φ → ν → Prop) : Config σ ω φ ν ρ → Act ω ν → Prop
  | c, .call op => onCall c.state op
  | ⟨s, f :: _, _⟩, .ret v => onRet s f v
  | ⟨_, [], _⟩, .ret _ => True

instance {onCall : σ → ω → Prop} {onRet : σ → φ → ν → Prop} [∀ s op, Decidable (onCall s op)]
    [∀ s f v, Decidable (onRet s f v)] (c : Config σ ω φ ν ρ) (a : Act ω ν) :
    Decidable (Guarded onCall onRet c a) := by
  unfold Guarded
  split <;> exact inferInstance

/-- A weaker condition on the acts allows more runs. -/
theorem Reach.mono {P Q : Config σ ω φ ν ρ → Act ω ν → Prop}
    (h : ∀ c a, P c a → Q c a) (hc : M.Reach P s₀ c) : M.Reach Q s₀ c := by
  induction hc with
  | start => exact .start
  | step _ hp hs ih => exact .step ih (h _ _ hp) hs

/-- Stretch by stretch: what an entered operation and a resumed frame must
establish, for a property of trace, state and stack to hold throughout. -/
structure Preserves (M : Machine σ ω φ ν ρ) (P : Config σ ω φ ν ρ → Act ω ν → Prop)
    (I : List (Step σ ω φ ν ρ) → σ → List φ → Prop) : Prop where
  enter : ∀ tr s st op, I tr s st → P ⟨s, st, tr⟩ (.call op) →
    I (tr ++ [⟨s, .enter op, M.enter op s⟩]) (M.enter op s).state ((M.enter op s).stack st)
  resume : ∀ tr s st f v, I tr s (f :: st) → P ⟨s, f :: st, tr⟩ (.ret v) →
    I (tr ++ [⟨s, .resume f v, M.resume f v s⟩]) (M.resume f v s).state
      ((M.resume f v s).stack st)

/-- The invariant rule. -/
theorem Reach.invariant (hc : M.Reach P s₀ c) (h₀ : I [] s₀ []) (hI : Preserves M P I) :
    I c.trace c.state c.stack := by
  induction hc with
  | start => exact h₀
  | @step c c' a _ hp hs ih =>
    cases a with
    | call op =>
      simp only [Machine.step, some.injEq] at hs
      subst hs
      exact hI.enter _ _ _ _ ih hp
    | ret v =>
      obtain ⟨s, stack, tr⟩ := c
      cases stack with
      | nil => simp [Machine.step] at hs
      | cons f rest =>
        simp only [Machine.step, some.injEq] at hs
        subst hs
        exact hI.resume _ _ _ _ _ ih hp

/-- Where a hook call came from: an operation that was entered, or a frame that
was resumed. -/
inductive Called (M : Machine σ ω φ ν ρ) (P : Config σ ω φ ν ρ → Act ω ν → Prop)
    (c₀ c : Config σ ω φ ν ρ) (f : φ) : Prop where
  | enter (op : ω) : P c₀ (.call op) → M.enter op c₀.state = .call c.state f →
      c.stack = f :: c₀.stack → Called M P c₀ c f
  | resume (g : φ) (v : ν) (rest : List φ) : c₀.stack = g :: rest → P c₀ (.ret v) →
      M.resume g v c₀.state = .call c.state f → c.stack = f :: rest → Called M P c₀ c f

/-- A hook that is being called was called by the last stretch. -/
theorem Reach.called {f : φ} (hc : M.Reach P s₀ c)
    (hf : c.calling = some f) : ∃ c₀, M.Reach P s₀ c₀ ∧ Called M P c₀ c f := by
  cases hc with
  | start => simp [Config.calling, Machine.start] at hf
  | @step c₀ _ a hc hp hs =>
    refine ⟨c₀, hc, ?_⟩
    cases a with
    | call op =>
      simp only [Machine.step, some.injEq] at hs
      subst hs
      simp only [Config.calling, push, getLast?_concat, bind_some] at hf
      cases ho : M.enter op c₀.state with
      | done s r => simp [ho] at hf
      | call s g =>
        simp only [ho, Out.hook_call, some.injEq] at hf
        subst hf
        exact .enter op hp (by simp [ho, push]) (by simp [push])
    | ret v =>
      obtain ⟨s, stack, tr⟩ := c₀
      cases stack with
      | nil => simp [Machine.step] at hs
      | cons g rest =>
        simp only [Machine.step, some.injEq] at hs
        subst hs
        simp only [Config.calling, push, getLast?_concat, bind_some] at hf
        cases ho : M.resume g v s with
        | done s r => simp [ho] at hf
        | call s' g' =>
          simp only [ho, Out.hook_call, some.injEq] at hf
          subst hf
          exact .resume g v rest rfl hp (by simp [ho, push]) (by simp [push])

/-- It is the innermost frame. -/
theorem Reach.stack_of_calling {f : φ} (hc : M.Reach P s₀ c)
    (hf : c.calling = some f) : ∃ rest, c.stack = f :: rest := by
  obtain ⟨c₀, -, hcalled⟩ := hc.called hf
  cases hcalled with
  | enter _ _ _ hst => exact ⟨_, hst⟩
  | resume _ _ rest _ _ _ hst => exact ⟨rest, hst⟩

/-- The state is the one the last stretch left. -/
theorem Reach.state_of_last {x : Step σ ω φ ν ρ} (hc : M.Reach P s₀ c)
    (hx : c.trace.getLast? = some x) : c.state = x.out.state := by
  cases hc with
  | start => simp [Machine.start] at hx
  | @step c₀ _ a _ _ hs =>
    cases a with
    | call op =>
      simp only [Machine.step, some.injEq] at hs
      subst hs
      simp only [push, getLast?_concat, some.injEq] at hx
      exact hx ▸ rfl
    | ret v =>
      obtain ⟨s, stack, tr⟩ := c₀
      cases stack with
      | nil => simp [Machine.step] at hs
      | cons f rest =>
        simp only [Machine.step, some.injEq] at hs
        subst hs
        simp only [push, getLast?_concat, some.injEq] at hx
        exact hx ▸ rfl

/-- Two invariants may be proved one after the other: the second may use the
first. -/
theorem Preserves.strengthen {J : List (Step σ ω φ ν ρ) → σ → List φ → Prop} (hI : Preserves M P I)
    (henter : ∀ tr s st op, I tr s st → J tr s st → P ⟨s, st, tr⟩ (.call op) →
      J (tr ++ [⟨s, .enter op, M.enter op s⟩]) (M.enter op s).state ((M.enter op s).stack st))
    (hresume : ∀ tr s st f v, I tr s (f :: st) → J tr s (f :: st) → P ⟨s, f :: st, tr⟩ (.ret v) →
      J (tr ++ [⟨s, .resume f v, M.resume f v s⟩]) (M.resume f v s).state
        ((M.resume f v s).stack st)) :
    Preserves M P (fun tr s st => I tr s st ∧ J tr s st) where
  enter tr s st op h hp := ⟨hI.enter tr s st op h.1 hp, henter tr s st op h.1 h.2 hp⟩
  resume tr s st f v h hp := ⟨hI.resume tr s st f v h.1 hp, hresume tr s st f v h.1 h.2 hp⟩

/-- Two invariants are one. -/
theorem Preserves.and {J : List (Step σ ω φ ν ρ) → σ → List φ → Prop} (hI : Preserves M P I)
    (hJ : Preserves M P J) : Preserves M P (fun tr s st => I tr s st ∧ J tr s st) :=
  hI.strengthen (fun tr s st op _ h hp => hJ.enter tr s st op h hp)
    (fun tr s st f v _ h hp => hJ.resume tr s st f v h hp)

/-- Run a list of actions, as long as each meets `P`. -/
def run (M : Machine σ ω φ ν ρ) (P : Config σ ω φ ν ρ → Act ω ν → Prop)
    [∀ c a, Decidable (P c a)] (c : Config σ ω φ ν ρ) :
    List (Act ω ν) → Option (Config σ ω φ ν ρ)
  | [] => some c
  | a :: as => if P c a then (M.step c a).bind (fun c' => run M P c' as) else none

variable {as : List (Act ω ν)}

/-- Executing acts leads to a configuration that is reached. -/
theorem Reach.run [∀ c a, Decidable (P c a)] {c' : Config σ ω φ ν ρ}
    (hc : M.Reach P s₀ c) (hr : M.run P c as = some c') : M.Reach P s₀ c' := by
  induction as generalizing c with
  | nil =>
    simp only [run, some.injEq] at hr
    exact hr ▸ hc
  | cons a as ih =>
    simp only [run] at hr
    split at hr
    · obtain ⟨c₁, hs, hr⟩ := bind_eq_some_iff.mp hr
      exact ih (.step hc ‹_› hs) hr
    · cases hr

/-- What a run from the start ends with is reachable. -/
theorem exists_run [∀ c a, Decidable (P c a)] {Q : Config σ ω φ ν ρ → Prop}
    (h : ∃ c, M.run P (start s₀) as = some c ∧ (M.Reach P s₀ c → Q c)) :
    ∃ c, M.run P (start s₀) as = some c ∧ Q c := by
  obtain ⟨c, hr, hq⟩ := h
  exact ⟨c, hr, hq (Reach.run .start hr)⟩

theorem exists_built [∀ c a, Decidable (P c a)] {built : Option σ}
    {Q : Config σ ω φ ν ρ → Prop} (h : ∃ s₀ c, built = some s₀ ∧ M.run P (start s₀) as = some c ∧
      (built = some s₀ → M.Reach P s₀ c → Q c)) :
    ∃ s₀ c, built = some s₀ ∧ M.run P (start s₀) as = some c ∧ Q c := by
  obtain ⟨s₀, c, hb, hr, hq⟩ := h
  exact ⟨s₀, c, hb, hr, hq hb (Reach.run .start hr)⟩

/-- A list of acts that can be executed is a run. -/
theorem exists_reach [∀ c a, Decidable (P c a)] (as : List (Act ω ν)) {Q : Config σ ω φ ν ρ → Prop}
    (h : ∃ c, M.run P (start s₀) as = some c ∧ (M.Reach P s₀ c → Q c)) :
    ∃ c, M.Reach P s₀ c ∧ Q c := by
  obtain ⟨c, hr, hq⟩ := h
  exact ⟨c, Reach.run .start hr, hq (Reach.run .start hr)⟩

end Machine

end Reentrant
