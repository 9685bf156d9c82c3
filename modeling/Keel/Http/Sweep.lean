-- SUMMARY: When the deadline sweep is safe.
import Keel.Http.Async

/-!
# The deadline sweep

The sweep keeps the operation after the one it is at while `on_deadline` runs. The
callback may retire that operation. Its link then is stale, but still leads back into
the list, unless the owner has freed the cell. `Ahead` is the way the cursor will take:
stale cells first, then a suffix of the list.
-/

open Reentrant Linked List

namespace AsyncServer

/-! ## Runs -/

/-- The way the sweep will take from the operation it saved. -/
def ahead (s : AsyncServer) (cursor : Option Nat) : List Nat := walk s.next s.ops.length cursor

/-- The sweeps that are inside `on_deadline`: their time and their cursor. -/
def cursors (st : List Frame) : List (Nat × Option Nat) :=
  st.filterMap fun
    | .onDeadline _ now next => some (now, next)
    | _ => none

/-- The contract of the owners: only an operation that was suspended is ended, only a
terminal one is freed or used again. The server loop is the only caller of the sweep. -/
def Legal (c : AConfig) (a : AAct) : Prop :=
  match a with
  | .call (.suspend _ x _ _ _ _) => c.state.pending x = false
  | .call (.complete x) | .call (.cancel x) | .call (.cancelDetached x) =>
    (c.state.ops.get x).isSome
  | .call (.free x) => (c.state.ops.get x).isSome ∧ c.state.pending x = false
  | .call (.sweep _) => c.stack = []
  | _ => True

/-- No operation ahead of a sweep is freed or suspended again. -/
def Clear (c : AConfig) (a : AAct) : Prop :=
  match a with
  | .call (.suspend _ x _ _ _ _) | .call (.free x) =>
    ∀ cur ∈ cursors c.stack, x ∉ c.state.ahead cur.2
  | _ => True

def Safe (c : AConfig) (a : AAct) : Prop := Legal c a ∧ Clear c a

instance (c : AConfig) (a : AAct) : Decidable (Legal c a) := by
  unfold Legal
  split <;> exact inferInstance

instance (c : AConfig) (a : AAct) : Decidable (Clear c a) := by
  unfold Clear
  split <;> exact inferInstance

instance (c : AConfig) (a : AAct) : Decidable (Safe c a) := inferInstanceAs (Decidable (_ ∧ _))

/-- Pending, due and with a callback. -/
def due (s : AsyncServer) (now a : Nat) : Bool :=
  match s.ops.get a with
  | none => false
  | some op => !op.terminal && 0 < op.deadlineMs && op.deadlineMs ≤ now && op.onDeadline

/-- A sweep: the server it found, and what was called and what was retired since. -/
structure Sweep where
  start : AsyncServer
  now : Nat
  calls : List Nat
  retired : List Nat

def callsOf (o : AOut) : List Nat :=
  match o.hook with
  | some (.onDeadline a _ _) => [a]
  | _ => []

def retiresOf (s : AsyncServer) (cause : Cause Op Frame Int) : List Nat :=
  match cause with
  | .enter (.complete a) | .enter (.cancel a) | .enter (.cancelDetached a) =>
    if s.pending a then [a] else []
  | _ => []

def Sweep.record (h : Option Sweep) (x : AStep) : Option Sweep :=
  match x.cause with
  | .enter (.sweep now) => some ⟨x.pre, now, callsOf x.out, []⟩
  | cause => h.map fun h =>
    { h with calls := h.calls ++ callsOf x.out, retired := h.retired ++ retiresOf x.pre cause }

def lastSweep (tr : List AStep) : Option Sweep := tr.foldl Sweep.record none

theorem lastSweep_append (tr : List AStep) (x : AStep) :
    lastSweep (tr ++ [x]) = Sweep.record (lastSweep tr) x := by
  simp [lastSweep]

/-! ## What a stretch of code does to the list -/

def Frame.isDeadline : Frame → Bool
  | .onDeadline _ _ _ => true
  | _ => false

/-- A stretch of code that leaves the list alone and calls no `on_deadline`. -/
structure Keeps (s : AsyncServer) (o : AOut) : Prop where
  ops : o.state.ops = s.ops
  asyncOps : o.state.asyncOps = s.asyncOps
  fault : o.state.fault = s.fault
  quiet : ∀ f, o.hook = some f → f.isDeadline = false

/-- What code outside of the sweep can do while the frames `st` wait: leave the list
alone, retire an operation, link one in, or free one. -/
inductive Effect (s : AsyncServer) (l : List Nat) (st : List Frame) (o : AOut) :
    List Nat → Prop where
  | same : Keeps s o → Effect s l st o []
  | retired {a : Nat} {s' : AsyncServer} : s.pending a = true → Retires s l a s' → Keeps s' o →
      Effect s l st o [a]
  | pushed (a : Nat) (op : KlAsyncOp) {s' : AsyncServer} : s.pending a = false →
      (∀ cur ∈ cursors st, a ∉ s.ahead cur.2) → op.next = s.asyncOps → op.terminal = false →
      s'.ops = s.ops.set a op → s'.asyncOps = some a → s'.fault = s.fault → Keeps s' o →
      Effect s l st o []
  | freed (a : Nat) {s' : AsyncServer} : s.pending a = false →
      (∀ cur ∈ cursors st, a ∉ s.ahead cur.2) → s'.ops = s.ops.free a →
      s'.asyncOps = s.asyncOps → s'.fault = s.fault → Keeps s' o → Effect s l st o []

section

variable {s s' : AsyncServer} {o : AOut} {a conn now : Nat} {l : List Nat} {st : List Frame}

theorem Keeps.setConn {f : KlHttpConn → KlHttpConn} (h : Keeps (s.setConn conn f) o) : Keeps s o :=
  ⟨h.ops, h.asyncOps, h.fault, h.quiet⟩

theorem Keeps.done (s : AsyncServer) (r : Int) : Keeps s (.done s r) := ⟨rfl, rfl, rfl, nofun⟩

variable {f : Frame} {op : KlAsyncOp}

theorem Keeps.call (s : AsyncServer) (hf : f.isDeadline = false) : Keeps s (.call s f) :=
  ⟨rfl, rfl, rfl, fun g hg => by cases hg; exact hf⟩

theorem Keeps.callsOf (h : Keeps s o) : callsOf o = [] := by
  unfold AsyncServer.callsOf
  split
  · next hf => cases h.quiet _ hf
  · rfl

theorem Keeps.cursors (h : Keeps s o) (st : List Frame) : cursors (o.stack st) = cursors st := by
  cases o with
  | done s' r => rfl
  | call s' f =>
    have hf := h.quiet f rfl
    cases f with
    | onDeadline a now next => cases hf
    | _ => rfl

theorem resumed_keeps (s : AsyncServer) (conn : Nat) : Keeps s (s.resumed conn) := by
  simp only [resumed]
  split
  · exact .done s 0
  · split
    · exact (Keeps.done _ 0).setConn
    · exact (Keeps.call _ rfl).setConn

theorem cancelled_keeps (s : AsyncServer) (conn : Nat) (detached : Bool) :
    Keeps s (s.cancelled conn detached) := by
  simp only [cancelled]
  split
  · exact .done s 0
  · split
    · exact (Keeps.call _ rfl).setConn
    · exact (Keeps.done _ 0).setConn

theorem complete_keeps (hr : (s.asyncRetire a).2 = some conn)
    (hop : (s.asyncRetire a).1.ops.get a = some op) :
    Keeps (s.asyncRetire a).1 (s.complete a) := by
  unfold complete
  revert hr hop
  generalize s.asyncRetire a = r
  rintro hr hop
  obtain ⟨s', c⟩ := r
  cases hr
  dsimp only at hop ⊢
  rw [show (s'.setConn conn _).ops.get a = some op from hop]
  dsimp only
  split
  · exact (Keeps.call _ rfl).setConn.setConn
  · exact (resumed_keeps _ conn).setConn

theorem cancel_keeps {detached : Bool} (hr : (s.asyncRetire a).2 = some conn)
    (hop : (s.asyncRetire a).1.ops.get a = some op) :
    Keeps (s.asyncRetire a).1 (s.cancel a detached) := by
  unfold cancel
  revert hr hop
  generalize s.asyncRetire a = r
  rintro hr hop
  obtain ⟨s', c⟩ := r
  cases hr
  dsimp only at hop ⊢
  rw [hop]
  dsimp only
  split
  · exact .call s' rfl
  · exact cancelled_keeps s' conn detached

/-- Ending an operation retires it if it was pending, and does nothing otherwise. -/
theorem Effect.terminate (h : Active s l) (ha : (s.ops.get a).isSome)
    (hnone : s.asyncRetire a = (s, none) → o = .done s 0)
    (hsome : ∀ conn op, (s.asyncRetire a).2 = some conn → (s.asyncRetire a).1.ops.get a = some op →
      Keeps (s.asyncRetire a).1 o) :
    Effect s l st o (if s.pending a then [a] else []) := by
  obtain ⟨op, hop⟩ := Option.isSome_iff_exists.mp ha
  cases hp : s.pending a with
  | false =>
    have ht : op.terminal = true := by simpa [pending, hop] using hp
    rw [hnone (asyncRetire_terminal hop ht)]
    exact .same (.done s 0)
  | true =>
    obtain ⟨conn, hconn, hr⟩ := asyncRetire_pending h hp
    obtain ⟨op', hop', -⟩ := hr.terminal
    exact .retired hp hr (hsome conn op' hconn hop')

theorem Effect.enter {tr : List AStep} {op : Op} (h : Active s l) (hop : ∀ now, op ≠ .sweep now)
    (hsafe : Safe ⟨s, st, tr⟩ (.call op)) :
    Effect s l st (enter op s) (retiresOf s (.enter op)) := by
  obtain ⟨hlegal, hclear⟩ := hsafe
  cases op with
  | suspend conn a deadlineMs onResume onDeadline onCancel =>
    show Effect s l st (s.suspend conn a deadlineMs onResume onDeadline onCancel) []
    simp only [suspend]
    split
    · exact .same (.done s (-1))
    · refine .pushed a ⟨conn, deadlineMs, onResume, onDeadline, onCancel, s.asyncOps, false⟩ hlegal
        hclear ?_ ?_ ?_ ?_ ?_ (.done _ 0) <;> rfl
  | complete a =>
    refine .terminate h hlegal (fun hr => ?_) fun _ _ => complete_keeps
    simp [AsyncServer.enter, complete, hr]
  | cancel a =>
    refine .terminate h hlegal (fun hr => ?_) fun _ _ => cancel_keeps
    simp [AsyncServer.enter, cancel, hr]
  | cancelDetached a =>
    refine .terminate h hlegal (fun hr => ?_) fun _ _ => cancel_keeps
    simp [AsyncServer.enter, cancel, hr]
  | free a => refine .freed a hlegal.2 hclear ?_ ?_ ?_ (.done _ 0) <;> rfl
  | drive conn state depth streamed => exact .same (Keeps.done _ 0).setConn
  | sweep now => exact absurd rfl (hop now)

theorem afterHook_keeps (hf : f.isDeadline = false) (v : Int) : Keeps s (afterHook f v s) := by
  cases f with
  | onResume conn => exact (resumed_keeps _ conn).setConn
  | onCancel conn detached => exact cancelled_keeps s conn detached
  | driver conn => exact .done s 0
  | onDeadline a now next => cases hf

end

/-! ## The way ahead of the cursor -/

/-- A sweep `h` that found the list `ops` and will read `stale ++ rest`: operations
that were retired behind its back, then the rest of the list. -/
structure Ahead (s : AsyncServer) (l : List Nat) (h : Sweep) (ops : List Nat) (cur : Option Nat)
    (stale rest : List Nat) : Prop where
  chain : Chain s.next cur (stale ++ rest)
  suffix : rest <:+ l
  terminal : ∀ x ∈ stale, ∃ op, s.ops.get x = some op ∧ op.terminal = true
  order : (h.calls ++ (stale ++ rest)).Sublist ops
  due : ∀ x ∈ ops, h.start.due h.now x = true →
    x ∈ h.calls ∨ x ∈ h.retired ∨ x ∈ rest ∧ s.due h.now x = true

/-- Where the last sweep is: there was none, it is over, or it is inside `on_deadline`. -/
inductive Phase (s : AsyncServer) (l : List Nat) :
    Option Sweep → List (Nat × Option Nat) → Prop where
  | none : Phase s l none []
  | through {h : Sweep} {ops : List Nat} : Active h.start ops → h.calls.Sublist ops →
      (∀ x ∈ ops, h.start.due h.now x = true → x ∈ h.calls ∨ x ∈ h.retired) → Phase s l (some h) []
  | within {h : Sweep} {ops : List Nat} {cur : Option Nat} {stale rest : List Nat} :
      Active h.start ops → Ahead s l h ops cur stale rest → Phase s l (some h) [(h.now, cur)]

section

variable {s s' : AsyncServer} {o : AOut} {a now : Nat} {l ops stale rest : List Nat}
  {st : List Frame} {h : Sweep} {cur : Option Nat}

theorem due_eq (s : AsyncServer) (now a : Nat) : s.due now a = (s.data a).any fun op =>
      !op.terminal && 0 < op.deadlineMs && op.deadlineMs ≤ now && op.onDeadline := by
  unfold due data
  cases s.ops.get a <;> rfl

theorem due_congr (hd : s'.data a = s.data a) : s'.due now a = s.due now a := by
  rw [due_eq, due_eq, hd]

section

variable (h' : Ahead s l h ops cur stale rest)
include h'

theorem Ahead.exists_op (hA : Active s l) {x : Nat}
    (hx : x ∈ stale ++ rest) : ∃ op, s.ops.get x = some op := by
  rcases mem_append.mp hx with hx | hx
  · obtain ⟨op, hop, -⟩ := h'.terminal x hx
    exact ⟨op, hop⟩
  · obtain ⟨op, hop, -⟩ := hA.exists_op (h'.suffix.subset hx)
    exact ⟨op, hop⟩

/-- The walk finds all of it. -/
theorem Ahead.ahead_eq (hA : Active s l) : s.ahead cur = stale ++ rest :=
  h'.chain.walk_eq (Store.length_le h'.chain.nodup fun _ hx => h'.exists_op hA hx)

/-- The cells ahead are untouched. -/
theorem Ahead.frame {l' : List Nat}
    (hget : ∀ x ∈ stale ++ rest, s'.ops.get x = s.ops.get x) (hl : l <:+ l') :
    Ahead s' l' h ops cur stale rest where
  chain := h'.chain.congr fun x hx => by rw [next, next, hget x hx]
  suffix := h'.suffix.trans hl
  terminal x hx := by
    rw [hget x (mem_append_left rest hx)]
    exact h'.terminal x hx
  order := h'.order
  due x hx hd := by
    refine (h'.due x hx hd).imp_right (Or.imp_right fun hr => ⟨hr.1, ?_⟩)
    rw [← hr.2, AsyncServer.due, AsyncServer.due, hget x (mem_append_right stale hr.1)]

/-- An operation that is retired leaves the way, or becomes a stale cell of it. -/
theorem Ahead.retire (hA : Active s l)
    (hp : s.pending a = true) (hr : Retires s l a s') :
    ∃ stale' rest', Ahead s' (l.erase a) { h with retired := h.retired ++ [a] } ops cur stale'
    rest' := by
  have hstale : ∀ x ∈ stale, x ∉ l := by
    intro x hx hxl
    obtain ⟨op, hop, ht⟩ := h'.terminal x hx
    obtain ⟨op', hop', ht'⟩ := hA.exists_op hxl
    rw [hop] at hop'
    cases hop'
    rw [ht] at ht'
    cases ht'
  obtain ⟨stale', rest', hc, hs, hsub, hst, hrest⟩ :=
    hr.links.cursor hA.chain h'.chain h'.suffix hstale
  refine ⟨stale', rest', hc, hs, fun x hx => ?_, ?_, fun x hx hd => ?_⟩
  · rcases hst x hx with hx | rfl
    · obtain ⟨op, hop, ht⟩ := h'.terminal x hx
      have hxa : x ≠ a := fun hxa => hstale x hx ((hA.mem_iff x).mpr (hxa ▸ hp))
      have hdata := hr.data x hxa
      unfold data at hdata
      rw [hop] at hdata
      cases hop' : s'.ops.get x with
      | none => simp [hop'] at hdata
      | some op' =>
        refine ⟨op', rfl, ?_⟩
        simp only [hop', Option.map_some, Option.some.injEq] at hdata
        exact (congrArg KlAsyncOp.terminal hdata).trans ht
    · exact hr.terminal
  · exact (hsub.append_left h.calls).trans h'.order
  · rcases h'.due x hx hd with hcall | hret | ⟨hmem, hdue⟩
    · exact .inl hcall
    · exact .inr (.inl (mem_append_left _ hret))
    · by_cases hxa : x = a
      · exact .inr (.inl (by simp [hxa]))
      · exact .inr (.inr ⟨hrest x hmem hxa, (due_congr (hr.data x hxa)).trans hdue⟩)

end

theorem Active.keeps (hA : Active s l) (hk : Keeps s o) : Active o.state l :=
  hA.of_eq hk.ops hk.asyncOps

variable {cs : List (Nat × Option Nat)} {hist : Option Sweep} {op : KlAsyncOp} {nx : Option Nat}

theorem Phase.keeps (h' : Phase s l hist cs) (hk : Keeps s o) : Phase o.state l hist cs := by
  cases h' with
  | none => exact .none
  | through hops hsub hall => exact .through hops hsub hall
  | within hops hah =>
    exact .within hops (hah.frame (fun x _ => by rw [hk.ops]) (suffix_refl l))

/-- A write to an operation that no sweep has ahead of it. -/
theorem Phase.apart {l' : List Nat} (h' : Phase s l hist cs)
    (hA : Active s l) (hclear : ∀ cur ∈ cs, a ∉ s.ahead cur.2)
    (hget : ∀ x, x ≠ a → s'.ops.get x = s.ops.get x) (hl : l <:+ l') : Phase s' l' hist cs := by
  cases h' with
  | none => exact .none
  | through hops hsub hall => exact .through hops hsub hall
  | within hops hah =>
    have hnot := hclear _ mem_cons_self
    rw [hah.ahead_eq hA] at hnot
    exact .within hops (hah.frame (fun x hx => hget x fun hxa => hnot (hxa ▸ hx)) hl)

/-- Code outside of the sweep leaves the sweep on its way. -/
theorem Phase.effect {rs : List Nat} (h' : Phase s l hist (cursors st))
    (hA : Active s l) (he : Effect s l st o rs) :
    ∃ l', Active o.state l' ∧ o.state.fault = s.fault ∧
      Phase o.state l' (hist.map fun h => { h with retired := h.retired ++ rs }) (cursors st) := by
  cases he with
  | same hk =>
    refine ⟨l, hA.keeps hk, hk.fault, ?_⟩
    simpa using h'.keeps hk
  | @retired a s' hp hr hk =>
    refine ⟨l.erase a, (hr.active hA).keeps hk, hk.fault.trans hr.fault, Phase.keeps ?_ hk⟩
    generalize cursors st = cs at h'
    cases h' with
    | none => exact .none
    | through hops hsub hall =>
      refine .through hops hsub fun x hx hd => (hall x hx hd).imp_right fun hm => ?_
      exact mem_append_left _ hm
    | @within h _ _ _ _ hops hah =>
      obtain ⟨stale', rest', hah'⟩ := hah.retire hA hp hr
      exact .within hops hah'
  | @pushed a op s' hp hclear hnext ht ho hh hf hk =>
    have hal : a ∉ l := fun hm => by simp [(hA.mem_iff a).mp hm] at hp
    have hget (x : Nat) (hx : x ≠ a) : s'.ops.get x = s.ops.get x := by
      rw [ho, Store.get_set_ne hx]
    have hA' : Active s' (a :: l) := by
      refine ⟨?_, fun x => ?_⟩
      · rw [hh]
        refine hA.chain.push (by simp [next, ho, hnext]) fun x hx => ?_
        rw [next, next, hget x fun hxa => hal (hxa ▸ hx)]
      · by_cases hx : x = a
        · subst hx
          simp [pending, ho, ht]
        · rw [mem_cons, or_iff_right hx, hA.mem_iff x, pending, pending, hget x hx]
    refine ⟨a :: l, hA'.keeps hk, hk.fault.trans hf, Phase.keeps ?_ hk⟩
    simpa using h'.apart hA hclear hget (suffix_cons a l)
  | @freed a s' hp hclear ho hh hf hk =>
    have hal : a ∉ l := fun hm => by simp [(hA.mem_iff a).mp hm] at hp
    have hget (x : Nat) (hx : x ≠ a) : s'.ops.get x = s.ops.get x := by
      rw [ho, Store.get_free_ne hx]
    have hA' : Active s' l := by
      refine ⟨?_, fun x => ?_⟩
      · rw [hh]
        refine hA.chain.congr fun x hx => ?_
        rw [next, next, hget x fun hxa => hal (hxa ▸ hx)]
      · by_cases hx : x = a
        · subst hx
          simp [hal, pending, ho]
        · rw [hA.mem_iff x, pending, pending, hget x hx]
    refine ⟨l, hA'.keeps hk, hk.fault.trans hf, Phase.keeps ?_ hk⟩
    simpa using h'.apart hA hclear hget (suffix_refl l)

/-! ## The loop -/

theorem next_eq (hop : s.ops.get a = some op) : s.next a = op.next := by
  simp [next, hop]

/-- A write to an operation that changes neither its link nor its state. -/
theorem Active.setOp {op' : KlAsyncOp} (hA : Active s l) (hop : s.ops.get a = some op)
    (hn : op'.next = op.next) (ht : op'.terminal = op.terminal) : Active (s.setOp a op') l := by
  refine ⟨hA.chain.congr fun x _ => ?_, fun x => ?_⟩
  · by_cases hx : x = a
    · subst hx
      rw [next_setOp_self, next_eq hop, hn]
    · exact next_setOp_ne hx
  · by_cases hx : x = a
    · subst hx
      rw [hA.mem_iff x, pending, hop, pending, setOp, Store.get_set_self]
      simp [ht]
    · rw [hA.mem_iff x, pending_congr (data_setOp_ne hx)]

/-- The cursor moves on. -/
theorem Ahead.step {rest' : List Nat} {nx : Option Nat}
    (h' : Ahead s l h ops (some a) [] (a :: rest')) (hnx : s.next a = nx)
    (hskip : s.due h.now a = false) : Ahead s l h ops nx [] rest' where
  chain := hnx ▸ h'.chain.2
  suffix := (suffix_cons a rest').trans h'.suffix
  terminal := nofun
  order := ((sublist_cons_self a rest').append_left h.calls).trans h'.order
  due x hx hd := by
    refine (h'.due x hx hd).imp_right (Or.imp_right fun hr => ?_)
    rcases mem_cons.mp hr.1 with rfl | hm
    · rw [hskip] at hr
      cases hr.2
    · exact ⟨hm, hr.2⟩

theorem Ahead.stepStale {stale' : List Nat}
    (h' : Ahead s l h ops (some a) (a :: stale') rest) (hnx : s.next a = nx) :
    Ahead s l h ops nx stale' rest where
  chain := hnx ▸ h'.chain.2
  suffix := h'.suffix
  terminal x hx := h'.terminal x (mem_cons_of_mem a hx)
  order := ((sublist_cons_self a _).append_left h.calls).trans h'.order
  due := h'.due

/-- What the sweep leaves when it calls `on_deadline` or ends. -/
structure Swept (s : AsyncServer) (l : List Nat) (h : Sweep) (o : AOut) : Prop where
  active : Active o.state l
  fault : o.state.fault = s.fault
  phase : Phase o.state l (some { h with calls := h.calls ++ callsOf o }) (cursors (o.stack []))
  pending : ∀ a ∈ callsOf o, o.state.pending a = true

theorem Ahead.finish (h' : Ahead s l h ops none [] []) (hops : Active h.start ops)
    (hA : Active s l) : Swept s l h (.done s 0) where
  active := hA
  fault := rfl
  phase := by
    refine .through hops (by simpa [callsOf] using h'.order) fun x hx hd => ?_
    simpa [callsOf] using h'.due x hx hd
  pending := nofun

theorem Ahead.call {rest' : List Nat}
    (h' : Ahead s l h ops (some a) [] (a :: rest')) (hnx : s.next a = nx)
    (hops : Active h.start ops) (hA : Active s' l) (hf : s'.fault = s.fault)
    (hp : s'.pending a = true) (hget : ∀ x ∈ [] ++ rest', s'.ops.get x = s.ops.get x) :
    Swept s l h (.call s' (.onDeadline a h.now nx)) where
  active := hA
  fault := hf
  phase := by
    have hn : ∀ x ∈ rest', s'.next x = s.next x := fun x hx => by rw [next, next, hget x hx]
    have hdue : ∀ x ∈ rest', s'.due h.now x = s.due h.now x := fun x hx => by
      rw [AsyncServer.due, AsyncServer.due, hget x hx]
    have hahead : Ahead s' l { h with calls := h.calls ++ [a] } ops nx [] rest' :=
      { chain := hnx ▸ h'.chain.2.congr hn
        suffix := (suffix_cons a rest').trans h'.suffix
        terminal := fun x hx => absurd hx not_mem_nil
        order := by simpa using h'.order
        due := fun x hx hd => by
          rcases h'.due x hx hd with hc | hr | ⟨hm, hd'⟩
          · exact .inl (mem_append_left _ hc)
          · exact .inr (.inl hr)
          · rcases mem_cons.mp hm with rfl | hm
            · exact .inl (mem_append_right _ mem_cons_self)
            · exact .inr (.inr ⟨hm, (hdue x hm).trans hd'⟩) }
    exact .within hops hahead
  pending x hx := by
    obtain rfl : x = a := by simpa [callsOf] using hx
    exact hp

/-- From a cursor with a way ahead of it, the loop reads live cells only and stops at
the next operation that is due. The induction is on the bound: each round takes one
cell off the way. -/
theorem sweepLoop_spec {n : Nat} (hops : Active h.start ops) (hA : Active s l)
    (hah : Ahead s l h ops cur stale rest) (hn : (stale ++ rest).length ≤ n) :
    Swept s l h (s.sweepLoop h.now n cur) := by
  induction n generalizing s cur stale rest with
  | zero =>
    have hnil : stale ++ rest = [] := eq_nil_of_length_eq_zero (Nat.le_zero.mp hn)
    obtain ⟨rfl, rfl⟩ := append_eq_nil_iff.mp hnil
    obtain rfl : cur = none := hah.chain
    exact hah.finish hops hA
  | succ n ih =>
    cases cur with
    | none =>
      obtain ⟨rfl, rfl⟩ := append_eq_nil_iff.mp hah.chain.nil_of_none
      exact hah.finish hops hA
    | some a =>
      cases stale with
      | cons b stale' =>
        -- a stale cell: its flag is set, and its link leads on
        obtain ⟨heq, -⟩ := hah.chain
        cases heq
        obtain ⟨op, hop, ht⟩ := hah.terminal a mem_cons_self
        simp only [sweepLoop, hop, ht, Bool.not_true, Bool.false_and, Bool.false_eq_true, if_false]
        exact ih hA (hah.stepStale (next_eq hop)) (by simpa using hn)
      | nil =>
        cases rest with
        | nil => cases hah.chain
        | cons b rest' =>
          obtain ⟨heq, -⟩ := hah.chain
          cases heq
          obtain ⟨op, hop, ht⟩ := hA.exists_op (hah.suffix.subset mem_cons_self)
          have hlen : ([] ++ rest').length ≤ n := by simpa using hn
          simp only [sweepLoop, hop]
          split
          · next hdue =>
            have hA' : Active (s.setOp a { op with deadlineMs := 0 }) l := hA.setOp hop rfl rfl
            have hnodup : a ∉ rest' := (nodup_cons.mp hah.chain.nodup).1
            have hget (x : Nat) (hx : x ∈ [] ++ rest') :
                (s.setOp a { op with deadlineMs := 0 }).ops.get x = s.ops.get x :=
              Store.get_set_ne fun hxa => hnodup (hxa ▸ hx)
            split
            · have hp : (s.setOp a { op with deadlineMs := 0 }).pending a = true := by
                simp [pending, setOp, ht]
              exact hah.call (next_eq hop) hops hA' rfl hp hget
            · next hcb =>
              have hskip : s.due h.now a = false := by simp [due, hop, hcb]
              have hah' := (hah.step (next_eq hop) hskip).frame hget (suffix_refl l)
              have hrec := ih hA' hah' hlen
              exact ⟨hrec.active, hrec.fault, hrec.phase, hrec.pending⟩
          · next hdue =>
            have hskip : s.due h.now a = false := by
              simp [due, hop, hdue]
            exact ih hA (hah.step (next_eq hop) hskip) hlen

end

/-! ## Whole runs -/

/-- What a run of callbacks that keep to the rules preserves. -/
structure SweepRun (tr : List AStep) (s : AsyncServer) (st : List Frame) (l : List Nat) : Prop where
  active : Active s l
  fault : s.fault = none
  phase : Phase s l (lastSweep tr) (cursors st)
  calls : ∀ x ∈ tr, ∀ a ∈ callsOf x.out, x.out.state.pending a = true

section

variable {tr : List AStep} {s : AsyncServer} {st : List Frame} {l : List Nat} {x : AStep}

theorem calls_append (h : ∀ x ∈ tr, ∀ a ∈ callsOf x.out, x.out.state.pending a = true)
    (hx : ∀ a ∈ callsOf x.out, x.out.state.pending a = true) :
    ∀ y ∈ tr ++ [x], ∀ a ∈ callsOf y.out, y.out.state.pending a = true := by
  intro y hy
  rcases mem_append.mp hy with hy | hy
  · exact h y hy
  · rw [mem_singleton.mp hy]
    exact hx

variable {rs : List Nat}

/-- A step of code outside of the sweep. -/
theorem SweepRun.effect (h : SweepRun tr x.pre st l)
    (he : Effect x.pre l st x.out rs) (hcalls : callsOf x.out = [])
    (hcur : cursors (x.out.stack st) = cursors st) (hrec : Sweep.record (lastSweep tr) x =
      (lastSweep tr).map fun h =>
      { h with calls := h.calls ++ callsOf x.out, retired := h.retired ++ rs }) :
    ∃ l', SweepRun (tr ++ [x]) x.out.state (x.out.stack st) l' := by
  obtain ⟨l', hA, hf, hp⟩ := h.phase.effect h.active he
  refine ⟨l', hA, hf.trans h.fault, ?_, calls_append h.calls (by simp [hcalls])⟩
  rw [lastSweep_append, hrec, hcur]
  simpa [hcalls] using hp

/-- A step of the sweep. -/
theorem SweepRun.swept {h : Sweep} (h' : SweepRun tr x.pre st l) (hs : Swept x.pre l h x.out)
    (hrec : Sweep.record (lastSweep tr) x = some { h with calls := h.calls ++ callsOf x.out })
    {rest : List Frame} (hrest : cursors rest = []) :
    SweepRun (tr ++ [x]) x.out.state (x.out.stack rest) l where
  active := hs.active
  fault := hs.fault.trans h'.fault
  phase := by
    have hcur : cursors (x.out.stack rest) = cursors (x.out.stack []) := by
      rw [Out.stack_eq, Out.stack_eq, cursors, cursors, filterMap_append, filterMap_append,
        ← cursors, ← cursors, ← cursors, hrest]
      rfl
    rw [lastSweep_append, hrec, hcur]
    exact hs.phase
  calls := calls_append h'.calls hs.pending

theorem Effect.quiet {o : AOut} (he : Effect s l st o rs) : ∃ s', Keeps s' o := by
  cases he with
  | same hk => exact ⟨_, hk⟩
  | retired _ _ hk => exact ⟨_, hk⟩
  | pushed _ _ _ _ _ _ _ _ _ hk => exact ⟨_, hk⟩
  | freed _ _ _ _ _ _ hk => exact ⟨_, hk⟩

end

theorem SweepRun.preserves : machine.Preserves Safe (fun tr s st => ∃ l, SweepRun tr s st l) where
  enter := by
    rintro tr s st op ⟨l, h⟩ hp
    by_cases hop : ∃ now, op = .sweep now
    · obtain ⟨now, rfl⟩ := hop
      -- the server loop is outside of every callback
      obtain rfl : st = [] := hp.1
      refine ⟨l, h.swept (h := ⟨s, now, [], []⟩) ?_ rfl rfl⟩
      have hah : Ahead s l ⟨s, now, [], []⟩ l s.asyncOps [] l :=
        ⟨h.active.chain, suffix_refl l, nofun, List.Sublist.refl l,
          fun x hx hd => .inr (.inr ⟨hx, hd⟩)⟩
      refine sweepLoop_spec h.active h.active hah (Store.length_le h.active.chain.nodup ?_)
      exact fun x hx => hah.exists_op h.active hx
    · have hop : ∀ now, op ≠ .sweep now := fun now heq => hop ⟨now, heq⟩
      have he : Effect s l st (enter op s) (retiresOf s (.enter op)) := .enter h.active hop hp
      obtain ⟨s', hk⟩ := he.quiet
      refine h.effect he hk.callsOf (hk.cursors st) ?_
      cases op with
      | sweep now => exact absurd rfl (hop now)
      | _ => rfl
  resume := by
    rintro tr s st f v ⟨l, h⟩ -
    cases hf : f.isDeadline with
    | false =>
      have hk : Keeps s (afterHook f v s) := afterHook_keeps hf v
      have hcur : cursors (f :: st) = cursors st := by
        cases f with
        | onDeadline a now next => cases hf
        | _ => rfl
      have h' : SweepRun tr s st l := { h with phase := hcur ▸ h.phase }
      refine h'.effect (.same hk) hk.callsOf (hk.cursors st) ?_
      simp [Sweep.record, retiresOf]
    | true =>
      cases f with
      | onDeadline a now next =>
        have hp := h.phase
        rw [show cursors (.onDeadline a now next :: st) = (now, next) :: cursors st from rfl] at hp
        generalize hcs : (now, next) :: cursors st = cs at hp
        generalize hh : lastSweep tr = hist at hp
        cases hp with
        | none => cases hcs
        | through _ _ _ => cases hcs
        | @within h₀ ops cur stale rest hops hah =>
          simp only [cons.injEq, Prod.mk.injEq] at hcs
          obtain ⟨⟨rfl, rfl⟩, hst⟩ := hcs
          refine ⟨l, SweepRun.swept
            (h := h₀) (show SweepRun tr s (.onDeadline a h₀.now next :: st) l from h) ?_ ?_ hst⟩
          · refine sweepLoop_spec hops h.active hah (Store.length_le hah.chain.nodup ?_)
            exact fun x hx => hah.exists_op h.active hx
          · rw [hh]
            simp [Sweep.record, retiresOf]
      | _ => cases hf

variable (conns : Nat → KlHttpConn)

/-- A server without operations. -/
def fresh : AsyncServer := { conns }

theorem SweepRun.start : SweepRun [] (fresh conns) [] [] where
  active := ⟨.nil, fun a => by simp [pending, fresh, Store.get]⟩
  fault := rfl
  phase := .none
  calls := by simp

/-- In every run in which the owners keep their contract and no operation ahead of a
sweep is freed or used again, no freed operation is read. `on_deadline` is called for
pending operations only. A sweep calls it at most once for an operation, and when it is
over it has called it for every operation that was due when it began, unless that was
retired first. -/
theorem sweep_safe (c : AConfig)
    (hc : machine.Reach Safe (fresh conns) c) :
    c.state.fault = none ∧
    (∀ x ∈ c.trace, ∀ a ∈ callsOf x.out, x.out.state.pending a = true) ∧
    ∀ h, lastSweep c.trace = some h → ∃ ops, Active h.start ops ∧ h.calls.Nodup ∧ h.calls ⊆ ops ∧
      (cursors c.stack = [] → ∀ a ∈ ops, h.start.due h.now a = true →
        a ∈ h.calls ∨ a ∈ h.retired) := by
  obtain ⟨l, h⟩ := hc.invariant ⟨[], .start conns⟩ SweepRun.preserves
  refine ⟨h.fault, h.calls, fun h₀ hh => ?_⟩
  have hp := h.phase
  rw [hh] at hp
  generalize cursors c.stack = cs at hp
  cases hp with
  | @through _ ops hops hsub hall =>
    exact ⟨ops, hops, hops.chain.nodup.sublist hsub, hsub.subset, fun _ => hall⟩
  | @within _ ops cur stale rest hops hah =>
    have hsub : h₀.calls.Sublist ops := (sublist_append_left _ _).trans hah.order
    exact ⟨ops, hops, hops.chain.nodup.sublist hsub, hsub.subset, nofun⟩

/-- Three operations that are due. The callback of the first completes the second, on
which the cursor stands, and the first. The sweep skips the second and goes on. -/
theorem sweep_safe_stale : ∃ c, machine.run Safe (Machine.start (fresh fun _ => {}))
        [.call (.suspend 1 1 5 false true false), .call (.suspend 2 2 5 false true false),
          .call (.suspend 3 3 5 false true false), .call (.sweep 10), .call (.complete 2), .ret 0,
          .call (.complete 3), .ret 0, .ret 0, .call (.complete 1), .ret 0, .ret 0] = some c ∧
      c.stack = [] ∧ (lastSweep c.trace).map Sweep.calls = some [3, 1] ∧
      c.state.fault = none := by
  exact Machine.exists_run ⟨_, rfl, fun hc => ⟨rfl, rfl, (sweep_safe _ _ hc).1⟩⟩

/-- Two operations that are due. The callback of the first cancels the second, whose
owner frees it in `on_cancel`. The sweep then reads the freed operation. -/
theorem sweep_reads_freed : ∃ c, machine.run Legal (Machine.start (fresh fun _ => {}))
        [.call (.suspend 1 1 5 false true true), .call (.suspend 2 2 5 false true false),
          .call (.sweep 10), .call (.cancel 1), .call (.free 1), .ret 0, .ret 0, .ret 0] = some c ∧
      (lastSweep c.trace).map Sweep.retired = some [1] ∧ c.state.fault = some (.freed 1) :=
  ⟨_, rfl, rfl, rfl⟩

end AsyncServer
