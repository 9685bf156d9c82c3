-- SUMMARY: An event reaches the registration it was captured for, or nobody.
import Keel.Event.Watchers

/-!
# Dispatch

The addresses that open batches name stay with the registrations they were captured for: while a
batch is open no node is freed, so none is given out again. `pairs` is that correspondence.
-/

open List

namespace Watch

open Reentrant

namespace KlEventCtx

/-- The addresses in use, with the registrations they stand for. -/
def pairs (s : KlEventCtx) : List (Nat × Nat) :=
  (s.watchers ++ s.retired).map fun e => (e.node, e.reg)

/-- What holds of a context, whatever is open. -/
structure Wf (s : KlEventCtx) : Prop where
  nodes : s.nodes.Nodup
  fds : (s.watchers.map (·.fd)).Nodup
  loop : ∀ p ∈ s.loop, ∃ e ∈ s.watchers, e.fd = p.1 ∧ e.node = p.2
  drained : s.dispatchDepth = 0 → s.retired = []
  fresh : ∀ r ∈ s.watchers.map (·.reg) ++ s.deleted, r < s.nextReg
  regs : (s.watchers.map (·.reg) ++ s.deleted).Nodup
  deleted : s.deleted.Perm (s.reclaimed.map (·.1) ++ s.retired.map (·.reg))
  zero : ∀ p ∈ s.reclaimed, p.2 = 0

/-- The brackets are as they were, and so are the addresses in use while one is open. -/
structure Keeps (s s' : KlEventCtx) : Prop where
  wf : s'.Wf
  depth : s'.dispatchDepth = s.dispatchDepth
  own : s'.own = s.own
  held : s'.held = s.held
  pairs : 0 < s.dispatchDepth → s.pairs ⊆ s'.pairs

variable {w : EventWorld} {s s' s'' : KlEventCtx} {fd node : Nat}

theorem Wf.keeps (h : s.Wf) : s.Keeps s := ⟨h, rfl, rfl, rfl, fun _ => List.Subset.refl _⟩

theorem Keeps.trans (h : s.Keeps s') (h' : s'.Keeps s'') : s.Keeps s'' :=
  ⟨h'.wf, h'.depth.trans h.depth, h'.own.trans h.own, h'.held.trans h.held,
    fun hopen => List.Subset.trans (h.pairs hopen) (h'.pairs (h.depth.symm ▸ hopen))⟩

/-! ## Registration -/

/-- Nothing changes that a watcher is known by. -/
theorem Wf.update (h : s.Wf) {f : KlWatcher → KlWatcher}
    (hf : ∀ e, (f e).node = e.node ∧ (f e).fd = e.fd ∧ (f e).reg = e.reg) :
    s.Keeps (s.update fd f) := by
  have hmap {β : Type} (g : KlWatcher → β) (hg : ∀ e, g (f e) = g e) : (s.update fd f).watchers.map
      g = s.watchers.map g := by
    show (s.watchers.map _).map g = _
    rw [map_map]
    refine map_congr_left fun e _ => ?_
    simp only [Function.comp_apply]
    split
    · exact hg e
    · rfl
  have hnode := hmap (·.node) fun e => (hf e).1
  have hfd := hmap (·.fd) fun e => (hf e).2.1
  have hreg := hmap (·.reg) fun e => (hf e).2.2
  have hpair := hmap (fun e => (e.node, e.reg)) fun e => by rw [(hf e).1, (hf e).2.2]
  have hwf : (s.update fd f).Wf := by
    refine ⟨?_, ?_, fun p hp => ?_, h.drained, ?_, ?_, h.deleted, h.zero⟩
    · show (((s.update fd f).watchers ++ s.retired).map (·.node)).Nodup
      rw [map_append, hnode, ← map_append]
      exact h.nodes
    · rw [hfd]
      exact h.fds
    · obtain ⟨e, he, hefd, henode⟩ := h.loop p hp
      refine ⟨if e.fd = fd then f e else e, mem_map_of_mem he, ?_, ?_⟩
      · split
        · exact (hf e).2.1.trans hefd
        · exact hefd
      · split
        · exact (hf e).1.trans henode
        · exact henode
    · rw [hreg]
      exact h.fresh
    · rw [hreg]
      exact h.regs
  refine ⟨hwf, rfl, rfl, rfl, fun _ => ?_⟩
  show s.pairs ⊆ ((s.update fd f).watchers ++ s.retired).map _
  rw [map_append, hpair, ← map_append]
  exact List.Subset.refl _

theorem Wf.dirty (h : s.Wf) (b : Bool) : s.Keeps { s with dispatchDirty := b } :=
  ⟨⟨h.nodes, h.fds, h.loop, h.drained, h.fresh, h.regs, h.deleted, h.zero⟩, rfl, rfl, rfl, fun _ =>
    List.Subset.refl _⟩

variable {e : KlWatcher} {ev : KlEvent}

/-- The backend names the node of a descriptor's watcher for it. -/
theorem Wf.eventMod (h : s.Wf) (he : e ∈ s.watchers) (hfd : e.fd = fd)
    (hnode : e.node = node) : s.Keeps (s.eventMod w fd node).1 := by
  unfold KlEventCtx.eventMod
  split
  · refine ⟨⟨h.nodes, h.fds, fun p hp => ?_, h.drained, h.fresh, h.regs, h.deleted, h.zero⟩, rfl,
      rfl, rfl, fun _ => List.Subset.refl _⟩
    rcases mem_cons.mp hp with rfl | hp
    · exact ⟨e, he, hfd, hnode⟩
    · exact h.loop p (mem_of_mem_filter hp)
  · exact ⟨⟨h.nodes, h.fds, h.loop, h.drained, h.fresh, h.regs, h.deleted, h.zero⟩, rfl, rfl, rfl,
      fun _ => List.Subset.refl _⟩

theorem find_fd (h : s.watchers.find? (·.fd == fd) = some e) : e ∈ s.watchers ∧ e.fd = fd :=
  ⟨mem_of_find?_eq_some h, beq_iff_eq.mp (find?_some (p := fun e : KlWatcher => e.fd == fd) h)⟩

/-- A watcher that was found is changed in place and armed. -/
theorem Wf.updateArm (h : s.Wf) (he : s.watchers.find? (·.fd == fd) = some e)
    {f : KlWatcher → KlWatcher}
    (hf : ∀ e, (f e).node = e.node ∧ (f e).fd = e.fd ∧ (f e).reg = e.reg) :
    s.Keeps ({ s.update fd f with dispatchDirty := true }.eventMod w fd e.node).1 := by
  obtain ⟨hmem, hfd⟩ := find_fd he
  have hupdate : s.Keeps (s.update fd f) := h.update hf
  have hdirty : (s.update fd f).Keeps { s.update fd f with dispatchDirty := true } :=
    hupdate.wf.dirty true
  have hfound : f e ∈ (s.update fd f).watchers := mem_map.mpr ⟨e, hmem, if_pos hfd⟩
  exact hupdate.trans (hdirty.trans (hdirty.wf.eventMod hfound ((hf e).2.1.trans hfd) (hf e).1))

theorem mallocNode_fresh (h : s.mallocNode w = some node) : node ∉ s.nodes := by
  obtain ⟨-, hfree⟩ := Option.filter_eq_some_iff.mp h
  intro hmem
  rw [contains_iff_mem.mpr hmem] at hfree
  exact Bool.false_ne_true hfree

/-- A node is linked, and the backend may name it. -/
theorem Wf.link (h : s.Wf) (hnode : node ∉ s.nodes) (hfd : s.watchers.find? (·.fd == fd) = none)
    (mask onReady userData : Nat) {loop : List (Nat × Nat)}
    (hloop : ∀ p ∈ loop, p = (fd, node) ∨ p ∈ s.loop) {allocs adds : Nat} : s.Keeps { s with
      allocs, adds, nextReg := s.nextReg + 1, loop
      watchers := { node, fd, mask, onReady, userData, reg := s.nextReg } :: s.watchers } := by
  have hnotin : fd ∉ s.watchers.map (·.fd) := by
    intro hmem
    obtain ⟨e, he, heq⟩ := mem_map.mp hmem
    exact absurd (beq_iff_eq.mpr heq) (find?_eq_none.mp hfd e he)
  refine ⟨⟨nodup_cons.mpr ⟨hnode, h.nodes⟩, nodup_cons.mpr ⟨hnotin, h.fds⟩, fun p hp => ?_,
    h.drained, ?_, ?_, h.deleted, h.zero⟩, rfl, rfl, rfl, fun _ => subset_cons_self _ _⟩
  · rcases hloop p hp with rfl | hp
    · exact ⟨_, mem_cons_self, rfl, rfl⟩
    · obtain ⟨e, he, hpair⟩ := h.loop p hp
      exact ⟨e, mem_cons_of_mem _ he, hpair⟩
  · intro r hr
    rcases mem_cons.mp hr with rfl | hr
    · exact Nat.lt_succ_self _
    · exact Nat.lt_succ_of_lt (h.fresh r hr)
  · exact nodup_cons.mpr ⟨fun hmem => Nat.lt_irrefl _ (h.fresh _ hmem), h.regs⟩

/-- Only the oracles are asked. -/
theorem Wf.asked (h : s.Wf) (allocs adds : Nat) : s.Keeps { s with allocs, adds } :=
  ⟨⟨h.nodes, h.fds, h.loop, h.drained, h.fresh, h.regs, h.deleted, h.zero⟩, rfl, rfl, rfl, fun _ =>
    List.Subset.refl _⟩

theorem Wf.watcherAdd (h : s.Wf) (fd mask onReady userData : Nat) :
    s.Keeps (s.watcherAdd w fd mask onReady userData).1 := by
  unfold KlEventCtx.watcherAdd
  split
  · next e he => exact h.updateArm he fun e => ⟨rfl, rfl, rfl⟩
  next hnone =>
  split
  · exact h.asked (s.allocs + 1) s.adds
  next node hnode =>
  split
  · refine h.link (mallocNode_fresh hnode) hnone mask onReady userData fun p hp => ?_
    rcases mem_cons.mp hp with rfl | hp
    · exact .inl rfl
    · exact .inr (mem_of_mem_filter hp)
  · exact h.asked _ _

theorem Wf.watcherAddDetached (h : s.Wf) (fd onReady userData : Nat) :
    s.Keeps (s.watcherAddDetached w fd onReady userData).1 := by
  unfold KlEventCtx.watcherAddDetached
  split
  · exact h.update fun e => ⟨rfl, rfl, rfl⟩
  next hnone =>
  split
  · exact h.asked (s.allocs + 1) s.adds
  next node hnode =>
    exact h.link (mallocNode_fresh hnode) hnone _ onReady userData fun p hp => .inr hp

theorem Wf.watcherMod (h : s.Wf) (fd mask : Nat) : s.Keeps (s.watcherMod w fd mask).1 := by
  unfold KlEventCtx.watcherMod
  split
  · exact h.keeps
  · next e he => exact h.updateArm he fun e => ⟨rfl, rfl, rfl⟩

theorem Wf.watcherRearm (h : s.Wf) (fd : Nat) : s.Keeps (s.watcherRearm w fd).1 := by
  unfold KlEventCtx.watcherRearm
  split
  · exact h.keeps
  · next e he => exact h.eventMod (find_fd he).1 (find_fd he).2 rfl

/-! ## Deletion -/

/-- The watcher of a descriptor and the others. -/
theorem erase_perm (he : s.watchers.find? (·.fd == fd) = some e) :
    s.watchers.Perm (e :: s.watchers.eraseP (·.fd == fd)) := by
  obtain ⟨hp, as, bs, hsplit, hno⟩ := find?_eq_some_iff_append.mp he
  have hbefore : ∀ a ∈ as, ¬(fun b : KlWatcher => b.fd == fd) a = true := by
    intro a ha heq
    have hnot : (a.fd == fd) = false := (Bool.not_eq_true' _).mp (hno a ha)
    exact Bool.false_ne_true (hnot.symm.trans heq)
  have hrest : (e :: bs).eraseP (fun b : KlWatcher => b.fd == fd) = bs := eraseP_cons_of_pos hp
  rw [hsplit, eraseP_append_right _ hbefore, hrest]
  exact perm_middle

theorem Wf.watcherDel (h : s.Wf) (fd : Nat) : s.Keeps (s.watcherDel fd) := by
  unfold KlEventCtx.watcherDel
  split
  · exact h.keeps
  next e he =>
  have hperm := erase_perm he
  have hfds : ((e :: s.watchers.eraseP (·.fd == fd)).map (·.fd)).Nodup :=
    (hperm.map _).nodup_iff.mp h.fds
  have hloop : ∀ p ∈ s.loop.filter (·.1 != fd), ∃ e ∈ s.watchers.eraseP (·.fd == fd), e.fd = p.1 ∧
      e.node = p.2 := by
    intro p hp
    obtain ⟨hp, hne⟩ := mem_filter.mp hp
    obtain ⟨e', he', hfd', hnode'⟩ := h.loop p hp
    rcases mem_cons.mp (hperm.mem_iff.mp he') with rfl | he'
    · exact absurd (hfd'.symm.trans (find_fd he).2) (bne_iff_ne.mp hne)
    · exact ⟨e', he', hfd', hnode'⟩
  have hregs : (s.watchers.map (·.reg) ++ s.deleted).Perm ((s.watchers.eraseP (·.fd == fd)).map
      (·.reg) ++ (s.deleted ++ [e.reg])) := by
    rw [← append_assoc]
    exact ((hperm.map _).append_right _).trans (perm_append_singleton e.reg _).symm
  have hfresh : ∀ r ∈ (s.watchers.eraseP (·.fd == fd)).map (·.reg) ++ (s.deleted ++ [e.reg]),
      r < s.nextReg := fun r hr =>
    h.fresh r (hregs.mem_iff.mpr hr)
  have hgone : (s.deleted ++ [e.reg]).Perm
      (s.reclaimed.map (·.1) ++ e.reg :: s.retired.map (·.reg)) :=
    (perm_append_singleton e.reg _).trans ((h.deleted.cons e.reg).trans perm_middle.symm)
  have hkept : (s.watchers ++ s.retired).Perm (s.watchers.eraseP (·.fd == fd) ++ e :: s.retired) :=
    (hperm.append_right _).trans perm_middle.symm
  dsimp only
  split
  · next hopen =>
    refine ⟨⟨(hkept.map _).nodup_iff.mp h.nodes, (nodup_cons.mp hfds).2, hloop, fun hzero => ?_,
      hfresh, hregs.nodup_iff.mp h.regs,
      hgone, h.zero⟩, rfl, rfl, rfl, fun _ => (hkept.map _).subset⟩
    exact absurd hzero (Nat.ne_of_gt hopen)
  rename_i hclosed
  have hzero : s.dispatchDepth = 0 := Nat.eq_zero_of_not_pos hclosed
  have hnone : s.retired = [] := h.drained hzero
  refine ⟨⟨?_, (nodup_cons.mp hfds).2, hloop, fun _ => hnone, hfresh, hregs.nodup_iff.mp h.regs, ?_,
    fun p hp => ?_⟩, rfl, rfl, rfl, fun hopen => absurd hopen hclosed⟩
  · have hall : ((s.watchers.eraseP (·.fd == fd) ++ e :: s.retired).map (·.node)).Nodup :=
      (hkept.map _).nodup_iff.mp h.nodes
    exact hall.sublist (((sublist_cons_self e s.retired).append_left _).map _)
  · show (s.deleted ++ [e.reg]).Perm ((s.reclaimed ++ [(e.reg, s.dispatchDepth)]).map (·.1) ++
      s.retired.map (·.reg))
    rw [hnone] at hgone ⊢
    rw [map_append, map_nil, append_nil]
    exact hgone
  · rcases mem_append.mp hp with hp | hp
    · exact h.zero p hp
    · rw [mem_singleton.mp hp]
      exact hzero

/-- The nodes kept back are freed when the outermost bracket closes, and only then. -/
theorem Wf.dispatchEnd (h : s.Wf) :
    s.dispatchEnd.Wf ∧ s.dispatchEnd.dispatchDepth = s.dispatchDepth - 1 ∧
    s.dispatchEnd.own = s.own ∧ s.dispatchEnd.held = s.held ∧
      (1 < s.dispatchDepth → s.dispatchEnd.pairs = s.pairs) := by
  unfold KlEventCtx.dispatchEnd
  split
  · next hzero => exact ⟨h, by rw [hzero], rfl, rfl, fun _ => rfl⟩
  dsimp only
  split
  · next hlast =>
    refine ⟨⟨?_, h.fds, h.loop, fun _ => rfl, h.fresh, h.regs, ?_, fun p hp => ?_⟩, rfl, rfl, rfl,
      fun hmore => absurd hlast (Nat.ne_of_gt (Nat.sub_pos_of_lt hmore))⟩
    · show ((s.watchers ++ []).map fun e : KlWatcher => e.node).Nodup
      exact h.nodes.sublist (((nil_sublist s.retired).append_left _).map _)
    · show s.deleted.Perm ((s.reclaimed ++ s.retired.map fun e => (e.reg, s.dispatchDepth - 1)).map
        (·.1) ++ [])
      rw [append_nil, map_append, map_map]
      exact h.deleted
    · rcases mem_append.mp hp with hp | hp
      · exact h.zero p hp
      · obtain ⟨e, -, rfl⟩ := mem_map.mp hp
        exact hlast
  · next hopen =>
    exact ⟨⟨h.nodes, h.fds, h.loop, fun hzero => absurd hzero hopen, h.fresh, h.regs, h.deleted,
      h.zero⟩, rfl, rfl, rfl, fun _ => rfl⟩

theorem Wf.dispatchBegin (h : s.Wf) (hs : s.dispatchBegin = some s') :
    s'.Wf ∧ s'.dispatchDepth = s.dispatchDepth + 1 ∧ s'.own = s.own ∧ s'.held = s.held ∧
    s'.pairs = s.pairs := by
  unfold KlEventCtx.dispatchBegin at hs
  split at hs
  · cases hs
  · cases hs
    exact ⟨⟨h.nodes, h.fds, h.loop, fun hzero => absurd hzero (Nat.succ_ne_zero _), h.fresh, h.regs,
      h.deleted, h.zero⟩, rfl, rfl, rfl, rfl⟩

/-! ## Capture -/

/-- An event that is captured names the address of a watcher and its registration. -/
theorem capture_known (h : s.Wf) {src : Source} {ready : Nat}
    (hev : s.capture src ready = some ev) : (ev.node, ev.reg) ∈ s.pairs := by
  have hfor : ∀ e ∈ s.watchers, ((s.eventFor e.node ready).node,
      (s.eventFor e.node ready).reg) ∈ s.pairs := by
    intro e he
    unfold eventFor
    cases hfind : s.watchers.find? (·.node == e.node) with
    | none => exact absurd (beq_self_eq_true e.node) (find?_eq_none.mp hfind e he)
    | some e' =>
      have hnode : e'.node = e.node :=
        beq_iff_eq.mp (find?_some (p := fun e' : KlWatcher => e'.node == e.node) hfind)
      refine mem_map.mpr ⟨e', mem_append_left _ (mem_of_find?_eq_some hfind), ?_⟩
      rw [hnode]
  cases src with
  | ready fd =>
    obtain ⟨p, hp, rfl⟩ := Option.map_eq_some_iff.mp hev
    obtain ⟨e, he, -, hnode⟩ := h.loop p (mem_of_find?_eq_some hp)
    rw [← hnode]
    exact hfor e he
  | connect fd =>
    obtain ⟨e, he, rfl⟩ := Option.map_eq_some_iff.mp hev
    exact hfor e (find_fd he).1

theorem eventWait_known (h : s.Wf) {reports : List (Source × Nat)} {ev : KlEvent}
    (hev : ev ∈ s.eventWait reports) : (ev.node, ev.reg) ∈ s.pairs := by
  obtain ⟨r, -, hcap⟩ := mem_filterMap.mp hev
  exact capture_known h hcap

/-- An address in use stands for one registration. -/
theorem reg_of_node (h : s.Wf) (he : e ∈ s.watchers) {reg : Nat}
    (hpair : (e.node, reg) ∈ s.pairs) : reg = e.reg := by
  obtain ⟨e', he', heq⟩ := mem_map.mp hpair
  have hnode : e'.node = e.node := congrArg Prod.fst heq
  have hsame : e' = e := inj_on_of_nodup_map h.nodes he' (mem_append_left _ he) hnode
  exact (congrArg Prod.snd heq).symm.trans (congrArg (·.reg) hsame)

/-! ## Open batches -/

/-- The events that wait on the stack. -/
def waiting (st : List WatchFrame) : List KlEvent := st.flatMap (·.rest)

/-- Every bracket is accounted for, and every event that waits names an address in use by the
registration it was captured for. `more` brackets are open besides, and `evs` wait besides. -/
structure Tracked (s : KlEventCtx) (st : List WatchFrame) (more : Nat) (evs : List KlEvent) :
    Prop where
  wf : s.Wf
  depth : s.dispatchDepth = s.own + st.countP (·.batch) + more
  held : s.held ≠ [] → 0 < s.own
  rest : ∀ f ∈ st, f.rest ≠ [] → f.batch = true
  known : ∀ ev ∈ s.held ++ waiting st ++ evs, (ev.node, ev.reg) ∈ s.pairs

variable {st : List WatchFrame} {more : Nat} {evs : List KlEvent}

/-- No event waits outside of a bracket. -/
theorem Tracked.bracketed (h : s.Tracked st more evs)
    (hev : ev ∈ s.held ++ waiting st) : 0 < s.own + st.countP (·.batch) := by
  rcases mem_append.mp hev with hev | hev
  · exact Nat.add_pos_left (h.held (ne_nil_of_mem hev)) _
  · obtain ⟨f, hf, hrest⟩ := mem_flatMap.mp hev
    exact Nat.add_pos_right _ (countP_pos_iff.mpr ⟨f, hf, h.rest f hf (ne_nil_of_mem hrest)⟩)

theorem Tracked.keeps (h : s.Tracked st 0 []) (hs : s.Keeps s') : s'.Tracked st 0 [] := by
  refine ⟨hs.wf, ?_, ?_, h.rest, fun ev hev => ?_⟩
  · rw [hs.depth, hs.own]
    exact h.depth
  · rw [hs.held, hs.own]
    exact h.held
  · rw [hs.held] at hev
    have hopen : 0 < s.dispatchDepth := by
      rw [h.depth]
      exact h.bracketed (append_nil (s.held ++ waiting st) ▸ hev)
    exact hs.pairs hopen (h.known ev hev)

/-- The callback is that of the registration which the event was captured for, and it is still
registered. -/
def Delivered (s : KlEventCtx) (f : WatchFrame) : Prop :=
  f.delivered = f.captured ∧ ∃ e ∈ s.watchers, e.reg = f.captured ∧ e.fd = f.fd ∧
    e.onReady = f.onReady ∧ e.userData = f.userData

/-- What a stretch of code leaves. -/
structure Leaves (o : Out KlEventCtx WatchFrame Int) (st : List WatchFrame) : Prop where
  tracked : o.state.Tracked (o.stack st) 0 []
  delivered : ∀ f, o.hook = some f → o.state.Delivered f

theorem Tracked.leaves (h : s.Tracked st 0 []) {r : Int} : Leaves (.done s r) st := ⟨h, Out.no_hook⟩

/-- The end of a batch. -/
theorem Tracked.dispatchEnd (h : s.Tracked st 1 []) : s.dispatchEnd.Tracked st 0 [] := by
  obtain ⟨hwf, hdepth, hown, hheld, hpairs⟩ := h.wf.dispatchEnd
  refine ⟨hwf, ?_, ?_, h.rest, fun ev hev => ?_⟩
  · rw [hdepth, hown, h.depth]
    rfl
  · rw [hheld, hown]
    exact h.held
  · rw [hheld] at hev
    have hmore : 1 < s.dispatchDepth := by
      rw [h.depth]
      exact Nat.succ_lt_succ (h.bracketed (append_nil (s.held ++ waiting st) ▸ hev))
    rw [hpairs hmore]
    exact h.known ev hev

/-- Over the events of a batch, one by one. -/
theorem Tracked.dispatchEvents (batch : Bool) (h : s.Tracked st batch.toNat evs)
    (hone : batch = false → evs.length ≤ 1) : Leaves (dispatchEvents batch evs s) st := by
  induction evs with
  | nil =>
    cases batch with
    | true => exact h.dispatchEnd.leaves
    | false => exact h.leaves
  | cons ev rest ih =>
    have hknown : (ev.node, ev.reg) ∈ s.pairs := h.known ev (mem_append_right _ mem_cons_self)
    unfold KlEventCtx.dispatchEvents
    cases hfind : s.watchers.find? (·.node == ev.node) with
    | none =>
      refine ih ⟨h.wf, h.depth, h.held, h.rest, fun ev' hev' => h.known ev' ?_⟩ fun hb => ?_
      · exact mem_append.mpr ((mem_append.mp hev').imp_right (mem_cons_of_mem ev))
      · exact Nat.le_of_succ_le (hone hb)
    | some e =>
      have he : e ∈ s.watchers := mem_of_find?_eq_some hfind
      have hnode : e.node = ev.node :=
        beq_iff_eq.mp (find?_some (p := fun e : KlWatcher => e.node == ev.node) hfind)
      have hreg : ev.reg = e.reg := reg_of_node h.wf he (hnode.symm ▸ hknown)
      refine ⟨⟨(h.wf.dirty false).wf, ?_, h.held, fun f hf hrest => ?_, fun ev' hev' =>
        h.known ev' ?_⟩, fun f hf => ?_⟩
      · show s.dispatchDepth = s.own + countP _ (_ :: st) + 0
        rw [h.depth, countP_cons]
        cases batch <;> rfl
      · rcases mem_cons.mp hf with rfl | hf
        · cases batch with
          | true => rfl
          | false =>
            exact absurd
              (length_eq_zero_iff.mp (Nat.le_zero.mp (Nat.le_of_succ_le_succ (hone rfl)))) hrest
        · exact h.rest f hf hrest
      · simp only [Out.state_call, Out.stack_call, waiting, flatMap_cons, append_nil, mem_append,
          mem_cons] at hev' ⊢
        tauto
      · cases hf
        exact ⟨hreg.symm, e, he, hreg.symm, rfl, rfl, rfl⟩

/-! ## Every operation -/

/-- The caller's brackets are matched, and a batch is captured inside of one. -/
def Balanced (s : KlEventCtx) : WatchOp → Prop
  | .dispatchEnd => 0 < s.own
  | .wait _ => 0 < s.own
  | _ => True

instance (s : KlEventCtx) : ∀ op, Decidable (s.Balanced op)
  | .dispatchEnd => inferInstanceAs (Decidable (0 < s.own))
  | .wait _ => inferInstanceAs (Decidable (0 < s.own))
  | .add .. | .addDetached .. | .mod .. | .rearm _ | .del _ | .dispatchBegin | .dispatch _
    | .dispatchOne .. | .run _ => .isTrue trivial

section

variable (h : s.Tracked st 0 [])
include h

theorem Tracked.ownBegin : Leaves s.ownBegin st := by
  unfold KlEventCtx.ownBegin
  split
  · exact h.leaves
  next s' hs =>
  obtain ⟨hwf, hdepth, hown, hheld, hpairs⟩ := h.wf.dispatchBegin hs
  apply Tracked.leaves
  refine ⟨⟨hwf.nodes, hwf.fds, hwf.loop, hwf.drained, hwf.fresh, hwf.regs, hwf.deleted, hwf.zero⟩,
    ?_, fun _ => Nat.succ_pos _, h.rest, fun ev hev => ?_⟩
  · show s'.dispatchDepth = s'.own + 1 + _ + 0
    rw [hdepth, hown, h.depth]
    exact (Nat.add_right_comm _ 1 _).symm
  · show _ ∈ s'.pairs
    rw [hpairs]
    exact h.known ev (hheld ▸ hev)

theorem Tracked.ownEnd (hown : 0 < s.own) : Leaves s.ownEnd st := by
  obtain ⟨hwf, hdepth, hsame, hheld, hpairs⟩ := h.wf.dispatchEnd
  apply Tracked.leaves
  rw [hsame, hheld]
  refine ⟨⟨hwf.nodes, hwf.fds, hwf.loop, hwf.drained, hwf.fresh, hwf.regs, hwf.deleted, hwf.zero⟩,
    ?_, fun hne => ?_, h.rest, fun ev hev => ?_⟩
  · show s.dispatchEnd.dispatchDepth = s.own - 1 + _ + 0
    rw [hdepth, h.depth]
    exact Nat.sub_add_comm hown
  · by_cases hlast : s.own - 1 = 0
    · exact absurd (if_pos hlast) hne
    · exact Nat.pos_of_ne_zero hlast
  -- what still waits is inside of another bracket than the one closed
  have hmore : ev ∈ s.held ++ waiting st ∧ 1 < s.dispatchDepth := by
    rw [h.depth]
    rcases mem_append.mp (append_nil _ ▸ hev) with hev | hev
    · by_cases hlast : s.own - 1 = 0
      · rw [if_pos hlast] at hev
        exact absurd hev not_mem_nil
      · rw [if_neg hlast] at hev
        exact ⟨mem_append_left _ hev, by omega⟩
    · obtain ⟨f, hf, hrest⟩ := mem_flatMap.mp hev
      have hbatch : 0 < st.countP (·.batch) :=
        countP_pos_iff.mpr ⟨f, hf, h.rest f hf (ne_nil_of_mem hrest)⟩
      exact ⟨mem_append_right _ hev, by omega⟩
  show _ ∈ s.dispatchEnd.pairs
  rw [hpairs hmore.2]
  exact h.known ev (mem_append_left _ hmore.1)

theorem Tracked.wait (hown : 0 < s.own) (reports : List (Source × Nat)) :
    { s with held := s.held ++ s.eventWait reports }.Tracked st 0 [] := by
  refine ⟨⟨h.wf.nodes, h.wf.fds, h.wf.loop, h.wf.drained, h.wf.fresh, h.wf.regs, h.wf.deleted,
    h.wf.zero⟩, h.depth, fun _ => hown, h.rest, fun ev hev => ?_⟩
  simp only [append_nil, mem_append] at hev
  rcases hev with (hev | hev) | hev
  · exact h.known ev (mem_append_left _ (mem_append_left _ hev))
  · exact eventWait_known h.wf hev
  · exact h.known ev (mem_append_left _ (mem_append_right _ hev))

theorem Tracked.run (hs : s.dispatchBegin = some s') (reports : List (Source × Nat)) :
    s'.Tracked st 1 (s'.eventWait reports) := by
  obtain ⟨hwf, hdepth, hown, hheld, hpairs⟩ := h.wf.dispatchBegin hs
  refine ⟨hwf, ?_, ?_, h.rest, fun ev hev => ?_⟩
  · rw [hdepth, hown, h.depth]
  · rw [hheld, hown]
    exact h.held
  · rcases mem_append.mp hev with hev | hev
    · rw [hpairs]
      exact h.known ev (mem_append_left _ (hheld ▸ hev))
    · exact eventWait_known hwf hev

/-- One of the events that the caller holds. -/
theorem Tracked.take {i : Nat} {ev : KlEvent} (hev : s.held[i]? = some ev) :
    { s with held := s.held.eraseIdx i }.Tracked st 0 [ev] := by
  refine ⟨⟨h.wf.nodes, h.wf.fds, h.wf.loop, h.wf.drained, h.wf.fresh, h.wf.regs, h.wf.deleted,
    h.wf.zero⟩, h.depth, fun _ => ?_, h.rest, fun ev' hev' => h.known ev' ?_⟩
  · exact h.held (ne_nil_of_mem (mem_of_getElem? hev))
  · simp only [append_nil, mem_append, mem_singleton] at hev' ⊢
    rcases hev' with (hev' | hev') | rfl
    · exact .inl (mem_of_mem_eraseIdx hev')
    · exact .inr hev'
    · exact .inl (mem_of_getElem? hev)

theorem Tracked.capture (src : Source) (ready : Nat) :
    s.Tracked st 0 (s.capture src ready).toList := by
  refine ⟨h.wf, h.depth, h.held, h.rest, fun ev hev => ?_⟩
  rcases mem_append.mp hev with hev | hev
  · exact h.known ev (mem_append_left _ hev)
  · exact capture_known h.wf (Option.mem_toList.mp hev)

theorem Tracked.enter {op : WatchOp} (hop : s.Balanced op) :
    Leaves ((machine w).enter op s) st := by
  cases op with
  | add fd mask onReady userData =>
    exact (h.keeps (h.wf.watcherAdd fd mask onReady userData)).leaves
  | addDetached fd onReady userData =>
    exact (h.keeps (h.wf.watcherAddDetached fd onReady userData)).leaves
  | mod fd mask => exact (h.keeps (h.wf.watcherMod fd mask)).leaves
  | rearm fd => exact (h.keeps (h.wf.watcherRearm fd)).leaves
  | del fd => exact (h.keeps (h.wf.watcherDel fd)).leaves
  | dispatchBegin => exact h.ownBegin
  | dispatchEnd => exact h.ownEnd hop
  | wait reports => exact (h.wait hop reports).leaves
  | dispatch i =>
    simp only [machine]
    cases hev : s.held[i]? with
    | none => exact h.leaves
    | some ev => exact Tracked.dispatchEvents false (h.take hev) fun _ => Nat.le_refl 1
  | dispatchOne src ready =>
    refine Tracked.dispatchEvents false (h.capture src ready) fun _ => ?_
    cases s.capture src ready with
    | none => exact Nat.zero_le 1
    | some ev => exact Nat.le_refl 1
  | run reports =>
    simp only [machine]
    cases hs : s.dispatchBegin with
    | none => exact h.leaves
    | some s' => exact Tracked.dispatchEvents true (h.run hs reports) fun hb => Bool.noConfusion hb

end

/-- The callback is over: its batch goes on. -/
theorem Tracked.resume {f : WatchFrame} (h : s.Tracked (f :: st) 0 []) :
    Leaves (s.dispatched w f) st := by
  have harmed : (if s.dispatchDirty then s else (s.watcherRearm w f.fd).1).Tracked (f :: st) 0
      [] := by
    split
    · exact h
    · exact h.keeps (h.wf.watcherRearm f.fd)
  unfold dispatched
  generalize (if s.dispatchDirty then s else (s.watcherRearm w f.fd).1) = s' at harmed
  refine Tracked.dispatchEvents f.batch ⟨harmed.wf, ?_, harmed.held, fun g hg =>
    harmed.rest g (mem_cons_of_mem f hg), fun ev hev => ?_⟩
    fun hbatch => ?_
  · rw [harmed.depth, countP_cons]
    cases f.batch <;> rfl
  · refine harmed.known ev ?_
    simp only [waiting, flatMap_cons, append_nil, mem_append] at hev ⊢
    tauto
  · by_contra hmany
    have hne : f.rest ≠ [] := fun hnil => hmany (hnil ▸ Nat.zero_le 1)
    exact Bool.false_ne_true (hbatch.symm.trans (harmed.rest f mem_cons_self hne))

theorem tracked_start : start.Tracked [] 0 [] where
  wf := ⟨nodup_nil, nodup_nil, fun _ hp => absurd hp not_mem_nil, fun _ => rfl, fun _ hr =>
    absurd hr not_mem_nil, nodup_nil, List.Perm.refl _, fun _ hp => absurd hp not_mem_nil⟩
  depth := rfl
  held hne := absurd rfl hne
  rest _ hf := absurd hf not_mem_nil
  known _ hev := absurd hev not_mem_nil

end KlEventCtx

/-! ## Runs -/

open KlEventCtx

/-- The callbacks are delivered to the right registrations, and the context is tracked. -/
def Sound (tr : List (Step KlEventCtx WatchOp WatchFrame Unit Int)) (s : KlEventCtx)
    (st : List WatchFrame) : Prop :=
  (∀ x ∈ tr, ∀ s f, x.out = .call s f → s.Delivered f) ∧ s.Tracked st 0 []

theorem KlEventCtx.Leaves.sound {tr : List (Step KlEventCtx WatchOp WatchFrame Unit Int)}
    {x : Step KlEventCtx WatchOp WatchFrame Unit Int}
    {st : List WatchFrame} (hdone : ∀ x ∈ tr, ∀ s f, x.out = .call s f → s.Delivered f)
    (h : Leaves x.out st) : Sound (tr ++ [x]) x.out.state (x.out.stack st) := by
  refine ⟨fun y hy s f hcall => ?_, h.tracked⟩
  rcases mem_append.mp hy with hy | hy
  · exact hdone y hy s f hcall
  rw [mem_singleton.mp hy] at hcall
  have hdel := h.delivered f (hcall ▸ rfl)
  rw [hcall] at hdel
  exact hdel

theorem machine_sound (w : EventWorld) :
    Machine.Preserves (machine w) (Machine.Guarded Balanced fun _ _ _ => True) Sound where
  enter _ _ _ _ h hop := (h.2.enter hop).sound h.1
  resume _ _ _ _ _ h _ := h.2.resume.sound h.1

/-- In every run in which the caller matches its brackets, a callback gets an event that was
captured for its own registration, which is registered; a descriptor has one watcher; the deleted
registrations are other ones than the registered; each of them was freed once or waits for the
outermost bracket to close, and it was freed with no bracket open. -/
theorem event_reaches_its_watcher {w : EventWorld}
    {c : Config KlEventCtx WatchOp WatchFrame Unit Int}
    (hc : (machine w).Reach (Machine.Guarded Balanced fun _ _ _ => True) start c) :
    (∀ x ∈ c.trace, ∀ s f, x.out = .call s f → s.Delivered f) ∧
    (c.state.watchers.map (·.fd)).Nodup ∧
    (c.state.watchers.map (·.reg) ++ c.state.deleted).Nodup ∧
    c.state.deleted.Perm (c.state.reclaimed.map (·.1) ++ c.state.retired.map (·.reg)) ∧
    (c.state.dispatchDepth = 0 → c.state.retired = []) ∧
    ∀ p ∈ c.state.reclaimed, p.2 = 0 := by
  obtain ⟨hcalls, htracked⟩ :=
    hc.invariant ⟨fun _ hx => absurd hx not_mem_nil, tracked_start⟩ (machine_sound w)
  have hwf := htracked.wf
  exact ⟨hcalls, hwf.fds, hwf.regs, hwf.deleted, hwf.drained, hwf.zero⟩

/-- A callback deletes the watcher that the next event of its batch was captured for and adds
another one for the same descriptor: the event is dropped, and the node is freed after the batch. -/
theorem event_reaches_its_watcher_replaced :
    ∃ c, (machine ⟨fun n => some n, fun _ => true, fun _ => true⟩).Reach (Machine.Guarded Balanced
      fun _ _ _ => True) start c ∧
      (hooks c.trace).map (·.captured) = [0] ∧ c.state.watchers.map (·.reg) = [2, 0] ∧
      c.state.reclaimed = [(1, 0)] ∧ (∀ x ∈ c.trace, ∀ s f, x.out = .call s f → s.Delivered f) := by
  refine Machine.exists_reach [.call (.add 5 1 0 0), .call (.add 6 1 1 1),
    .call (.run [(.ready 5, 1), (.ready 6, 1)]),
    .call (.del 6), .call (.add 6 1 2 2), .ret ()] ⟨_, rfl, fun hc => ?_⟩
  exact ⟨rfl, rfl, rfl, (event_reaches_its_watcher hc).1⟩

end Watch
