-- SUMMARY: The record of accepted datagrams is what the calls of a run accepted.
import Keel.Datagram.SendRuns

/-!
# Accepted datagrams

A datagram is accepted by the stretch in which it joins the queue, or in which the provider
has taken it directly. `admitted` reads off a stretch of a run what it accepted: from the
arguments of the call and from what came of it.
-/

open Reentrant List

namespace KlDgramSend

/-- What came of `kl_dgram_send` in a stretch that did not refuse its datagram: either
it returns ACCEPTED, or it calls a hook that is not the direct submission, and will
return ACCEPTED then. -/
def taken : SOut → Bool
  | .done _ (.status .accepted) => true
  | .done _ _ | .call _ (.direct _) => false
  | .call _ _ => true

/-- The datagrams that a stretch accepted. -/
def admitted (x : SStep) : List KlDgramTxDesc :=
  match x.cause with
  | .enter (.send m) | .enter (.enqueue m) | .resume (.direct m) _ =>
    if taken x.out then [m.desc] else []
  | .enter (.enqueueGso g) => if taken x.out then GsoRequest.descs g else []
  | _ => []

variable {P : Scope} {s t : KlDgramSend} {st : List Frame} {q : List KlDgramSlot} {n : Nat}

/-! ## Code that accepts nothing -/

/-- The scope of code that leaves the record of `s` alone. -/
def Scope.recording (P : Scope) (s : KlDgramSend) : Scope :=
  { P with calm := fun _ _ => True, log := (· = s.accepted) }

theorem Kept.recording (h : Kept P q s) : Kept (P.recording s) q s := { h with log := rfl }

theorem Stacked.recording (h : Stacked P t n st) : Stacked (P.recording s) t n st :=
  { h with frames := fun f hf => { h.frames f hf with } }

/-! ## Code that accepts datagrams -/

theorem Admits.accepted {alone : Bool} {ds : List KlDgramTxDesc}
    {o : KlDatagramSendStatus × KlDgramSend} (ho : Admits s alone ds o) :
    o.2.accepted = s.accepted ++ if o.1 = .accepted then ds else [] := by
  cases ho with
  | refused hv _ => rw [if_neg hv, append_nil]
  | blocked _ => exact (append_nil _).symm
  | joined hjoins _ _ hdescs =>
    obtain ⟨⟨ring, slots, bytes, rfl⟩, -⟩ := hjoins
    rw [if_pos rfl, ← hdescs]
    rfl

theorem taken_status (v : KlDatagramSendStatus) :
    taken (.done s (.status v)) = decide (v = .accepted) := by
  cases v <;> rfl

/-- A pump of `kl_dgram_send` ends in ACCEPTED, or in a hook that leads there. -/
theorem taken_pump (s : KlDgramSend) : taken (s.pump .send) = true := by
  unfold pump pumpLoop pumpDone dispatchLeave leaveLoop drainTail gsoOr
  repeat' split
  all_goals rfl

section

variable (h : Kept P s.entries s) (hs : Stacked P s 0 st) (hlog : ∀ l, P.log l)
include h hs hlog

theorem queueSend_accepted (hopen : s.closing = false) (m : KlDatagramMessage) :
    (s.queueSend m).state.accepted =
      s.accepted ++ if taken (s.queueSend m) then [m.desc] else [] := by
  have hadmits := h.sendAdmit hopen m false
  have hrecord := hadmits.accepted
  obtain ⟨hkept, halike⟩ := h.admits hadmits (fun _ _ => rfl) hlog
  unfold queueSend
  split
  next t heq =>
    rw [heq] at hrecord hkept halike
    have hpump := pump_after hkept.enterDispatch.recording
      (hs.alike halike).enterDispatch.recording .send
    rw [taken_pump]
    exact hpump.kept.log.trans hrecord
  next v t hv heq =>
    rw [heq] at hrecord
    simpa only [taken_status, Out.state_done, decide_eq_true_eq] using hrecord

/-- What a call adds to the record. -/
theorem accepted_enter {op : Op} (hm : CallMet P s op) :
    (machine.enter op s).state.accepted =
      s.accepted ++ admitted ⟨s, .enter op, machine.enter op s⟩ := by
  cases op with
  | send m =>
    show (s.send m).state.accepted = s.accepted ++ if taken (s.send m) then [m.desc] else []
    unfold send
    split
    next hv =>
      rw [taken_status, decide_eq_false hv]
      exact (append_nil _).symm
    next hv =>
    split
    · exact (append_nil _).symm
    · have hkept : Kept P (s.setDirectDropped false).entries (s.setDirectDropped false) :=
        h.setDirectDropped false
      exact queueSend_accepted hkept (hs.mono rfl rfl rfl id fun _ => id) hlog
        (validate_accepted (Decidable.not_not.mp hv)).2 m
  | enqueue m =>
    show (s.enqueue m).state.accepted = s.accepted ++ if taken (s.enqueue m) then [m.desc] else []
    unfold enqueue
    split
    next hv =>
      rw [taken_status, decide_eq_false hv]
      exact (append_nil _).symm
    next hv =>
    have hopen := (validate_accepted (Decidable.not_not.mp hv)).2
    simpa only [taken_status, Out.state_done,
      decide_eq_true_eq] using (h.sendAdmit hopen m true).accepted
  | enqueueGso g =>
    show (s.enqueueGso g).state.accepted =
      s.accepted ++ if taken (s.enqueueGso g) then GsoRequest.descs g else []
    simpa only [enqueueGso, taken_status, Out.state_done,
      decide_eq_true_eq] using (h.admitGso g).accepted
  | _ =>
    refine Eq.trans ?_ (append_nil _).symm
    exact (enter_after h.recording hs.recording { hm with } (fun _ _ _ =>
      trivial) Bool.noConfusion).kept.log

end

/-- What the return of a hook adds to the record. -/
theorem accepted_resume {f : Frame} {a : Answer} (h : Kept P s.entries s)
    (hs : Stacked P s 0 (f :: st)) (hlog : ∀ l, P.log l) (hm : RetMet P s f a) :
    (machine.resume f a s).state.accepted =
      s.accepted ++ admitted ⟨s, .resume f a, machine.resume f a s⟩ := by
  cases f with
  | direct m =>
    show (s.directReturned m a.r).state.accepted =
      s.accepted ++ if taken (s.directReturned m a.r) then [m.desc] else []
    cases a.r with
    | done => rfl
    | error | dropped => exact (append_nil _).symm
    | inflight | wouldblock | unsupported =>
      simp only [directReturned]
      split
      · exact (append_nil _).symm
      split
      · exact (append_nil _).symm
      next hopen =>
      exact queueSend_accepted h (hs.pop rfl fun hp hc hf => False.elim (hs.pending hp hc hf)) hlog
        (by simpa using hopen) m
  | _ =>
    refine Eq.trans ?_ (append_nil _).symm
    exact (afterHook_after h.recording hs.recording { hm with } (fun _ _ _ =>
      trivial) Bool.noConfusion).kept.log

theorem Setup.build_accepted {cfg : Setup} (h : cfg.build = some s) : s.accepted = [] := by
  obtain ⟨slots, -, hinit⟩ := Option.bind_eq_some_iff.mp h
  unfold init at hinit
  split at hinit
  · cases hinit
  · cases hinit
    rfl

/-- The record is what the stretches of a run accepted. -/
theorem reach_accepted {cfg : Setup} {c : SConfig} {onCall : KlDgramSend → Op → Prop}
    {onRet : KlDgramSend → Frame → Answer → Prop} (hcall : ∀ s op, onCall s op → CallMet P s op)
    (hret : ∀ s f a, onRet s f a → RetMet P s f a) (hbuild : cfg.build = some s)
    (hc : machine.Reach (Machine.Guarded onCall onRet) s c) :
    RunInv P c.trace c.state c.stack ∧ c.state.accepted = c.trace.flatMap admitted := by
  refine hc.invariant (I := fun tr s st => RunInv P tr s st ∧ s.accepted = tr.flatMap admitted)
    ⟨cfg.build_inv hbuild P, cfg.build_accepted hbuild⟩ ⟨?_, ?_⟩
  · intro tr s st op h hp
    refine ⟨(runInv_preserves hcall hret).enter tr s st op h.1 hp, ?_⟩
    rw [flatMap_append, flatMap_singleton, ← h.2]
    exact accepted_enter h.1.kept h.1.stacked (fun _ => trivial) { hcall s op hp with }
  · intro tr s st f a h hp
    refine ⟨(runInv_preserves hcall hret).resume tr s st f a h.1 hp, ?_⟩
    rw [flatMap_append, flatMap_singleton, ← h.2]
    exact accepted_resume h.1.kept h.1.stacked (fun _ => trivial) { hret s f a hp with }

end KlDgramSend
