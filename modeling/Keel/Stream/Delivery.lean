-- SUMMARY: Strict read delivery: what arrives is delivered in order and once.
import Keel.Stream.Detach
import Keel.Stream.Read

/-!
# Delivery

`arrivals` are the receive completions the stream takes: not spurious, not after the
read side closed, and not longer than the buffer. Each is delivered, held, or was held
when the read side closed, in that order. `receives` counts the receives outstanding.
-/

open Reentrant List

structure Completion where
  len : Nat
  ok : Bool
deriving DecidableEq, Repr

def Frame.completion : Frame → List Completion
  | .deliver len ok _ => [⟨len, ok⟩]
  | _ => []

/-- The completion held during a pause. -/
def KlStreamRead.kept (r : KlStreamRead) : List Completion :=
  bif r.recvHeld then [⟨r.heldLen, r.heldOk⟩] else []

/-- One completion is held at most. -/
theorem KlStreamRead.length_kept (r : KlStreamRead) : r.kept.length ≤ 1 := by
  unfold KlStreamRead.kept
  cases r.recvHeld <;> simp

namespace KlStream

/-! ## Histories -/

def deliveredBy (o : SOut) : List Completion := o.hook.toList.flatMap Frame.completion

/-- A completion without a receive in flight is spurious; one with more bytes than the
buffer has closes the read side; a terminal one carries no data. -/
def arrivedBy (x : SStep) : List Completion :=
  match x.cause with
  | .enter (.onRecv len ok) =>
    if x.pre.r.recvInflight && !x.pre.r.readClosed && !(ok && x.pre.r.readCap < len) then
      [⟨if !ok then 0 else len, ok⟩]
    else []
  | _ => []

/-- What was held when the read side closed. -/
def discardedBy (pre : KlStream) (o : SOut) : List Completion :=
  if o.state.r.readClosed && (deliveredBy o).isEmpty then pre.r.kept else []

variable (tr : List SStep)

def arrivals : List Completion := tr.flatMap arrivedBy
def deliveries : List Completion := tr.flatMap (fun x => deliveredBy x.out)
def discards : List Completion := tr.flatMap (fun x => discardedBy x.pre x.out)

/-- A completion ends a receive, and so does an arm that fails before its receive
completed. `read_disarm` drops the interest. -/
def endsReceive (x : SStep) : Bool :=
  match x.cause with
  | .enter (.onRecv _ _) => true
  | .resume (.arm _) rc => rc < 0 && !x.pre.r.completedInline
  | .resume .pauseDisarm _ => true
  | .resume (.closeDisarm _) _ => true
  | _ => false

/-- The receives outstanding, as the transport counts them. -/
def receives : Nat :=
  tr.foldl (fun n x => (if endsReceive x then n - 1 else n) +
    x.out.hook.toList.countP Frame.isArm) 0

/-- The receives in flight after one more stretch. -/
theorem receives_append (x : SStep) :
    receives (tr ++ [x]) = (if endsReceive x then receives tr - 1 else receives tr) +
      x.out.hook.toList.countP Frame.isArm := by
  simp [receives]

/-! ## One stretch of code -/

/-- What a stretch of code does to the completions: those kept before and the one that
arrived are delivered, discarded or kept. -/
structure Moves (s : KlStream) (arr : List Completion) (o : SOut) : Prop where
  conserve : s.r.kept ++ arr = deliveredBy o ++ discardedBy s o ++ o.state.r.kept
  delivers : ∀ a ∈ deliveredBy o, s.r.readClosed = false ∧ o.state.r.readPaused = false ∧
    a.len ≤ s.r.readCap ∧ (a.ok = false → a.len = 0 ∧ o.state.r.readClosed = true)

/-- Nothing is delivered and nothing is lost. -/
structure Quiet (s : KlStream) (o : SOut) : Prop where
  none : deliveredBy o = []
  kept : o.state.r.kept = s.r.kept
  closed : o.state.r.readClosed = true → s.r.kept = []

section

variable {s s' : KlStream} {o : SOut} {k : ArmK} {fs : List Frame}

/-- A stretch that delivers nothing and takes nothing. -/
theorem Quiet.moves (h : Quiet s o) : Moves s [] o where
  conserve := by
    have : discardedBy s o = [] := by
      unfold discardedBy
      split
      · next hcl =>
        rw [Bool.and_eq_true] at hcl
        exact h.closed hcl.1
      · rfl
    rw [h.none, this, h.kept, append_nil, nil_append, nil_append]
  delivers a ha := by simp [h.none] at ha

/-- Only the deliver hook delivers. -/
theorem deliveredBy_of_facet (h : ∀ f, o.hook = some f → f.isRead = false ∨ f.isArm = true) :
    deliveredBy o = [] := by
  unfold deliveredBy
  cases ho : o.hook with
  | none => rfl
  | some f =>
    have := h f ho
    cases f <;> simp_all [Frame.completion, Frame.isRead, Frame.isArm]

theorem Quiet.done {ret : Ret} (hk : s'.r.kept = s.r.kept)
    (hcl : s'.r.readClosed = true → s.r.kept = []) : Quiet s (.done s' ret) :=
  ⟨rfl, hk, hcl⟩

/-- The close facet delivers nothing. -/
theorem Quiet.closeOnly (ho : CloseOnly s' o) (hk : s'.r.kept = s.r.kept)
    (hcl : s'.r.readClosed = true → s.r.kept = []) : Quiet s o where
  none := deliveredBy_of_facet fun f hf => .inl (ho.notRead f hf)
  kept := by rw [ho.r, hk]
  closed h := hcl (by rw [← ho.r, h])

section

variable {r : Int} (hk : s'.r.kept = s.r.kept) (hcl : s'.r.readClosed = true → s.r.kept = [])
include hk hcl

theorem Quiet.armRet : Quiet s (s'.armRet r k) := by
  cases k with
  | plain => exact .done hk hcl
  | onRecv =>
    simp only [armRet]
    split
    · exact .closeOnly (.onRetire _ rfl rfl) hk hcl
    · exact .done hk hcl

theorem Quiet.armLoop : Quiet s (s'.armLoop k) := by
  unfold KlStream.armLoop
  split
  · exact .armRet hk hcl
  · exact ⟨rfl, hk, hcl⟩

theorem Quiet.streamArm : Quiet s (s'.streamArm k) := by
  unfold KlStream.streamArm
  split
  · exact .armRet (by exact hk) (by exact hcl)
  · exact .armLoop hk hcl

end

/-- A closed read side holds nothing. -/
theorem ReadInv.kept_of_closed (h : ReadInv s.r fs) (hcl : s.r.readClosed = true) :
    s.r.kept = [] := by
  simp [KlStreamRead.kept, h.free_of_closed hcl]

theorem kept_of_free {r : KlStreamRead} (h : r.recvHeld = false) : r.kept = [] := by
  simp [KlStreamRead.kept, h]

/-- The return of `read_arm` delivers nothing by itself. -/
theorem Quiet.armed (h : ReadInv s.r (.arm k :: fs)) (rc : Int) : Quiet s (s.armed rc k) := by
  unfold KlStream.armed
  split
  · split
    · exact .armLoop rfl (by exact h.kept_of_closed)
    · exact .armRet rfl (by exact h.kept_of_closed)
  · next hin =>
    split
    · have hfree := h.inline h.armReturned.1 (by simpa using hin)
      exact .armRet rfl fun _ => kept_of_free hfree
    · exact .armRet rfl (by exact h.kept_of_closed)

theorem Quiet.delivered (h : ReadInv s.r fs) (ok : Bool) (k : ArmK) :
    Quiet s (s.delivered ok k) := by
  unfold KlStream.delivered
  split_ifs
  · exact .armRet rfl h.kept_of_closed
  · exact .armRet rfl h.kept_of_closed
  · exact .armRet rfl h.kept_of_closed
  · exact .streamArm rfl h.kept_of_closed

theorem Quiet.write {n : Bool} (h : ReadInv s.r fs) (ho : FacetOut .write n s o) : Quiet s o where
  none := deliveredBy_of_facet fun f hf => .inl (ho.write_notRead f hf)
  kept := by rw [ho.within.1]
  closed hcl := h.kept_of_closed (by rw [← ho.within.1, hcl])

/-- A completion that no longer is kept, or never was, is delivered. -/
theorem Moves.deliverAndContinue {len : Nat} {ok : Bool} {arr : List Completion}
    (hfree : s'.r.recvHeld = false) (hkept : s.r.kept ++ arr = [⟨if !ok then 0 else len, ok⟩])
    (hcl : s.r.readClosed = false) (hp : s'.r.readPaused = false) (hlen : len ≤ s.r.readCap) :
    Moves s arr (s'.deliverAndContinue len ok k) := by
  have hnone : s'.r.kept = [] := kept_of_free hfree
  unfold KlStream.deliverAndContinue
  cases ok with
  | false =>
    refine ⟨?_, ?_⟩
    · rw [hkept]
      show _ = _ ++ _ ++ s'.r.kept
      rw [hnone]
      rfl
    · intro a ha
      cases mem_singleton.mp ha
      exact ⟨hcl, hp, Nat.zero_le _, fun _ => ⟨rfl, rfl⟩⟩
  | true =>
    refine ⟨?_, ?_⟩
    · rw [hkept]
      show _ = _ ++ _ ++ s'.r.kept
      rw [hnone]
      simp [deliveredBy, discardedBy, Frame.completion]
    · intro a ha
      cases mem_singleton.mp ha
      exact ⟨hcl, hp, hlen, nofun⟩

/-- Held: kept instead of delivered. -/
theorem Moves.hold {a : Completion} (ho : CloseOnly s' o) (hfree : s.r.recvHeld = false)
    (hk : s'.r.kept = [a]) : Moves s [a] o := by
  have hnone := deliveredBy_of_facet fun f hf => .inl (ho.notRead f hf)
  refine ⟨?_, fun b hb => by simp [hnone] at hb⟩
  have : discardedBy s o = [] := by
    unfold discardedBy
    rw [kept_of_free hfree]
    split <;> rfl
  rw [hnone, this, kept_of_free hfree, ho.r, hk]
  rfl

/-- What a receive brings is delivered or held. -/
theorem Moves.onRecv (h : ReadInv s.r fs) (len : Nat) (ok : Bool) :
    Moves s (arrivedBy ⟨s, .enter (.onRecv len ok), o⟩) (s.onRecv len ok) := by
  unfold KlStream.onRecv
  split
  · next hin => simp [h.inited] at hin
  split
  · next hi =>
    have : arrivedBy ⟨s, .enter (.onRecv len ok), o⟩ = [] := by simp_all [arrivedBy]
    rw [this]
    exact (Quiet.done rfl h.kept_of_closed).moves
  rename_i hi
  have hi : s.r.recvInflight = true := by simpa using hi
  have hfree := h.free_of_inflight hi
  split
  · next hcl =>
    have : arrivedBy ⟨s, .enter (.onRecv len ok), o⟩ = [] := by simp [arrivedBy, hcl]
    rw [this]
    refine Quiet.moves ?_
    exact .closeOnly (.onRetire _ rfl rfl) rfl h.kept_of_closed
  rename_i hcl
  have hcl : s.r.readClosed = false := by simpa using hcl
  split
  · next hlen =>
    have : arrivedBy ⟨s, .enter (.onRecv len ok), o⟩ = [] := by simp [arrivedBy, hlen]
    rw [this]
    refine Quiet.moves ?_
    exact .closeOnly (.onRetire _ rfl rfl) rfl fun _ => kept_of_free hfree
  rename_i hlen
  have harr : arrivedBy ⟨s, .enter (.onRecv len ok), o⟩ = [⟨if !ok then 0 else len, ok⟩] := by
    simp only [arrivedBy]
    rw [if_pos (by simp [hi, hcl, hlen])]
  have hle : (if !ok then 0 else len) ≤ s.r.readCap := by
    cases ok with
    | false => exact Nat.zero_le _
    | true => simpa using hlen
  split
  · rw [harr]
    exact .hold (.onRetire
      _ rfl rfl) hfree rfl
  · next hp =>
    rw [harr]
    refine .deliverAndContinue hfree ?_ hcl (by simpa using hp) hle
    rw [kept_of_free hfree]
    cases ok <;> rfl

/-- A resume delivers what was held. -/
theorem Moves.resume (h : ReadInv s.r fs) : Moves s [] s.resume := by
  unfold KlStream.resume
  split
  · exact (Quiet.done rfl h.kept_of_closed).moves
  split
  · refine Quiet.moves ?_
    exact .done rfl h.kept_of_closed
  rename_i hcl
  split
  · next hh =>
    obtain ⟨hle, hz⟩ := h.heldLen hh
    refine .deliverAndContinue rfl ?_ (by simpa using hcl) rfl hle
    simp only [KlStreamRead.kept, hh, cond_true, append_nil]
    cases hok : s.r.heldOk with
    | true => rfl
    | false =>
      rw [hz hok]
      rfl
  · split
    · refine Quiet.moves ?_
      exact .done rfl h.kept_of_closed
    · refine Quiet.moves ?_
      exact .streamArm rfl h.kept_of_closed

/-- Closing discards what is held. -/
theorem Moves.discard (hd : deliveredBy o = []) (hcl : o.state.r.readClosed = true)
    (hk : o.state.r.kept = []) : Moves s [] o where
  conserve := by
    have : discardedBy s o = s.r.kept := by simp [discardedBy, hcl, hd]
    rw [hd, hk, this, append_nil, append_nil, nil_append]
  delivers a ha := by simp [hd] at ha

/-- A close delivers what was held, or drops it. -/
theorem Moves.readClose {k : CloseK} (h : ReadInv s.r fs)
    (ho : ReadCloseOut s k o) : Moves s [] o := by
  have hd := deliveredBy_of_facet fun f hf => .inl (ho.notRead f hf)
  cases ho with
  | already _ ho => exact (Quiet.closeOnly ho rfl h.kept_of_closed).moves
  | closed _ _ ho =>
    refine .discard hd ?_ ?_
    · rw [ho.r]
      rfl
    · rw [ho.r]
      rfl
  | dropped _ _ _ ho =>
    refine .discard hd ?_ ?_
    · rw [ho.r]
      rfl
    · rw [ho.r]
      rfl
  | @disarm s' _ _ _ _ hr =>
    refine .discard hd ?_ ?_
    · rw [Out.state_call, hr]
      rfl
    · rw [Out.state_call, hr]
      rfl

end

variable {s : KlStream}

theorem Moves.enter {fs : List Frame} (h : ReadInv s.r fs) (op : Op) :
    Moves s (arrivedBy ⟨s, .enter op, enter op s⟩) (enter op s) := by
  have hcommon (abort : Bool) : Moves s [] (s.closeCommon abort) := by
    obtain ⟨ho, -⟩ | ⟨-, ho⟩ := closeCommon_cases s abort
    · exact (Quiet.closeOnly ho rfl h.kept_of_closed).moves
    · exact .readClose h ho
  cases op with
  | write src => exact (Quiet.write h (.write s src)).moves
  | flush => exact (Quiet.write h (.flush s)).moves
  | onWriteComplete ok => exact (Quiet.write h (.onWriteComplete s ok)).moves
  | readStart =>
    refine Quiet.moves ?_
    simp only [KlStream.enter, KlStream.readStart]
    split_ifs
    · exact .done rfl h.kept_of_closed
    · exact .done rfl h.kept_of_closed
    · exact .streamArm rfl h.kept_of_closed
  | onRecv len ok => exact .onRecv h len ok
  | pause =>
    refine Quiet.moves ?_
    simp only [KlStream.enter, KlStream.pause]
    split_ifs
    · exact .done rfl h.kept_of_closed
    · exact ⟨rfl, rfl, h.kept_of_closed⟩
    · exact .done rfl (by exact h.kept_of_closed)
  | resume => exact .resume h
  | readClose => exact .readClose h (.readClose .readClose rfl rfl)
  | closeBegin => exact hcommon false
  | cancel => exact hcommon true

theorem Moves.afterHook {st : List Frame} {f : Frame}
    (h : ReadInv s.r (readFrames (f :: st))) (v : Int) : Moves s [] (afterHook f v s) := by
  refine Quiet.moves ?_
  cases f with
  | arm k =>
    exact .armed h v
  | deliver len ok k => exact .delivered h ok k
  | pauseDisarm => exact .done rfl (by exact h.kept_of_closed)
  | closeDisarm k =>
    exact .closeOnly (.readCloseRet rfl rfl) rfl (by exact h.kept_of_closed)
  | cancelRecv => exact .closeOnly (.closeCancelSend rfl rfl) rfl h.kept_of_closed
  | cancelSend => exact .closeOnly (.closeCancelled rfl rfl) rfl h.kept_of_closed
  | onClose r => exact .done rfl h.kept_of_closed
  | writeDirect data => exact .write h (.afterHook s (f := .writeDirect data) v rfl)
  | flushPush => exact .write h (.afterHook s (f := .flushPush) v rfl)
  | submit len k => exact .write h (.afterHook s (f := .submit len k) v rfl)
  | flushWritable r => exact .write h (.afterHook s (f := .flushWritable r) v rfl)
  | completeWritable r => exact .write h (.afterHook s (f := .completeWritable r) v rfl)

/-! ## Receives -/

/-- From `n` receives outstanding and `k` calls of `read_arm` on the stack, every call
that was added posts one receive. -/
def Receiving (n k : Nat) (r : KlStreamRead) (fs : List Frame) : Prop :=
  r.recvInflight.toNat + k = n + fs.countP Frame.isArm

namespace Receiving

variable {st : List Frame} {n k : Nat} {fs : List Frame} {r : KlStreamRead} {j : ArmK} {ok : Bool}

theorem cons {f : Frame} (h : Receiving n k r fs)
    (hf : f.isArm = false) : Receiving n k r (f :: fs) := by
  unfold Receiving
  rw [countP_cons_of_neg (by simp [hf])]
  exact h

/-- No receive is in flight any more. -/
theorem idle (hi : r.recvInflight = false) (hn : n = 0)
    (hk : k = fs.countP Frame.isArm) : Receiving n k r fs := by
  unfold Receiving
  rw [hi, hn, hk, Bool.toNat_false]

section

variable {len : Nat} (h : Receiving n k s.r (readFrames st))
include h

theorem armLoop : AfterRead (Receiving n k) st (s.armLoop j) := by
  unfold KlStream.armLoop
  split
  · exact .armRet h
  next hbusy =>
  simp only [Bool.or_eq_true, not_or, Bool.not_eq_true] at hbusy
  refine .call rfl ?_
  unfold Receiving at h ⊢
  rw [hbusy.1.2, Bool.toNat_false] at h
  rw [countP_cons_of_pos rfl]
  simp only [KlStreamRead.post, Bool.toNat_true]
  omega

theorem streamArm : AfterRead (Receiving n k) st (s.streamArm j) := by
  unfold KlStream.streamArm
  split
  · exact .armRet h
  · exact h.armLoop

theorem deliverAndContinue : AfterRead (Receiving n k) st (s.deliverAndContinue len ok j) := by
  unfold KlStream.deliverAndContinue
  split
  · exact .call rfl (h.cons rfl)
  · exact .call rfl (h.cons rfl)

theorem delivered : AfterRead (Receiving n k) st (s.delivered ok j) := by
  unfold KlStream.delivered
  split_ifs
  · exact .armRet h
  · exact .armRet h
  · exact .armRet h
  · exact h.streamArm

theorem readStart : AfterRead (Receiving n k) st s.readStart := by
  unfold KlStream.readStart
  split_ifs
  · exact h
  · exact h
  · exact h.streamArm

theorem pause : AfterRead (Receiving n k) st s.pause := by
  unfold KlStream.pause
  split_ifs
  · exact h
  · exact .call rfl (cons h rfl)
  · exact h

theorem resume : AfterRead (Receiving n k) st s.resume := by
  unfold KlStream.resume
  split_ifs
  · exact h
  · exact h
  · exact deliverAndContinue h
  · exact h
  · exact streamArm h

end

/-- The receive completed inside `read_arm`. -/
theorem armed_inline (hin : s.r.completedInline = true) (rc : Int) (j : ArmK) :
    AfterRead (Receiving s.r.recvInflight.toNat ((readFrames st).countP Frame.isArm)) st
      (s.armed rc j) := by
  unfold armed
  rw [if_pos hin]
  split
  · exact armLoop rfl
  · exact .armRet rfl

/-- `read_arm` failed, so that there is no receive. -/
theorem armed_failed (hin : s.r.completedInline = false) {rc : Int} (hrc : rc < 0) (j : ArmK) :
    AfterRead (Receiving (s.r.recvInflight.toNat - 1) ((readFrames st).countP Frame.isArm)) st
      (s.armed rc j) := by
  unfold armed
  rw [if_neg (by simp [hin]), if_pos hrc]
  exact .armRet (idle rfl (Nat.sub_eq_zero_of_le (Bool.toNat_le _)) rfl)

/-- A receive is in flight from here on. -/
theorem armed_posted (hin : s.r.completedInline = false) {rc : Int} (hrc : ¬ rc < 0) (j : ArmK) :
    AfterRead (Receiving s.r.recvInflight.toNat ((readFrames st).countP Frame.isArm)) st
      (s.armed rc j) := by
  unfold armed
  rw [if_neg (by simp [hin]), if_neg hrc]
  exact .armRet rfl

theorem onRecv (hin : s.r.readInited = true) (len : Nat) (ok : Bool) :
    AfterRead (Receiving (s.r.recvInflight.toNat - 1) ((readFrames st).countP Frame.isArm)) st
      (s.onRecv len ok) := by
  have hz : s.r.recvInflight.toNat - 1 = 0 := Nat.sub_eq_zero_of_le (Bool.toNat_le _)
  unfold KlStream.onRecv
  rw [if_neg (by simp [hin])]
  split
  · next hi => exact idle (by simpa using hi) hz rfl
  split
  · exact .onRetire (idle rfl hz rfl)
  split
  · exact .onRetire (idle rfl hz rfl)
  · split
    · exact .onRetire (idle rfl hz rfl)
    · exact deliverAndContinue (idle rfl hz rfl)

/-- A readiness stream has its disarm hook. -/
theorem readClose {j : CloseK} {o : SOut} (ho : ReadCloseOut s j o)
    (hdis : s.r.readCompletionMode = false → s.r.readDisarm = true)
    (h : Receiving n k s.r (readFrames st)) : AfterRead (Receiving n k) st o := by
  cases ho with
  | already _ ho => exact .closeOnly ho h
  | closed _ _ ho => exact .closeOnly ho h
  | dropped _ hm hd ho =>
    have hi : s.r.recvInflight = false := by simpa [hdis hm] using hd
    refine .closeOnly ho ?_
    unfold Receiving at h ⊢
    rw [hi] at h
    exact h
  | @disarm s' _ _ _ _ hr =>
    refine .call rfl (cons ?_ rfl)
    rw [hr]
    exact h

theorem enter (hin : s.r.readInited = true)
    (hdis : s.r.readCompletionMode = false → s.r.readDisarm = true) (op : Op) (o : SOut) :
    AfterRead (Receiving
      (if endsReceive ⟨s, .enter op, o⟩ then s.r.recvInflight.toNat - 1 else s.r.recvInflight.toNat)
      ((readFrames st).countP Frame.isArm)) st (enter op s) := by
  have hrefl : Receiving s.r.recvInflight.toNat ((readFrames st).countP Frame.isArm) s.r
    (readFrames st) := rfl
  cases op with
  | readStart => exact hrefl.readStart
  | onRecv len ok => exact onRecv hin len ok
  | pause => exact hrefl.pause
  | resume => exact hrefl.resume
  | readClose => exact readClose (.readClose .readClose rfl rfl) hdis hrefl
  | _ => exact .enter_other (by rintro ⟨⟩) hrefl fun ho => readClose ho hdis hrefl

theorem afterHook {f : Frame} (v : Int) (o : SOut) : AfterRead (Receiving
      (if endsReceive ⟨s, .resume f v, o⟩ then s.r.recvInflight.toNat - 1
        else s.r.recvInflight.toNat)
      ((readFrames st).countP Frame.isArm)) st (afterHook f v s) := by
  have hrefl : Receiving s.r.recvInflight.toNat ((readFrames st).countP Frame.isArm) s.r
    (readFrames st) := rfl
  have hz : s.r.recvInflight.toNat - 1 = 0 := Nat.sub_eq_zero_of_le (Bool.toNat_le _)
  cases f with
  | arm j =>
    show AfterRead (Receiving (if v < 0 && !s.r.completedInline then _ else _) _) st (s.armed v j)
    cases hin : s.r.completedInline with
    | true =>
      rw [if_neg (by simp)]
      exact armed_inline hin v j
    | false =>
      split
      · next hrc => exact armed_failed hin (by simpa using hrc) j
      · next hrc => exact armed_posted hin (by simpa using hrc) j
  | deliver len ok j => exact hrefl.delivered
  | pauseDisarm => exact idle rfl hz rfl
  | closeDisarm j =>
    exact .closeOnly (.readCloseRet rfl rfl) (idle rfl hz rfl)
  | _ => exact .afterHook_other (by rintro ⟨⟩) hrefl

/-- What the transport sees of a stretch of code. -/
theorem inflight_eq {o : SOut}
    (h : AfterRead (Receiving n ((readFrames st).countP Frame.isArm)) st o) :
    o.state.r.recvInflight.toNat = n + o.hook.toList.countP Frame.isArm := by
  have hst : (readFrames (o.stack st)).countP Frame.isArm =
      o.hook.toList.countP Frame.isArm + (readFrames st).countP Frame.isArm := by
    cases o with
    | done s' ret => simp
    | call s' f =>
      cases hf : f.isArm with
      | true =>
        have hfac : f.facet = .read := by cases f <;> first | rfl | cases hf
        simp [readFrames, hfac, countP_cons_of_pos hf, Nat.add_comm]
      | false =>
        by_cases hfac : f.facet = .read
        · simp [readFrames, hfac, hf]
        · simp [readFrames, hfac, hf]
  unfold AfterRead Receiving at h
  omega

end Receiving

/-! ## Whole runs -/

theorem ReadCloseOut.keeps {k : CloseK} {o : SOut} (ho : ReadCloseOut s k o) :
    s.r.Keeps o.state.r := by
  cases ho with
  | already _ ho => exact ho.r ▸ .rfl
  | closed _ _ ho =>
    rw [ho.r]
    constructor <;> simp
  | dropped _ _ _ ho =>
    rw [ho.r]
    constructor <;> simp
  | disarm _ _ _ _ hr =>
    rw [Out.state_call, hr]
    constructor <;> simp

/-- No call changes how the read side was set up. -/
theorem enter_keepsRead (op : Op) (s : KlStream) : s.r.Keeps (enter op s).state.r := by
  have hcommon (abort : Bool) : s.r.Keeps (s.closeCommon abort).state.r := by
    obtain ⟨ho, -⟩ | ⟨-, ho⟩ := closeCommon_cases s abort
    · exact ho.r ▸ .rfl
    · exact ho.keeps
  cases op with
  | closeBegin => exact hcommon false
  | cancel => exact hcommon true
  | _ => exact (FacetOut.enter s (by simp [Op.facet])).within.keepsRead

theorem afterHook_keepsRead (f : Frame) (v : Int) (s : KlStream) :
    s.r.Keeps (afterHook f v s).state.r := by
  cases hf : f.inCommon with
  | false => exact (FacetOut.afterHook s v hf).within.keepsRead
  | true =>
    cases f with
    | cancelRecv => exact (CloseOnly.closeCancelSend rfl rfl).r ▸ .rfl
    | cancelSend => exact (CloseOnly.closeCancelled rfl rfl).r ▸ .rfl
    | closeDisarm k =>
      have hr := (CloseOnly.readCloseRet (s := { s with r := s.r.retire }) (k := k) rfl rfl).r
      exact hr ▸ by constructor <;> simp
    | _ => cases hf

/-- What is held is delivered by the next `kl_stream_resume`. -/
theorem resume_delivers {fs : List Frame} (h : ReadInv s.r fs) {a : Completion}
    (ha : a ∈ s.r.kept) : deliveredBy s.resume = [a] := by
  cases hh : s.r.recvHeld with
  | false => simp [KlStreamRead.kept, hh] at ha
  | true =>
    obtain ⟨hp, hcl, -⟩ := h.held hh
    obtain ⟨-, hz⟩ := h.heldLen hh
    have ha : a = ⟨s.r.heldLen, s.r.heldOk⟩ := by simpa [KlStreamRead.kept, hh] using ha
    unfold resume
    rw [if_neg (by simp [h.inited, hp]), if_neg (by simp [hcl]), if_pos hh, ha]
    unfold deliverAndContinue
    cases hok : s.r.heldOk with
    | true => rfl
    | false =>
      rw [hz hok]
      rfl

/-- What every run keeps of the completions that arrived. -/
structure Delivered (u : Setup) (tr : List SStep) (s : KlStream) : Prop where
  conserve : arrivals tr = deliveries tr ++ discards tr ++ s.r.kept
  one : (discards tr ++ s.r.kept).length ≤ 1
  discarded : discards tr ≠ [] → s.r.readClosed = true
  closed : ∀ x ∈ tr, x.out.state.r.readClosed = true → s.r.readClosed = true
  delivers : ∀ x ∈ tr, ∀ a ∈ deliveredBy x.out,
    x.pre.r.readClosed = false ∧ x.out.state.r.readPaused = false ∧ a.len ≤ u.readCap
  terminal : ∀ a ∈ deliveries tr, a.ok = false → a.len = 0 ∧ s.r.readClosed = true
  last : (deliveries tr).Pairwise (fun a _ => a.ok = true)
  after : tr.Pairwise (fun x y => x.out.state.r.readClosed = true → deliveredBy y.out = [])
  resumed : ∀ x ∈ tr, x.cause = .enter .resume → ∀ a ∈ x.pre.r.kept, deliveredBy x.out = [a]
  outstanding : receives tr = s.r.recvInflight.toNat

theorem Delivered.start (u : Setup) : Delivered u [] u.stream := by
  rw [Setup.stream_eq]
  constructor <;>
    simp [arrivals, deliveries, discards, receives, KlStreamRead.kept]

section

variable {u : Setup} {tr : List SStep} {fs : List Frame} {x : SStep}

/-- Behind the close of the read side nothing is delivered. -/
theorem Moves.silent {arr : List Completion} {o : SOut} (hm : Moves s arr o)
    (hcl : s.r.readClosed = true) : deliveredBy o = [] := by
  refine eq_nil_iff_forall_not_mem.mpr fun a ha => ?_
  rw [(hm.delivers a ha).1] at hcl
  cases hcl

/-- One stretch delivers once at most. -/
theorem length_deliveredBy (o : SOut) : (deliveredBy o).length ≤ 1 := by
  unfold deliveredBy
  cases o.hook with
  | none => exact Nat.zero_le _
  | some f => cases f <;> simp [Frame.completion]

/-- One step keeps everything: the rest of the proof only looks at `Moves`. -/
theorem Delivered.step (h : Delivered u tr x.pre) (hi : ReadInv x.pre.r fs)
    (hcap : x.pre.r.readCap = u.readCap) (hk : x.pre.r.Keeps x.out.state.r)
    (hm : Moves x.pre (arrivedBy x) x.out) (hfree : x.out.state.r.readClosed = true →
      x.out.state.r.kept = [])
    (hres : x.cause = .enter .resume → x.out = x.pre.resume)
    (hrecv : x.out.state.r.recvInflight.toNat =
      (if endsReceive x then x.pre.r.recvInflight.toNat - 1 else x.pre.r.recvInflight.toNat) +
        x.out.hook.toList.countP Frame.isArm) :
    Delivered u (tr ++ [x]) x.out.state := by
  have hdel : deliveries (tr ++ [x]) = deliveries tr ++ deliveredBy x.out := by simp [deliveries]
  have hdis : discards (tr ++ [x]) = discards tr ++ discardedBy x.pre x.out := by simp [discards]
  -- once something was discarded the read side is closed: nothing follows
  have hswap : discards tr ≠ [] → deliveredBy x.out = [] ∧ discardedBy x.pre x.out = [] ∧
      x.out.state.r.kept = [] := by
    intro hne
    have hcl := h.discarded hne
    refine ⟨hm.silent hcl, ?_, hfree (hk.readClosed hcl)⟩
    unfold discardedBy
    rw [hi.kept_of_closed hcl, ite_self]
  refine ⟨?_, ?_, ?_, ?_, ?_, ?_, ?_, ?_, ?_, ?_⟩
  · have : arrivals (tr ++ [x]) = arrivals tr ++ arrivedBy x := by simp [arrivals]
    rw [this, hdel, hdis, h.conserve, append_assoc _ _ (arrivedBy x), hm.conserve]
    by_cases hne : discards tr = []
    · simp [hne]
    · obtain ⟨hd, hdd, hkk⟩ := hswap hne
      simp [hd, hdd, hkk]
  · rw [hdis]
    by_cases hne : discards tr = []
    · rw [hne, nil_append]
      unfold discardedBy
      split
      · next hcl =>
        rw [Bool.and_eq_true] at hcl
        rw [hfree hcl.1, append_nil]
        exact x.pre.r.length_kept
      · exact x.out.state.r.length_kept
    · obtain ⟨-, hdd, hkk⟩ := hswap hne
      rw [hdd, hkk, append_nil, append_nil]
      have := h.one
      rw [length_append] at this
      omega
  · rw [hdis]
    intro hne
    by_cases hd : discards tr = []
    · rw [hd, nil_append] at hne
      unfold discardedBy at hne
      split at hne
      · next hcl =>
        rw [Bool.and_eq_true] at hcl
        exact hcl.1
      · exact absurd rfl hne
    · exact hk.readClosed (h.discarded hd)
  · intro y hy hcl
    rcases mem_append.mp hy with hy | hy
    · exact hk.readClosed (h.closed y hy hcl)
    · rw [mem_singleton.mp hy] at hcl
      exact hcl
  · intro y hy a ha
    rcases mem_append.mp hy with hy | hy
    · exact h.delivers y hy a ha
    · rw [mem_singleton.mp hy] at ha ⊢
      obtain ⟨hcl, hp, hlen, -⟩ := hm.delivers a ha
      exact ⟨hcl, hp, hcap ▸ hlen⟩
  · rw [hdel]
    intro a ha hok
    rcases mem_append.mp ha with ha | ha
    · exact ⟨(h.terminal a ha hok).1, hk.readClosed (h.terminal a ha hok).2⟩
    · exact (hm.delivers a ha).2.2.2 hok
  · rw [hdel]
    refine pairwise_append.mpr ⟨h.last, ?_, ?_⟩
    · match hd : deliveredBy x.out, length_deliveredBy x.out with
      | [], _ => exact .nil
      | [a], _ => exact pairwise_singleton _ _
      | _ :: _ :: _, hle => simp at hle
    · intro a ha b hb
      refine Bool.of_not_eq_false fun hok => ?_
      rw [hm.silent (h.terminal a ha hok).2] at hb
      cases hb
  · refine pairwise_append.mpr ⟨h.after, pairwise_singleton _ _, ?_⟩
    intro y hy z hz hcl
    rw [mem_singleton.mp hz]
    exact hm.silent (h.closed y hy hcl)
  · intro y hy hc a ha
    rcases mem_append.mp hy with hy | hy
    · exact h.resumed y hy hc a ha
    · rw [mem_singleton.mp hy] at hc ha ⊢
      rw [hres hc]
      exact resume_delivers hi ha
  · rw [receives_append, h.outstanding, hrecv]

end

/-- Everything a run keeps of the read side. -/
def ReadRun (u : Setup) (tr : List SStep) (s : KlStream) (st : List Frame) : Prop :=
  (Base u tr s st ∧ ReadInv s.r (readFrames st)) ∧ Delivered u tr s

/-- The read side is as it was set up. -/
theorem Base.readConfig {u : Setup} {tr : List SStep} {st : List Frame}
    (h : Base u tr s st) : s.r.readCap = u.readCap ∧
    (s.r.readCompletionMode = false → s.r.readDisarm = true) := by
  have hr := h.read
  rw [Setup.stream_eq] at hr
  refine ⟨hr.readCap, fun hm => ?_⟩
  rw [hr.readDisarm]
  exact u.disarm_of_readiness (hr.readCompletionMode.symm.trans hm)

/-- Every stretch keeps the account of the read side. -/
theorem ReadRun.preserves (u : Setup) (P : SConfig → SAct → Prop) :
    machine.Preserves P (ReadRun u) := by
  have hI : machine.Preserves P (fun tr s st => Base u tr s st ∧ ReadInv s.r (readFrames st)) :=
    (Base.preserves u P).and (ReadInv.preserves P)
  refine hI.strengthen ?_ ?_
  · intro tr s st op hpre h hp
    obtain ⟨-, hr'⟩ := hI.enter tr s st op hpre hp
    obtain ⟨hb, hr⟩ := hpre
    obtain ⟨hcap, hdis⟩ := hb.readConfig
    refine h.step hr hcap (enter_keepsRead op s) (.enter hr op)
      hr'.kept_of_closed ?_ (Receiving.inflight_eq (@Receiving.enter s st hr.inited hdis op _))
    intro hc
    cases hc
    rfl
  · intro tr s st f v hpre h hp
    obtain ⟨-, hr'⟩ := hI.resume tr s st f v hpre hp
    obtain ⟨hb, hr⟩ := hpre
    exact h.step hr hb.readConfig.1
      (afterHook_keepsRead f v s) (.afterHook hr v) hr'.kept_of_closed nofun
      (Receiving.inflight_eq (@Receiving.afterHook s st f v _))

/-- The read contract, in every run. What arrived was delivered in order and once,
but for one completion at most that is held or was held when the read side closed.
Nothing is delivered while paused, after a close or beyond the buffer. A held
completion is delivered by the next resume. A terminal one is the last and carries no
data. One receive at most is outstanding. -/
theorem read_delivery (u : Setup) (c : SConfig) (hc : machine.Reach Machine.Any u.stream c) :
    arrivals c.trace = deliveries c.trace ++ discards c.trace ++ c.state.r.kept ∧
    (discards c.trace ++ c.state.r.kept).length ≤ 1 ∧
    (∀ x ∈ c.trace, ∀ a ∈ deliveredBy x.out,
      x.pre.r.readClosed = false ∧ x.out.state.r.readPaused = false ∧ a.len ≤ u.readCap) ∧
    c.trace.Pairwise (fun x y => x.out.state.r.readClosed = true → deliveredBy y.out = []) ∧
    (∀ x ∈ c.trace, x.cause = .enter .resume → ∀ a ∈ x.pre.r.kept, deliveredBy x.out = [a]) ∧
    (∀ a ∈ deliveries c.trace, a.ok = false → a.len = 0) ∧
    (deliveries c.trace).Pairwise (fun a _ => a.ok = true) ∧
    receives c.trace ≤ 1 := by
  obtain ⟨-, h⟩ := hc.invariant ⟨⟨.start u, .start u⟩, .start u⟩ (ReadRun.preserves u _)
  refine ⟨h.conserve, h.one, h.delivers, h.after, h.resumed, ?_, h.last, ?_⟩
  · intro a ha hok
    exact (h.terminal a ha hok).1
  · rw [h.outstanding]
    exact Bool.toNat_le _

/-- A completion held during a pause, delivered on resume, and the end of the stream. -/
theorem read_delivery_held : ∃ c, machine.run Machine.Any (Machine.start mixedSetup.stream)
        [.call .readStart, .ret 0, .call .pause, .call (.onRecv 3 true), .call .resume, .ret 0,
          .ret 0, .call (.onRecv 0 false), .ret 0] = some c ∧
      c.stack = [] ∧ deliveries c.trace = [⟨3, true⟩, ⟨0, false⟩] ∧
      arrivals c.trace = deliveries c.trace ++ discards c.trace ++ c.state.r.kept ∧
      receives c.trace ≤ 1 := by
  refine Machine.exists_run ⟨_, rfl, fun hc => ?_⟩
  obtain ⟨harr, -, -, -, -, -, -, hone⟩ := read_delivery mixedSetup _ hc
  exact ⟨by decide, by decide, harr, hone⟩

/-- A completion that reports more bytes than the buffer has is neither spurious, nor
late, nor held, and is not delivered: it closes the read side. -/
theorem oversize_undelivered : ∃ c, machine.run Machine.Any (Machine.start mixedSetup.stream)
        [.call .readStart, .ret 0] = some c ∧
      c.state.r.recvInflight = true ∧ c.state.r.readClosed = false ∧ c.state.r.readPaused = false ∧
    ∃ c', machine.run Machine.Any c [.call (.onRecv 9 true)] = some c' ∧
      c'.stack = [] ∧ deliveries c'.trace = [] ∧ c'.state.r.recvHeld = false ∧
      c'.state.r.readClosed = true :=
  ⟨_, rfl, by decide, by decide, by decide, _, rfl, by decide, by decide, by decide, by decide⟩

end KlStream
