-- SUMMARY: The multipart reader sees the same parts in any cutting.
import Keel.Http.Multipart

/-!
# Cuts of a multipart body

A reader that has pulled all it can holds only bytes that may still become a boundary or a
header block. One turn of its loop either takes bytes off the front of the input, in the same
way whatever follows them, or waits, or stops. From this a push of two pieces is the same as
the pieces pushed one after the other.
-/

open Message WordSearch Multipart List

namespace KlHttpMultipartReader

variable {mr mr' : KlHttpMultipartReader} {b : List UInt8}

/-! ## Pulling -/

theorem after_after (xs ys : List PartItem) (p : Pulled) :
    (p.after ys).after xs = p.after (xs ++ ys) := by
  unfold Pulled.after
  rw [append_assoc]

/-- What no call changes. -/
structure Kept (mr mr' : KlHttpMultipartReader) : Prop where
  delimiter : mr'.delimiter = mr.delimiter
  config : mr'.config = mr.config
  total : mr'.totalReceived = mr.totalReceived

theorem Kept.trans {m : KlHttpMultipartReader} (h : Kept mr mr') (h' : Kept mr' m) : Kept mr m :=
  ⟨h'.delimiter.trans h.delimiter, h'.config.trans h.config, h'.total.trans h.total⟩

/-- What one call leaves: not more than was held, and less when it gives an event to go on after. -/
structure Shrinks (mr : KlHttpMultipartReader) (r : KlHttpMultipartReader × KlHttpMultipartEvent) :
    Prop where
  le : r.1.held ≤ mr.held
  lt : r.2.isLast = false → r.1.held < mr.held
  kept : Kept mr r.1

variable {r : KlHttpMultipartReader × KlHttpMultipartEvent}

theorem shrinks_last (hle : r.1.held ≤ mr.held)
    (hlast : r.2.isLast = true) (hd : Kept mr r.1) : Shrinks mr r :=
  ⟨hle, fun hnot => absurd (hnot.symm.trans hlast) Bool.false_ne_true, hd⟩

theorem shrinks_fail (hle : mr'.held ≤ mr.held) (hd : Kept mr mr')
    (code : KlHttpMultipartErrorCode) : Shrinks mr (mr'.fail code) :=
  shrinks_last hle rfl ⟨hd.delimiter, hd.config, hd.total⟩

theorem shrinks_needOrEof (hle : mr'.held ≤ mr.held) (hd : Kept mr mr') :
    Shrinks mr mr'.needOrEof := by
  unfold needOrEof
  split
  · exact shrinks_fail hle hd _
  · exact shrinks_last hle rfl hd

theorem shrinks_wait : Shrinks mr mr.needOrEof := shrinks_needOrEof (Nat.le_refl _) ⟨rfl, rfl, rfl⟩

theorem shrinks_stop {code : KlHttpMultipartErrorCode} : Shrinks mr (mr.fail code) :=
  shrinks_fail (Nat.le_refl _) ⟨rfl, rfl, rfl⟩ _

theorem Shrinks.trans (h : Shrinks mr' r)
    (hle : mr'.held ≤ mr.held) (hd : Kept mr mr') : Shrinks mr r :=
  ⟨h.le.trans hle, fun hnot => (h.lt hnot).trans_le hle, hd.trans h.kept⟩

theorem headerTake_le (mr : KlHttpMultipartReader) : mr.headerTake ≤ mr.input.length := by
  unfold headerTake
  split
  · exact Nat.le_refl _
  · exact Nat.min_le_left _ _

section

variable (hconsumed : mr.inputConsumed = 0)
include hconsumed

/-- Body bytes that are handed out are not held any more. -/
theorem shrinks_emit {n : Nat} (hpos : 0 < n) (hlen : n ≤ mr.input.length) :
    Shrinks mr (mr.emit n) := by
  unfold emit
  split
  · exact shrinks_stop
  · refine ⟨?_, fun _ => ?_, ⟨rfl, rfl, rfl⟩⟩ <;> simp only [held, hconsumed] <;> omega

/-- A step in the body. -/
theorem shrinks_nextBody (hdel : 0 < mr.delimiter.length) : Shrinks mr mr.nextBody := by
  unfold nextBody
  split
  · exact shrinks_wait
  rename_i hne
  split
  · next hfind =>
    have hlen := find_add_length hfind
    refine ⟨?_, fun _ => ?_, ⟨rfl, rfl, rfl⟩⟩ <;> simp only [held, hconsumed, length_drop] <;> omega
  · next k hk hfind =>
    have hlen := find_add_length hfind
    exact shrinks_emit hconsumed (Nat.pos_of_ne_zero hk) (by omega)
  · split
    · exact shrinks_emit hconsumed (by omega) (by omega)
    · exact shrinks_wait

/-- The headers of a part are gone when it begins. -/
theorem shrinks_beginPart {hdr rest : List UInt8} {hdrEnd : Nat} (hpos : 0 < hdrEnd)
    (hend : hdrEnd ≤ hdr.length)
    (hsum : hdr.length + rest.length = mr.hdr.length + mr.input.length) :
    Shrinks mr (mr.beginPart hdr rest hdrEnd) := by
  unfold beginPart
  simp only
  split
  · refine shrinks_fail ?_ ⟨by rfl, by rfl, by rfl⟩ _
    unfold held
    simp only [hconsumed]
    omega
  · split
    · refine shrinks_fail ?_ ⟨by rfl, by rfl, by rfl⟩ _
      unfold held
      simp only [hconsumed, length_append, length_drop, length_take]
      omega
    · refine ⟨?_, fun _ => ?_, ⟨rfl, rfl, rfl⟩⟩ <;>
        simp only [held, hconsumed, length_append, length_drop, length_nil] <;> omega

/-- A step in the headers. -/
theorem shrinks_nextHeaders : Shrinks mr mr.nextHeaders := by
  have htake := mr.headerTake_le
  unfold nextHeaders
  split_ifs
  · exact shrinks_wait
  · exact shrinks_stop
  · exact shrinks_stop
  have hsum : (mr.hdr ++ mr.input.take mr.headerTake).length +
      (mr.input.drop mr.headerTake).length = mr.hdr.length + mr.input.length := by
    rw [length_append, length_take, length_drop]
    omega
  simp only
  split
  · next k hfind => exact shrinks_beginPart hconsumed (Nat.succ_pos _) (find_add_length hfind) hsum
  have hle : held { mr with hdr := mr.hdr ++ mr.input.take mr.headerTake,
                            input := mr.input.drop mr.headerTake } ≤
      mr.held := by
    unfold held
    simp only [hconsumed, Nat.sub_zero, hsum]
    exact Nat.le_refl _
  split
  · exact shrinks_fail hle ⟨rfl, rfl, rfl⟩ _
  · exact shrinks_needOrEof hle ⟨rfl, rfl, rfl⟩

/-- A step behind a boundary. -/
theorem shrinks_nextAfterBoundary : Shrinks mr mr.nextAfterBoundary := by
  unfold nextAfterBoundary
  split
  · next a c rest hinput =>
    have hheld : mr.held = mr.hdr.length + (rest.length + 2) := by
      unfold held
      rw [hinput, hconsumed]
      rfl
    split_ifs
    · refine shrinks_last ?_ rfl ⟨rfl, rfl, rfl⟩
      rw [hheld]
      unfold held
      simp only [hconsumed]
      omega
    · exact shrinks_stop
    · refine Shrinks.trans (shrinks_nextHeaders hconsumed) ?_ ⟨rfl, rfl, rfl⟩
      rw [hheld]
      unfold held
      simp only [hconsumed, length_nil]
      omega
    · exact shrinks_stop
  · exact shrinks_wait

/-- A step in the preamble. -/
theorem shrinks_nextPreamble : Shrinks mr mr.nextPreamble := by
  have hdrop (d : Nat) (st : KlHttpMultipartParserState) :
      held { mr with input := mr.input.drop d, state := st } ≤ mr.held := by
    unfold held
    simp only [hconsumed, length_drop]
    omega
  unfold nextPreamble
  simp only
  split
  · exact shrinks_wait
  · split
    · exact Shrinks.trans (shrinks_nextAfterBoundary hconsumed) (hdrop _ _) ⟨rfl, rfl, rfl⟩
    · exact shrinks_needOrEof (hdrop _ mr.state) ⟨rfl, rfl, rfl⟩

end

theorem held_applyConsume (mr : KlHttpMultipartReader) : mr.applyConsume.held = mr.held := by
  unfold applyConsume held
  rw [length_drop, Nat.sub_zero]

/-- Every event uses up bytes, or is the last for now. -/
theorem shrinks_next (hdel : 0 < mr.delimiter.length) : Shrinks mr mr.next := by
  have hheld := mr.held_applyConsume
  suffices h : Shrinks mr.applyConsume mr.next from h.trans (Nat.le_of_eq hheld) ⟨rfl, rfl, rfl⟩
  have hconsumed : mr.applyConsume.inputConsumed = 0 := rfl
  unfold next
  simp only
  split
  · exact shrinks_last (Nat.le_refl _) rfl ⟨rfl, rfl, rfl⟩
  · exact shrinks_last (Nat.le_refl _) rfl ⟨rfl, rfl, rfl⟩
  · exact shrinks_nextPreamble hconsumed
  · exact shrinks_nextAfterBoundary hconsumed
  · exact shrinks_nextHeaders hconsumed
  · exact shrinks_nextBody hconsumed hdel

/-- More rounds than bytes held change nothing. -/
theorem pullUpTo_eq (hdel : 0 < mr.delimiter.length) {n m : Nat} (hn : mr.held < n)
    (hm : mr.held < m) : pullUpTo n mr = pullUpTo m mr := by
  induction n generalizing mr m with
  | zero => exact absurd hn (Nat.not_lt_zero _)
  | succ n ih =>
    cases m with
    | zero => exact absurd hm (Nat.not_lt_zero _)
    | succ m =>
      have hshrinks := shrinks_next hdel
      unfold pullUpTo
      split
      · rfl
      · next hmore =>
        have hlt := hshrinks.lt (Bool.not_eq_true _ ▸ hmore)
        rw [ih (hshrinks.kept.delimiter ▸ hdel) (m := m) (by omega) (by omega)]

/-- Pulling ends at an event that asks for data or is final. -/
theorem pull_last (hlast : mr.next.2.isLast = true) :
    mr.pull = { items := [], reader := mr.next.1, last := mr.next.2 } := by
  unfold pull pullUpTo
  rw [if_pos hlast]

/-- It goes on behind any other. -/
theorem pull_more (hdel : 0 < mr.delimiter.length) (hmore : mr.next.2.isLast = false) :
    mr.pull = mr.next.1.pull.after mr.next.2.items := by
  have hshrinks := shrinks_next hdel
  have hlt := hshrinks.lt hmore
  have hnot : ¬mr.next.2.isLast = true := by
    rw [hmore]
    exact Bool.false_ne_true
  have hdel' : 0 < mr.next.1.delimiter.length := hshrinks.kept.delimiter ▸ hdel
  conv_lhs => unfold pull pullUpTo
  rw [if_neg hnot, pullUpTo_eq hdel' (m := mr.next.1.held + 1) (by omega) (by omega)]
  rfl

/-- Readers with the same next call are pulled alike. -/
theorem pull_congr (hdel : 0 < mr.delimiter.length) (hdel' : 0 < mr'.delimiter.length)
    (h : mr.next = mr'.next) : mr.pull = mr'.pull := by
  cases hlast : mr.next.2.isLast with
  | true =>
    rw [pull_last hlast, pull_last (h ▸ hlast), h]
  | false =>
    rw [pull_more hdel hlast, pull_more hdel' (h ▸ hlast), h]

/-- A whole pull leaves not more than was held. -/
theorem pullUpTo_kept (hdel : 0 < mr.delimiter.length) (n : Nat) :
    Kept mr (pullUpTo n mr).reader ∧ (pullUpTo n mr).reader.held ≤ mr.held := by
  induction n generalizing mr with
  | zero => exact ⟨(shrinks_next hdel).kept, (shrinks_next hdel).le⟩
  | succ n ih =>
    have hshrinks := shrinks_next hdel
    unfold pullUpTo
    split
    · exact ⟨hshrinks.kept, hshrinks.le⟩
    · obtain ⟨hkept, hle⟩ := ih (hshrinks.kept.delimiter ▸ hdel)
      exact ⟨hshrinks.kept.trans hkept, hle.trans hshrinks.le⟩

/-! ## Turns -/

/-- A reader between two pushes. -/
structure Ready (mr : KlHttpMultipartReader) : Prop where
  delimiter : 4 ≤ mr.delimiter.length
  consumed : mr.inputConsumed = 0
  streaming : mr.streamEnded = false
  clean : mr.lastError = .none
  running : mr.state ≠ .error ∧ mr.state ≠ .done

section

variable (mr b)

/-- What a push that is accepted does. -/
def push : KlHttpMultipartReader :=
  { mr with input := mr.input ++ b, totalReceived := mr.totalReceived + b.length }

@[simp] theorem push_input : (mr.push b).input = mr.input ++ b := rfl
@[simp] theorem push_hdr : (mr.push b).hdr = mr.hdr := rfl
@[simp] theorem push_config : (mr.push b).config = mr.config := rfl
@[simp] theorem push_delimiter : (mr.push b).delimiter = mr.delimiter := rfl

@[simp] theorem push_nil : mr.push [] = mr := by
  unfold push
  rw [append_nil]
  rfl

/-- Two chunks in a row are one. -/
theorem push_push (c : List UInt8) : (mr.push b).push c = mr.push (b ++ c) := by
  unfold push
  simp only [append_assoc, length_append, Nat.add_assoc]

end

theorem Ready.push (h : mr.Ready) (b : List UInt8) : (mr.push b).Ready := { h with }

end KlHttpMultipartReader

/-- The codes of the limits. -/
def KlHttpMultipartErrorCode.isLimit : KlHttpMultipartErrorCode → Bool
  | .partTooLarge | .totalTooLarge | .tooManyParts | .headersTooLarge | .inputOverflow => true
  | _ => false

/-- No limit was reached. -/
def Pulled.Clear (p : Pulled) : Prop := p.reader.lastError.isLimit = false

namespace KlHttpMultipartReader

variable {mr mr' : KlHttpMultipartReader} {b : List UInt8} {code : KlHttpMultipartErrorCode}
  {ev : KlHttpMultipartEvent}
  {n : Nat} {data : List UInt8}

/-- The reader has stopped with the event and the code. -/
def Stopped (mr : KlHttpMultipartReader) (ev : KlHttpMultipartEvent)
    (code : KlHttpMultipartErrorCode) : Prop :=
  ((mr.state = .error ∧ ev = .error) ∨ (mr.state = .done ∧ ev = .done)) ∧ mr.lastError = code

/-- A call that ends the pull in a stop. -/
def Stops (mr : KlHttpMultipartReader) (ev : KlHttpMultipartEvent)
    (code : KlHttpMultipartErrorCode) : Prop :=
  ∃ mr', mr.pull = { items := [], reader := mr', last := ev } ∧ mr'.Stopped ev code

/-- What one turn of a ready reader does, with its own input and with more input behind it. -/
inductive Turn (mr : KlHttpMultipartReader) : Prop
  /-- It takes bytes off the front. -/
  | go (items : List PartItem) (mr' : KlHttpMultipartReader) (ready : mr'.Ready)
    (held : mr'.held < mr.held)
      (here : mr.pull = mr'.pull.after items)
      (ahead : ∀ b, (mr.push b).pull.Clear → (mr.push b).pull = (mr'.push b).pull.after items)
  /-- It waits, and may drop bytes that can no longer matter. -/
  | wait (mr' : KlHttpMultipartReader) (ready : mr'.Ready)
      (here : mr.pull = { items := [], reader := mr', last := .needData })
      (ahead : ∀ b, (mr.push b).pull.Clear → (mr.push b).pull = (mr'.push b).pull)
  | stop (ev : KlHttpMultipartEvent) (code : KlHttpMultipartErrorCode) (here : mr.Stops ev code)
      (ahead : ∀ b, (mr.push b).pull.Clear → (mr.push b).Stops ev code)

theorem Ready.applyConsume (h : mr.Ready) : mr.applyConsume = mr := by
  unfold KlHttpMultipartReader.applyConsume
  rw [h.consumed, drop_zero, ← h.consumed]

theorem Ready.pos (h : mr.Ready) : 0 < mr.delimiter.length :=
  Nat.lt_of_lt_of_le (by decide) h.delimiter

theorem Ready.needOrEof (h : mr.Ready) : mr.needOrEof = (mr, .needData) := by
  unfold KlHttpMultipartReader.needOrEof
  rw [h.streaming]
  rfl

theorem pull_of_fail (h : mr.next = mr'.fail code) : mr.Stops .error code := by
  refine ⟨(mr'.fail code).1, ?_, .inl ⟨rfl, rfl⟩, rfl⟩
  rw [pull_last (h ▸ rfl), h]
  rfl

theorem not_clear_of_fail (h : mr.next = mr'.fail code) (hlimit : code.isLimit = true) :
    ¬mr.pull.Clear := by
  unfold Pulled.Clear
  rw [pull_last (h ▸ rfl), h]
  show ¬code.isLimit = false
  rw [hlimit]
  exact fun hfalse => Bool.false_ne_true hfalse.symm

theorem pull_of_need (h : mr.next = (mr', .needData)) :
    mr.pull = { items := [], reader := mr', last := .needData } := by
  rw [pull_last (h ▸ rfl), h]

theorem pull_of_more (hdel : 0 < mr.delimiter.length) (h : mr.next = (mr', ev))
    (hmore : ev.isLast = false) : mr.pull = mr'.pull.after ev.items := by
  rw [pull_more hdel (h ▸ hmore), h]

/-- A reader that waits without a change. -/
theorem Turn.idle (h : mr.Ready) (hnext : mr.next = (mr, .needData)) : mr.Turn :=
  .wait mr h (pull_of_need hnext) fun _ _ => rfl

/-- A limit that is reached is still reached with more input. -/
theorem Turn.limit (hnext : mr.next = mr'.fail code) (hahead : ∀ b, ¬(mr.push b).pull.Clear) :
    mr.Turn :=
  .stop .error code (pull_of_fail hnext) fun b hclear => absurd hclear (hahead b)

/-- A turn that is the same with any input behind it. -/
theorem Turn.same (items : List PartItem) (mr' : KlHttpMultipartReader) (ready : mr'.Ready)
    (hheld : mr'.held < mr.held)
    (hpull : ∀ b, (mr.push b).pull = (mr'.push b).pull.after items) : mr.Turn :=
  .go items mr' ready hheld (by simpa only [push_nil] using hpull []) fun b _ => hpull b

theorem Turn.halt (hstop : ∀ b, (mr.push b).Stops ev code) : mr.Turn :=
  .stop ev code (push_nil mr ▸ hstop []) fun b _ => hstop b

/-! ### Before the first boundary -/

theorem drop_append_eq {l c : List UInt8} {d : Nat} (hd : d ≤ l.length) :
    (l ++ c).drop d = l.drop d ++ c :=
  drop_append_of_le_length hd

/-- Cutting a text to its last letters before or after more is added. -/
theorem drop_trim (l b : List UInt8) (m : Nat) :
    ((l ++ b).drop (l.length - m)).drop (((l ++ b).drop (l.length - m)).length - m) =
    (l ++ b).drop ((l ++ b).length - m) := by
  rw [drop_drop, length_drop, length_append]
  congr 1
  omega

theorem next_preamble (h : mr.Ready) (hs : mr.state = .preamble) : mr.next = mr.nextPreamble := by
  simp only [next, h.applyConsume, hs]

theorem next_afterBoundary (h : mr.Ready) (hs : mr.state = .afterBoundary) :
    mr.next = mr.nextAfterBoundary := by
  simp only [next, h.applyConsume, hs]

theorem next_headers (h : mr.Ready) (hs : mr.state = .headers) : mr.next = mr.nextHeaders := by
  simp only [next, h.applyConsume, hs]

theorem next_body (h : mr.Ready) (hs : mr.state = .body) : mr.next = mr.nextBody := by
  simp only [next, h.applyConsume, hs]

/-- The reader past a boundary of the preamble. -/
def pastPreamble (mr : KlHttpMultipartReader) (k : Nat) : KlHttpMultipartReader :=
  { mr with input := mr.input.drop (k + (mr.delimiter.drop 2).length), state := .afterBoundary }

/-- The reader with only the last bytes of the preamble. -/
def trimPreamble (mr : KlHttpMultipartReader) : KlHttpMultipartReader :=
  { mr with input := mr.input.drop (mr.input.length - ((mr.delimiter.drop 2).length - 1)) }

section

variable (h : mr.Ready)
include h

theorem Ready.pastPreamble (k : Nat) : (mr.pastPreamble k).Ready :=
  { h with running := ⟨by rintro ⟨⟩, by rintro ⟨⟩⟩ }

theorem Ready.trimPreamble : mr.trimPreamble.Ready := { h with }

theorem next_preamble_some (hs : mr.state = .preamble) {k : Nat}
    (hk : find (mr.delimiter.drop 2) mr.input = some k) : mr.next = (mr.pastPreamble k).next := by
  have hlen := find_add_length hk
  rw [next_preamble h hs, next_afterBoundary (h.pastPreamble k) rfl]
  unfold nextPreamble
  simp only [hk]
  rw [if_neg (by omega)]
  rfl

theorem next_preamble_none (hs : mr.state = .preamble)
    (hk : find (mr.delimiter.drop 2) mr.input = none) : mr.next = (mr.trimPreamble, .needData) := by
  rw [next_preamble h hs, ← h.trimPreamble.needOrEof]
  unfold nextPreamble
  simp only [hk]
  split
  · -- too short to be cut
    next hshort =>
    have htrim : mr.trimPreamble = mr := by
      unfold trimPreamble
      rw [Nat.sub_eq_zero_of_le (Nat.le_sub_one_of_lt hshort), drop_zero]
    rw [htrim]
  · rfl

/-- The last bytes of the preamble are enough to find a boundary that is not complete yet. -/
theorem next_trimPreamble (hs : mr.state = .preamble)
    (hk : find (mr.delimiter.drop 2) mr.input = none) (b : List UInt8) :
    (mr.push b).next = (mr.trimPreamble.push b).next := by
  let d := mr.input.length - ((mr.delimiter.drop 2).length - 1)
  have hfind := find_trim hk b
  have hinput : (mr.input ++ b).drop d = mr.input.drop d ++ b :=
    drop_append_of_le_length (Nat.sub_le _ _)
  cases hk' : find (mr.delimiter.drop 2) (mr.input.drop d ++ b) with
  | some k =>
    rw [hk'] at hfind
    rw [next_preamble_some (h.push b) hs hfind, next_preamble_some (h.trimPreamble.push b) hs hk']
    simp only [pastPreamble, trimPreamble, push]
    rw [← hinput, drop_drop, Nat.add_assoc]
  | none =>
    rw [hk'] at hfind
    rw [next_preamble_none (h.push b) hs hfind, next_preamble_none (h.trimPreamble.push b) hs hk']
    simp only [trimPreamble, push]
    rw [← hinput, drop_trim]

/-- In the preamble, more bytes do not change what was found. -/
theorem turn_preamble (hs : mr.state = .preamble) : mr.Turn := by
  cases hk : find (mr.delimiter.drop 2) mr.input with
  | none =>
    refine .wait mr.trimPreamble h.trimPreamble (pull_of_need (next_preamble_none h hs hk))
      fun b _ => ?_
    exact pull_congr h.pos h.pos (next_trimPreamble h hs hk b)
  | some k =>
    have hle := find_add_length hk
    refine .same [] _ (h.pastPreamble k) ?_ fun b => ?_
    · have hfour := h.delimiter
      simp only [held, pastPreamble, h.consumed, length_drop] at hle ⊢
      omega
    · refine pull_congr h.pos h.pos ?_
      rw [next_preamble_some (h.push b) hs (find_append hk b)]
      congr 1
      show { mr.push b with input := (mr.input ++ b).drop (k + (mr.delimiter.drop 2).length),
                            state := .afterBoundary } =
        { mr.push b with input := mr.input.drop (k + (mr.delimiter.drop 2).length) ++ b,
                         state := .afterBoundary }
      rw [drop_append_eq hle]

end

/-! ### After a boundary -/

/-- The reader at the start of a header block. -/
def startHeaders (mr : KlHttpMultipartReader) (rest : List UInt8) : KlHttpMultipartReader :=
  { mr with input := rest, state := .headers, hdr := [], currentPartSize := 0 }

theorem Ready.startHeaders (h : mr.Ready) (rest : List UInt8) : (mr.startHeaders rest).Ready :=
  { h with running := ⟨by rintro ⟨⟩, by rintro ⟨⟩⟩ }

theorem turn_afterBoundary (h : mr.Ready) (hs : mr.state = .afterBoundary) : mr.Turn := by
  have hshort (hinput : mr.nextAfterBoundary = mr.needOrEof) : mr.Turn :=
    .idle h ((next_afterBoundary h hs).trans (hinput.trans h.needOrEof))
  match hinput : mr.input with
  | [] => exact hshort (by unfold nextAfterBoundary; rw [hinput])
  | [x] => exact hshort (by unfold nextAfterBoundary; rw [hinput])
  | x :: y :: rest =>
    -- the two bytes decide, whatever follows
    have hnext (c : List UInt8) : (mr.push c).next =
        if x = 45 ∧ y = 45 then ({ mr.push c with input := rest ++ c, state := .done }, .done)
        else if x = 13 ∧ y = 10 then
          if mr.config.maxParts ≠ 0 ∧ mr.config.maxParts ≤ mr.partsBegun then
            (mr.push c).fail .tooManyParts
          else ((mr.push c).startHeaders (rest ++ c)).nextHeaders
        else (mr.push c).fail .malformed := by
      rw [next_afterBoundary (h.push c) hs]
      unfold nextAfterBoundary
      rw [push_input, hinput]
      rfl
    by_cases hdone : x = 45 ∧ y = 45
    · have hstop (c : List UInt8) : (mr.push c).Stops .done .none := by
        have heq := (hnext c).trans (if_pos hdone)
        refine ⟨{ mr.push c with input := rest ++ c, state := .done }, ?_, .inr ⟨rfl, rfl⟩, h.clean⟩
        rw [pull_last (heq ▸ rfl), heq]
      exact .halt hstop
    by_cases hcrlf : x = 13 ∧ y = 10
    · by_cases hparts : mr.config.maxParts ≠ 0 ∧ mr.config.maxParts ≤ mr.partsBegun
      · have heq (c : List UInt8) : (mr.push c).next = (mr.push c).fail .tooManyParts := by
          rw [hnext c, if_neg hdone, if_pos hcrlf, if_pos hparts]
        exact .limit (push_nil mr ▸ heq []) fun c => not_clear_of_fail (heq c) rfl
      · have hgo (c : List UInt8) : (mr.push c).pull = ((mr.startHeaders rest).push c).pull := by
          refine pull_congr h.pos h.pos ?_
          rw [hnext c, if_neg hdone, if_pos hcrlf, if_neg hparts,
            next_headers ((h.startHeaders rest).push c) rfl]
          rfl
        refine .same [] _ (h.startHeaders rest) ?_ hgo
        simp only [held, startHeaders, h.consumed, hinput, length_cons, length_nil]
        omega
    · have heq (c : List UInt8) : (mr.push c).next = (mr.push c).fail .malformed := by
        rw [hnext c, if_neg hdone, if_neg hcrlf]
      exact .halt fun c => pull_of_fail (heq c)

/-! ### Inside a part -/

/-- The reader after `n` bytes of a part have been emitted and taken off the input. -/
def emitted (mr : KlHttpMultipartReader) (n : Nat) : KlHttpMultipartReader :=
  { mr with currentPartSize := mr.currentPartSize + n, input := mr.input.drop n }

def bytes (data : List UInt8) : List PartItem := data.map .byte

theorem Ready.emitted (h : mr.Ready) (n : Nat) : (mr.emitted n).Ready := { h with }

theorem partFits_iff : mr.partFits n = true ↔ mr.config.maxPartSize = 0 ∨
    mr.currentPartSize + n ≤ mr.config.maxPartSize := by
  unfold partFits
  rw [decide_eq_true_iff]
  omega

/-- A part that fits has prefixes that fit. -/
theorem partFits_mono {m : Nat} (h : mr.partFits m = true) (hle : n ≤ m) :
    mr.partFits n = true := by
  rw [partFits_iff] at h ⊢
  omega

/-- The reader that has handed out `n` bytes and not yet taken them off the input. -/
def handedOut (mr : KlHttpMultipartReader) (n : Nat) : KlHttpMultipartReader :=
  { mr with currentPartSize := mr.currentPartSize + n, inputConsumed := n }

/-- The next call takes them off first. -/
theorem next_handedOut (h : mr.Ready) (n : Nat) : (mr.handedOut n).next = (mr.emitted n).next := by
  have hready := (h.emitted n).applyConsume
  unfold next
  rw [hready]
  unfold applyConsume emitted handedOut
  rw [h.consumed]

/-- A call that emits, and the calls after it. -/
theorem pull_emit (h : mr.Ready) (hnext : mr.next = mr.emit n) (hfits : mr.partFits n = true) :
    mr.pull = (mr.emitted n).pull.after (bytes (mr.input.take n)) := by
  have hemit : mr.next = (mr.handedOut n, .partData (mr.input.take n)) := by
    rw [hnext]
    unfold emit
    rw [hfits]
    rfl
  have hpos : 0 < (mr.handedOut n).delimiter.length := h.pos
  rw [pull_of_more h.pos hemit rfl, pull_congr hpos (h.emitted n).pos (next_handedOut h n)]
  rfl

theorem emit_not_fits (hfits : mr.partFits n = false) : mr.emit n = mr.fail .partTooLarge := by
  unfold emit
  rw [hfits]
  rfl

/-- The body up to the delimiter. -/
theorem next_body_some (h : mr.Ready) (hs : mr.state = .body) {k : Nat}
    (hk : find mr.delimiter mr.input = some k) (hpos : k ≠ 0) : mr.next = mr.emit k := by
  have hlen := find_add_length hk
  have hdel := h.pos
  rw [next_body h hs]
  unfold nextBody
  rw [if_neg (by omega), hk]
  split
  · next heq => exact absurd (Option.some.inj heq) hpos
  · next heq => rw [Option.some.inj heq]
  · next heq => cases heq

/-- Without a delimiter, all but what could be the start of one. -/
theorem next_body_none (h : mr.Ready) (hs : mr.state = .body)
    (hk : find mr.delimiter mr.input = none) (hlen : mr.delimiter.length - 1 < mr.input.length) :
    mr.next = mr.emit (mr.input.length - (mr.delimiter.length - 1)) := by
  rw [next_body h hs]
  unfold nextBody
  rw [if_neg (by omega), hk]
  rw [if_pos hlen]

theorem pushed_emitted (hn : n ≤ mr.input.length) (b : List UInt8) :
    (mr.push b).emitted n = (mr.emitted n).push b := by
  simp only [emitted, push, drop_append_eq hn]

/-- Bytes handed out in two pieces or in one. -/
theorem emitted_emitted (mr : KlHttpMultipartReader) (n m : Nat) :
    (mr.emitted n).emitted m = mr.emitted (n + m) := by
  unfold emitted
  simp only [drop_drop, Nat.add_assoc]

/-- Emitting in one go what could be emitted in two. -/
theorem pull_emit_split (h : mr.Ready) {m : Nat} (hnext : mr.next = mr.emit (n + m))
    (hclear : mr.pull.Clear) (hthen : m ≠ 0 → (mr.emitted n).next = (mr.emitted n).emit m) :
    mr.pull = (mr.emitted n).pull.after (bytes (mr.input.take n)) := by
  cases hfits : mr.partFits (n + m) with
  | false => exact absurd hclear (not_clear_of_fail (hnext.trans (emit_not_fits hfits)) rfl)
  | true =>
    rw [pull_emit h hnext hfits]
    by_cases hm : m = 0
    · rw [hm, Nat.add_zero]
    have hfits' : (mr.emitted n).partFits m = true := by
      rw [partFits_iff] at hfits ⊢
      show mr.config.maxPartSize = 0 ∨ mr.currentPartSize + n + m ≤ mr.config.maxPartSize
      omega
    rw [pull_emit (h.emitted n) (hthen hm) hfits', emitted_emitted, after_after]
    congr 1
    show bytes _ = bytes _ ++ bytes ((mr.input.drop n).take m)
    unfold bytes
    rw [← map_append, take_add]

theorem held_emitted (h : mr.Ready) (hpos : 0 < n) (hn : n ≤ mr.input.length) :
    (mr.emitted n).held < mr.held := by
  simp only [held, emitted, h.consumed, length_drop]
  omega

/-- A piece of the body, with what more bytes add to it. -/
theorem Turn.emit (h : mr.Ready) (hnext : mr.next = mr.emit n) (hpos : 0 < n)
    (hn : n ≤ mr.input.length) (hahead : ∀ b, ∃ m, (mr.push b).next = (mr.push b).emit (n + m) ∧
      (m ≠ 0 → ((mr.emitted n).push b).next = ((mr.emitted n).push b).emit m)) : mr.Turn := by
  cases hfits : mr.partFits n with
  | false =>
    refine .limit (hnext.trans (emit_not_fits hfits)) fun b => ?_
    obtain ⟨m, hm, -⟩ := hahead b
    have hnot : (mr.push b).partFits (n + m) = false := by
      cases hfits' : (mr.push b).partFits (n + m) with
      | false => rfl
      | true =>
        have hsmall : mr.partFits n = true :=
          @partFits_mono (mr.push b) n (n + m) hfits' (Nat.le_add_right n m)
        rw [hfits] at hsmall
        cases hsmall
    exact not_clear_of_fail (hm.trans (emit_not_fits hnot)) rfl
  | true =>
    refine .go (bytes (mr.input.take n)) (mr.emitted n) (h.emitted n) (held_emitted h hpos hn)
      (pull_emit h hnext hfits) ?_
    intro b hclear
    obtain ⟨m, hm, hthen⟩ := hahead b
    rw [← pushed_emitted hn b] at hthen ⊢
    rw [pull_emit_split (h.push b) hm hclear hthen]
    congr 2
    exact take_append_of_le_length hn

theorem turn_body (h : mr.Ready) (hs : mr.state = .body) : mr.Turn := by
  have hdel := h.delimiter
  cases hk : find mr.delimiter mr.input with
  | some k =>
    have hlen := find_add_length hk
    by_cases hzero : k = 0
    · subst hzero
      have hnext (c : List UInt8) : (mr.push c).next =
          ({ mr.push c with input := mr.input.drop mr.delimiter.length ++ c,
                            state := .afterBoundary }, .partEnd) := by
        have hne : ¬(mr.input ++ c).length = 0 := by
          rw [length_append]
          omega
        rw [next_body (h.push c) hs]
        unfold nextBody
        simp only [push_input, push_delimiter, if_neg hne, find_append hk c]
        rw [drop_append_eq (by omega)]
      let mr' : KlHttpMultipartReader :=
        { mr with input := mr.input.drop mr.delimiter.length, state := .afterBoundary }
      have hpull (c : List UInt8) : (mr.push c).pull = (mr'.push c).pull.after [.finish] :=
        pull_of_more (h.push c).pos (hnext c) rfl
      refine .same [.finish] mr' { h with running := ⟨by rintro ⟨⟩, by rintro ⟨⟩⟩ } ?_ hpull
      simp only [held, mr', h.consumed, length_drop]
      omega
    · refine .emit h (next_body_some h hs hk hzero) (Nat.pos_of_ne_zero hzero) (by omega) fun b =>
        ⟨0, ?_, fun hne => absurd rfl hne⟩
      exact next_body_some (h.push b) hs (find_append hk b) hzero
  | none =>
    by_cases hlong : mr.delimiter.length - 1 < mr.input.length
    · have hsafe : mr.input.length - (mr.delimiter.length - 1) ≤ mr.input.length := Nat.sub_le _ _
      refine .emit h (next_body_none h hs hk hlong) (by omega) hsafe fun b => ?_
      have hfind := find_drop hk (d := mr.input.length - (mr.delimiter.length - 1)) (by omega) b
      have hready := (h.emitted (mr.input.length - (mr.delimiter.length - 1))).push b
      generalize hd : mr.input.length - (mr.delimiter.length - 1) = d at *
      have hdlen : (mr.input.drop d).length = mr.delimiter.length - 1 := by
        rw [length_drop]
        omega
      cases hk' : find mr.delimiter (mr.input.drop d ++ b) with
      | some k =>
        rw [hk'] at hfind
        exact ⟨k, next_body_some (h.push b) hs hfind (by omega), next_body_some hready hs hk'⟩
      | none =>
        rw [hk'] at hfind
        refine ⟨b.length, ?_, fun hb => ?_⟩
        · have heq := next_body_none (h.push b) hs hfind
          rw [push_input, push_delimiter, length_append] at heq
          rw [heq (by omega)]
          congr 1
          omega
        · have hlen : ((mr.emitted d).push b).input.length = mr.delimiter.length - 1 + b.length :=
            length_append.trans (congrArg (· + b.length) hdlen)
          have heq := next_body_none hready hs hk'
          rw [hlen, push_delimiter] at heq
          rw [heq (by show mr.delimiter.length - 1 < _; omega)]
          congr 1
          show mr.delimiter.length - 1 + b.length - (mr.delimiter.length - 1) = _
          omega
    · refine .idle h ?_
      rw [next_body h hs, ← h.needOrEof]
      unfold nextBody
      split
      · rfl
      · simp only [hk]

/-! ### In a header block -/

variable (mr)

/-- The header buffer after one copy, and the input that is left. -/
def copied : List UInt8 := mr.hdr ++ mr.input.take mr.headerTake

def uncopied : List UInt8 := mr.input.drop mr.headerTake

/-- The header buffer is at its cap. -/
def HeaderFull : Prop := mr.config.maxHeadersSize ≠ 0 ∧ mr.config.maxHeadersSize - mr.hdr.length = 0

/-- The header buffer may take its share of the input. -/
def HeaderFits : Prop := growBuf mr.hdr.length mr.headerTake mr.config.maxHeadersSize = true

/-- The reader that waits for the rest of a header block. -/
def awaitHeaders : KlHttpMultipartReader := { mr with hdr := mr.copied, input := mr.uncopied }

/-- The reader at the start of a part. -/
def startPart (rest : List UInt8) : KlHttpMultipartReader :=
  { mr with input := rest, partsBegun := mr.partsBegun + 1, state := .body, hdr := [] }

/-- The header buffer takes a first part of the bytes. -/
theorem copied_append_uncopied : mr.copied ++ mr.uncopied = mr.hdr ++ mr.input := by
  unfold copied uncopied
  rw [append_assoc, take_append_drop]

theorem copied_eq : mr.copied = (mr.hdr ++ mr.input).take (mr.hdr.length + mr.headerTake) :=
  (take_length_add_append _).symm

theorem uncopied_eq : mr.uncopied = (mr.hdr ++ mr.input).drop (mr.hdr.length + mr.headerTake) :=
  (drop_length_add_append _).symm

theorem length_copied : mr.copied.length = mr.hdr.length + mr.headerTake := by
  unfold copied
  rw [length_append, length_take_of_le mr.headerTake_le]

variable {mr}

/-- All there is is copied, up to the cap. -/
theorem copies_to_cap (hroom : ¬mr.HeaderFull) : mr.copied.length =
    if mr.config.maxHeadersSize = 0 then (mr.hdr ++ mr.input).length
    else min (mr.hdr ++ mr.input).length mr.config.maxHeadersSize := by
  unfold HeaderFull at hroom
  rw [length_copied, length_append]
  unfold headerTake
  split <;> omega

/-- Bytes are left only at the cap. -/
theorem cap_of_left (hroom : ¬mr.HeaderFull) (hleft : mr.uncopied ≠ []) :
    mr.config.maxHeadersSize ≠ 0 ∧ mr.config.maxHeadersSize ≤ mr.copied.length := by
  have hlen := copies_to_cap hroom
  have hsum := congrArg length mr.copied_append_uncopied
  have hpos := length_pos_of_ne_nil hleft
  rw [length_append] at hsum
  split at hlen <;> omega

/-- What the limit on headers allows. -/
theorem headerFits_iff : mr.HeaderFits ↔
    mr.copied.length ≤ SIZE_MAX ∧
    (mr.config.maxHeadersSize = 0 ∨ mr.copied.length ≤ mr.config.maxHeadersSize) := by
  unfold HeaderFits growBuf
  rw [decide_eq_true_iff, length_copied]

/-- A full header buffer is refused. -/
theorem next_headers_full (h : mr.Ready) (hs : mr.state = .headers) (hne : mr.input ≠ [])
    (hfull : mr.HeaderFull) : mr.next = mr.fail .headersTooLarge := by
  unfold HeaderFull at hfull
  rw [next_headers h hs]
  unfold nextHeaders
  rw [if_neg (mt length_eq_zero_iff.mp hne), if_pos hfull]

/-- The call copies from the input. -/
structure Copies (mr : KlHttpMultipartReader) : Prop where
  ready : mr.Ready
  state : mr.state = .headers
  input : mr.input ≠ []
  room : ¬mr.HeaderFull

theorem Copies.push (h : mr.Copies) (b : List UInt8) : (mr.push b).Copies :=
  ⟨h.ready.push b, h.state, append_ne_nil_of_left_ne_nil h.input b, h.room⟩

theorem Copies.length_push (h : mr.Copies) (b : List UInt8) :
    mr.copied.length ≤ (mr.push b).copied.length := by
  rw [copies_to_cap h.room, copies_to_cap (h.push b).room, push_hdr, push_input, push_config,
    ← append_assoc, @List.length_append _ _ b]
  split <;> omega

/-- More input only lengthens what is copied. -/
theorem Copies.copied_push (h : mr.Copies) (b : List UInt8) : mr.copied <+: (mr.push b).copied := by
  have hle := h.length_push b
  have hhere : mr.copied <+: mr.hdr ++ mr.input ++ b := by
    rw [copied_eq]
    exact (List.take_prefix _ _).trans (prefix_append _ b)
  refine prefix_of_prefix_length_le hhere ?_ hle
  rw [copied_eq, push_hdr, push_input, append_assoc]
  exact take_prefix _ _

theorem Copies.unfit (h : mr.Copies) (hfits : ¬mr.HeaderFits) :
    mr.next = mr.fail .headersTooLarge := by
  have hroom := h.room
  unfold HeaderFull at hroom
  unfold HeaderFits at hfits
  rw [next_headers h.ready h.state]
  unfold nextHeaders
  rw [if_neg (mt length_eq_zero_iff.mp h.input), if_neg hroom, if_pos (by simpa using hfits)]

/-- The call copies, and looks for the end of the block. -/
theorem Copies.next (h : mr.Copies) (hfits : mr.HeaderFits) : mr.next =
      match find crlfCrlf mr.copied with
      | some k => mr.beginPart mr.copied mr.uncopied (k + 4)
      | none =>
        if mr.config.maxHeadersSize ≠ 0 ∧ mr.config.maxHeadersSize ≤ mr.copied.length ∧
        mr.uncopied.length ≠ 0 then
          mr.awaitHeaders.fail .headersTooLarge
        else mr.awaitHeaders.needOrEof := by
  have hroom := h.room
  unfold HeaderFull at hroom
  unfold HeaderFits at hfits
  rw [next_headers h.ready h.state]
  unfold nextHeaders
  rw [if_neg (mt length_eq_zero_iff.mp h.input), if_neg hroom, if_neg (by simpa using hfits)]
  rfl

/-- What was copied beyond the end of the block can be put back. -/
def PutsBack (mr : KlHttpMultipartReader) (hdrEnd : Nat) : Prop :=
  (!(mr.copied.drop hdrEnd).isEmpty &&
    !growBuf mr.uncopied.length (mr.copied.drop hdrEnd).length mr.config.maxInputBuffer) = false

/-- When the bytes behind the headers go back to the input. -/
theorem putsBack_iff (hn : n ≤ mr.copied.length) : mr.PutsBack n ↔ mr.copied.length = n ∨
    ((mr.hdr ++ mr.input).length - n ≤ SIZE_MAX ∧
      (mr.config.maxInputBuffer = 0 ∨ (mr.hdr ++ mr.input).length - n ≤
        mr.config.maxInputBuffer)) := by
  have hsum := congrArg length mr.copied_append_uncopied
  rw [length_append] at hsum
  have hrest : mr.uncopied.length + (mr.copied.length - n) =
      (mr.hdr ++ mr.input).length - n := by omega
  unfold PutsBack growBuf
  rw [length_drop, hrest, Bool.and_eq_false_imp, Bool.not_eq_true', isEmpty_eq_false_iff, ne_eq,
    drop_eq_nil_iff, Bool.not_eq_false', decide_eq_true_iff]
  constructor
  · intro himp
    rcases Nat.lt_or_ge n mr.copied.length with hlt | hge
    · exact .inr (himp (Nat.not_le.mpr hlt))
    · exact .inl (Nat.le_antisymm hge hn)
  · rintro (heq | hfits) hlt
    · exact absurd heq.le hlt
    · exact hfits

/-- The part begins with the bytes behind its headers. -/
theorem beginPart_eq (hn : n ≤ mr.copied.length) (hback : mr.PutsBack n) :
    mr.beginPart mr.copied mr.uncopied n = match parseHeaders (mr.copied.take n) with
      | none => { mr with input := (mr.hdr ++ mr.input).drop n,
                          hdr := mr.copied.take n }.fail .malformed
      | some part => (mr.startPart ((mr.hdr ++ mr.input).drop n), .partBegin part) := by
  unfold beginPart
  unfold PutsBack at hback
  simp only [hback, Bool.false_eq_true, if_false]
  rw [← mr.copied_append_uncopied, drop_append_eq hn]
  rfl

theorem beginPart_overflow (hback : ¬mr.PutsBack n) :
    ∃ mr' : KlHttpMultipartReader, mr.beginPart mr.copied mr.uncopied n =
    mr'.fail .inputOverflow := by
  unfold beginPart
  unfold PutsBack at hback
  simp only [hback, if_true]
  exact ⟨_, rfl⟩

section

variable (h : mr.Copies)
include h

theorem Copies.putsBack_of_push (hn : n ≤ mr.copied.length) (hback : (mr.push b).PutsBack n) :
    mr.PutsBack n := by
  have hle := h.length_push b
  rw [putsBack_iff (hn.trans hle), push_hdr, push_input, push_config, ← append_assoc,
    @List.length_append _ _ b] at hback
  rw [putsBack_iff hn]
  omega

theorem Copies.fits_of_clear (hclear : (mr.push b).pull.Clear) : (mr.push b).HeaderFits := by
  by_contra hnot
  exact not_clear_of_fail ((h.push b).unfit hnot) rfl hclear

/-- A block that is complete is read in the same way with more input behind it. -/
theorem turn_headers_found (hfits : mr.HeaderFits) {k : Nat}
    (hk : find crlfCrlf mr.copied = some k) : mr.Turn := by
  have hlen : k + 4 ≤ mr.copied.length := find_add_length hk
  have hnext : mr.next = mr.beginPart mr.copied mr.uncopied (k + 4) := by
    rw [h.next hfits, hk]
  have htake (b : List UInt8) : (mr.push b).copied.take (k + 4) = mr.copied.take (k + 4) := by
    obtain ⟨x, hx⟩ := h.copied_push b
    rw [← hx]
    exact take_append_of_le_length hlen
  have hlen' (b : List UInt8) := hlen.trans (h.length_push b)
  have hsum := congrArg length mr.copied_append_uncopied
  rw [length_append, length_append] at hsum
  -- with more input the call gets as far, or it reaches a limit
  have hahead (b : List UInt8) (hclear : (mr.push b).pull.Clear) : (mr.push b).PutsBack (k + 4) ∧
      (mr.push b).next = (mr.push b).beginPart (mr.push b).copied (mr.push b).uncopied (k + 4) := by
    obtain ⟨x, hx⟩ := h.copied_push b
    have hnext' : (mr.push b).next = (mr.push b).beginPart (mr.push b).copied (mr.push b).uncopied
        (k + 4) := by
      rw [(h.push b).next (h.fits_of_clear hclear), ← hx, find_append hk x]
    refine ⟨?_, hnext'⟩
    by_contra hback
    obtain ⟨mr', hfail⟩ := beginPart_overflow hback
    exact not_clear_of_fail (hnext'.trans hfail) rfl hclear
  by_cases hback : mr.PutsBack (k + 4)
  · rw [beginPart_eq hlen hback] at hnext
    cases hparse : parseHeaders (mr.copied.take (k + 4)) with
    | none =>
      rw [hparse] at hnext
      refine .stop .error .malformed (pull_of_fail hnext) fun b hclear => ?_
      obtain ⟨hback', hnext'⟩ := hahead b hclear
      rw [beginPart_eq (hlen' b) hback', htake b, hparse] at hnext'
      exact pull_of_fail hnext'
    | some part =>
      rw [hparse] at hnext
      refine .go [.begin part] (mr.startPart ((mr.hdr ++ mr.input).drop (k + 4)))
        { h.ready with running := ⟨by rintro ⟨⟩, by rintro ⟨⟩⟩ } ?_
          (pull_of_more h.ready.pos hnext rfl) fun b hclear => ?_
      · simp only [held, startPart, h.ready.consumed, length_drop, length_append, length_nil]
        omega
      · have hdrop : ((mr.push b).hdr ++ (mr.push b).input).drop (k + 4) =
            (mr.hdr ++ mr.input).drop (k + 4) ++ b := by
          rw [push_hdr, push_input, ← append_assoc, drop_append_eq]
          rw [length_append]
          omega
        obtain ⟨hback', hnext'⟩ := hahead b hclear
        rw [beginPart_eq (hlen' b) hback', htake b, hparse, hdrop] at hnext'
        exact pull_of_more (h.push b).ready.pos hnext' rfl
  · obtain ⟨mr', hfail⟩ := beginPart_overflow hback
    refine .limit (hnext.trans hfail) fun b hclear => ?_
    exact hback (h.putsBack_of_push hlen (hahead b hclear).1)

/-- A block that fills the cap without an end, with more behind it. -/
theorem Copies.not_clear (hk : find crlfCrlf mr.copied = none) (hpos : mr.config.maxHeadersSize ≠ 0)
    (hcap : mr.config.maxHeadersSize ≤ mr.copied.length) (hleft : mr.uncopied ++ b ≠ []) :
    ¬(mr.push b).pull.Clear := by
  intro hclear
  have hsame : (mr.push b).copied.length = mr.copied.length := by
    have hlen := copies_to_cap h.room
    rw [if_neg hpos] at hlen
    rw [copies_to_cap (h.push b).room, push_config, if_neg hpos, push_hdr, push_input,
      ← append_assoc, @List.length_append _ _ b]
    omega
  have hcopied := (h.copied_push b).eq_of_length hsame.symm
  have hrest : (mr.push b).uncopied = mr.uncopied ++ b := by
    rw [← append_right_inj mr.copied]
    rw [← append_assoc, copied_append_uncopied, hcopied, copied_append_uncopied, push_hdr,
      push_input, append_assoc]
  have hnext := (h.push b).next (h.fits_of_clear hclear)
  rw [← hcopied, hk] at hnext
  refine not_clear_of_fail (hnext.trans (if_pos ⟨hpos, hcap, ?_⟩)) rfl hclear
  rw [hrest]
  exact mt length_eq_zero_iff.mp hleft

/-- A block that has not ended yet: its bytes wait in the header buffer. -/
theorem turn_headers_wait (hfits : mr.HeaderFits) (hk : find crlfCrlf mr.copied = none)
    (hleft : mr.uncopied = []) : mr.Turn := by
  have hready : mr.awaitHeaders.Ready := { h.ready with }
  have hnext : mr.next = (mr.awaitHeaders, .needData) := by
    rw [h.next hfits, hk, ← hready.needOrEof]
    exact if_neg fun hand => hand.2.2 (congrArg length hleft)
  have hidle : mr.awaitHeaders.next = (mr.awaitHeaders, .needData) := by
    rw [next_headers hready h.state, ← hready.needOrEof]
    unfold nextHeaders
    exact if_pos (congrArg length hleft)
  refine .wait mr.awaitHeaders hready (pull_of_need hnext) fun b hclear => ?_
  by_cases hb : b = []
  · rw [hb, push_nil, push_nil, pull_of_need hnext, pull_of_need hidle]
  have hmore : mr.uncopied ++ b ≠ [] := append_ne_nil_of_right_ne_nil _ hb
  -- the cap may have been reached exactly
  have hroom : ¬(mr.awaitHeaders.push b).HeaderFull := fun hfull =>
    h.not_clear hk hfull.1 (Nat.sub_eq_zero_iff_le.mp hfull.2) hmore hclear
  have hcopies : (mr.awaitHeaders.push b).Copies := ⟨hready.push b, h.state, hmore, hroom⟩
  -- what is taken together is what was taken first and what is taken now
  have hwhole : (mr.awaitHeaders.push b).hdr ++ (mr.awaitHeaders.push b).input = (mr.push b).hdr ++
      (mr.push b).input := by
    show mr.copied ++ (mr.uncopied ++ b) = mr.hdr ++ (mr.input ++ b)
    rw [← append_assoc, copied_append_uncopied, append_assoc]
  have hlen : (mr.awaitHeaders.push b).copied.length = (mr.push b).copied.length := by
    rw [copies_to_cap hroom, copies_to_cap (h.push b).room, hwhole]
    rfl
  have hreach := hlen
  rw [length_copied, length_copied] at hreach
  have hcopied : (mr.awaitHeaders.push b).copied = (mr.push b).copied := by
    rw [copied_eq, copied_eq, hwhole, hreach]
  have huncopied : (mr.awaitHeaders.push b).uncopied = (mr.push b).uncopied := by
    rw [uncopied_eq, uncopied_eq, hwhole, hreach]
  have hfits' := h.fits_of_clear hclear
  have hfitsb : (mr.awaitHeaders.push b).HeaderFits := by
    rw [headerFits_iff] at hfits' ⊢
    rw [hlen]
    exact hfits'
  have hawait : (mr.awaitHeaders.push b).awaitHeaders = (mr.push b).awaitHeaders := by
    unfold awaitHeaders at hcopied huncopied ⊢
    rw [hcopied, huncopied]
    rfl
  refine pull_congr h.ready.pos hready.pos ?_
  rw [(h.push b).next hfits', hcopies.next hfitsb, hcopied, hawait, huncopied]
  rfl

end

theorem turn_headers (h : mr.Ready) (hs : mr.state = .headers) : mr.Turn := by
  by_cases hne : mr.input = []
  · refine .idle h ?_
    rw [next_headers h hs, ← h.needOrEof]
    unfold nextHeaders
    exact if_pos (congrArg length hne)
  by_cases hfull : mr.HeaderFull
  · exact .limit (next_headers_full h hs hne hfull)
      fun b => not_clear_of_fail
        (next_headers_full (h.push b) hs (append_ne_nil_of_left_ne_nil hne b) hfull) rfl
  have hcopies : mr.Copies := ⟨h, hs, hne, hfull⟩
  by_cases hfits : mr.HeaderFits
  · cases hk : find crlfCrlf mr.copied with
    | some k => exact turn_headers_found hcopies hfits hk
    | none =>
      by_cases hleft : mr.uncopied = []
      · exact turn_headers_wait hcopies hfits hk hleft
      obtain ⟨hpos, hcap⟩ := cap_of_left hfull hleft
      have hnext := hcopies.next hfits
      rw [hk] at hnext
      refine .limit (hnext.trans (if_pos ⟨hpos, hcap, mt length_eq_zero_iff.mp hleft⟩)) fun b => ?_
      exact hcopies.not_clear hk hpos hcap (append_ne_nil_of_left_ne_nil hleft b)
  · refine .limit (hcopies.unfit hfits) fun b hclear => hfits ?_
    have hfits' := hcopies.fits_of_clear hclear
    have hle := hcopies.length_push b
    rw [headerFits_iff] at hfits' ⊢
    rw [push_config] at hfits'
    omega

theorem Ready.turn (h : mr.Ready) : mr.Turn := by
  obtain ⟨herror, hdone⟩ := h.running
  cases hs : mr.state with
  | preamble => exact turn_preamble h hs
  | afterBoundary => exact turn_afterBoundary h hs
  | headers => exact turn_headers h hs
  | body => exact turn_body h hs
  | done => exact absurd hs hdone
  | error => exact absurd hs herror

/-! ## Pushes -/

/-- A pull of a ready reader, with its own input and with more input behind it: it ends in a
reader that waits, or it stops. -/
inductive Settles (mr : KlHttpMultipartReader) : Prop
  | waits (items : List PartItem) (mr' : KlHttpMultipartReader) (ready : mr'.Ready)
      (here : mr.pull = { items, reader := mr', last := .needData })
      (ahead : ∀ b, (mr.push b).pull.Clear → (mr.push b).pull = (mr'.push b).pull.after items)
  | stops (items : List PartItem) (ev : KlHttpMultipartEvent) (code : KlHttpMultipartErrorCode)
      (here : ∃ mr', mr.pull = { items, reader := mr', last := ev } ∧ mr'.Stopped ev code)
      (ahead : ∀ b, (mr.push b).pull.Clear → ∃ mr', (mr.push b).pull = { items, reader := mr',
                                                                         last := ev } ∧
      mr'.Stopped ev code)

/-- Pulling behind each chunk or behind all of them comes to the same. -/
theorem Ready.settles (h : mr.Ready) : mr.Settles := by
  induction hn : mr.held using Nat.strong_induction_on generalizing mr with
  | _ n ih =>
    cases h.turn with
    | wait mr' ready here ahead => exact .waits [] mr' ready here ahead
    | stop ev code here ahead => exact .stops [] ev code here ahead
    | go items mr' ready hheld here ahead =>
      have hclear {b : List UInt8} (hc : (mr.push b).pull.Clear) : (mr'.push b).pull.Clear := by
        rw [ahead b hc] at hc
        exact hc
      cases ih mr'.held (hn ▸ hheld) ready rfl with
      | waits items' m ready' here' ahead' =>
        refine .waits (items ++ items') m ready' ?_ fun b hc => ?_
        · rw [here, here']
          rfl
        · rw [ahead b hc, ahead' b (hclear hc), after_after]
      | stops items' ev code here' ahead' =>
        refine .stops (items ++ items') ev code ?_ fun b hc => ?_
        · obtain ⟨m, hm, hstopped⟩ := here'
          refine ⟨m, ?_, hstopped⟩
          rw [here, hm]
          rfl
        · obtain ⟨m, hm, hstopped⟩ := ahead' b (hclear hc)
          refine ⟨m, ?_, hstopped⟩
          rw [ahead b hc, hm]
          rfl

/-- A reader that has pulled all it can. -/
def Waiting (mr : KlHttpMultipartReader) : Prop :=
  mr.Ready ∧ mr.pull = { items := [], reader := mr, last := .needData }

section

variable (h : mr.Stopped ev code)
include h

theorem Stopped.next : mr.next = (mr.applyConsume, ev) := by
  unfold KlHttpMultipartReader.next
  rcases h.1 with ⟨hs, rfl⟩ | ⟨hs, rfl⟩
  · have hs' : mr.applyConsume.state = .error := hs
    simp only [hs']
  · have hs' : mr.applyConsume.state = .done := hs
    simp only [hs']

theorem Stopped.isLast : ev.isLast = true := by
  rcases h.1 with ⟨-, rfl⟩ | ⟨-, rfl⟩ <;> rfl

/-- A reader that has stopped gives nothing more. -/
theorem Stopped.pull : ∃ mr', mr.pull = { items := [], reader := mr', last := ev } ∧
    mr'.Stopped ev code := by
  refine ⟨mr.applyConsume, ?_, h⟩
  rw [pull_last (h.next ▸ h.isLast), h.next]

theorem Stopped.onData (data : List UInt8) : mr.onData data = mr := by
  unfold KlHttpMultipartReader.onData
  refine if_pos ?_
  rcases h.1 with ⟨hs, -⟩ | ⟨hs, -⟩
  · exact .inl hs
  · exact .inr (.inl hs)

/-- A reader that has stopped takes nothing. -/
theorem Stopped.receive (chunks : List (List UInt8)) :
    (mr.receive chunks).items = [] ∧ (mr.receive chunks).reader.Stopped ev code := by
  induction chunks generalizing mr with
  | nil => exact ⟨rfl, h⟩
  | cons data chunks ih =>
    obtain ⟨mr', hpull, hstopped⟩ := h.pull
    unfold receive
    rw [h.onData, hpull]
    exact ih hstopped

end

/-- The limits on what is received leave room for `n` more bytes. -/
def Room (mr : KlHttpMultipartReader) (n : Nat) : Prop :=
  mr.totalReceived + n ≤ SIZE_MAX ∧
    (mr.config.maxTotalSize = 0 ∨ mr.totalReceived + n ≤ mr.config.maxTotalSize) ∧
    (mr.config.maxInputBuffer = 0 ∨ mr.totalReceived + n ≤ mr.config.maxInputBuffer)

/-- A push that is refused leaves a reader that has stopped at a limit. -/
theorem Ready.onData_cases (h : mr.Ready) (data : List UInt8) :
    (mr.onData data = mr.push data ∧ (data ≠ [] → mr.totalReceived + data.length ≤ SIZE_MAX ∧
      (mr.config.maxTotalSize = 0 ∨ mr.totalReceived + data.length ≤ mr.config.maxTotalSize) ∧
      (mr.config.maxInputBuffer = 0 ∨ mr.input.length + data.length ≤ mr.config.maxInputBuffer))) ∨
    (mr.input.length ≤ mr.totalReceived → ¬mr.Room data.length) ∧
      ∃ code, code.isLimit = true ∧ (mr.onData data).Stopped .error code := by
  unfold KlHttpMultipartReader.onData Room
  split
  · next hor =>
    rcases hor with hs | hs | hlen
    · exact absurd hs h.running.1
    · exact absurd hs h.running.2
    · have hnil := length_eq_zero_iff.mp hlen
      rw [hnil, push_nil]
      exact .inl ⟨rfl, fun hne => absurd rfl hne⟩
  split
  · exact .inr ⟨by omega, .totalTooLarge, rfl, .inl ⟨rfl, rfl⟩, rfl⟩
  rename_i hmax
  split
  · exact .inr ⟨by omega, .totalTooLarge, rfl, .inl ⟨rfl, rfl⟩, rfl⟩
  split <;> rename_i hgrow <;> simp only [growBuf, Bool.not_eq_true', decide_eq_false_iff_not,
    not_not] at hgrow
  · exact .inr ⟨by omega, .inputOverflow, rfl, .inl ⟨rfl, rfl⟩, rfl⟩
  · refine .inl ⟨rfl, fun hne => ?_⟩
    have hpos := length_pos_of_ne_nil hne
    omega

/-- Data within the limits is appended. -/
theorem Ready.onData (h : mr.Ready) (hroom : mr.Room data.length)
    (hheld : mr.input.length ≤ mr.totalReceived) : mr.onData data = mr.push data := by
  rcases h.onData_cases data with ⟨hpush, -⟩ | ⟨hnot, -⟩
  · exact hpush
  · exact absurd hroom (hnot hheld)

/-- What a consumer can tell of two pulls: the same parts, and readers that wait alike or have
stopped alike. -/
def Alike (p q : Pulled) : Prop :=
  p.items = q.items ∧ ((q.last = .needData ∧ p.reader = q.reader) ∨
    ∃ ev code, p.reader.Stopped ev code ∧ q.reader.Stopped ev code)

variable {p : Pulled}

theorem Alike.after {q : Pulled} (h : Alike p q) (items : List PartItem) :
    Alike (p.after items) (q.after items) :=
  ⟨congrArg (items ++ ·) h.1, h.2⟩

/-- The reader that a pull leaves waiting has nothing more to give. -/
theorem waiting_of_settles {items : List PartItem} (ready : mr'.Ready)
    (here : mr.pull = { items, reader := mr', last := .needData })
    (ahead : ∀ b, (mr.push b).pull.Clear → (mr.push b).pull = (mr'.push b).pull.after items) :
    mr'.Waiting := by
  refine ⟨ready, ?_⟩
  have hclear : (mr.push []).pull.Clear := by
    rw [push_nil, here]
    show mr'.lastError.isLimit = false
    rw [ready.clean]
    rfl
  have heq := ahead [] hclear
  rw [push_nil, push_nil, here] at heq
  cases hp : mr'.pull with
  | mk its rd last =>
    rw [hp] at heq
    obtain ⟨hitems, rfl, rfl⟩ := Pulled.mk.inj heq
    have hitems : items = items ++ its := hitems
    rw [self_eq_append_right.mp hitems]

/-- Pushing the chunks one after another is pushing them at once. -/
theorem receive_alike (chunks : List (List UInt8)) (h : mr.Waiting)
    (hheld : mr.held ≤ mr.totalReceived)
    (hroom : mr.Room chunks.flatten.length) (hclear : (mr.push chunks.flatten).pull.Clear) :
    Alike (mr.receive chunks) (mr.push chunks.flatten).pull := by
  induction chunks generalizing mr with
  | nil =>
    rw [flatten_nil, push_nil, h.2]
    exact ⟨rfl, .inl ⟨rfl, rfl⟩⟩
  | cons data chunks ih =>
    obtain ⟨ready, -⟩ := h
    rw [flatten_cons, ← push_push] at hclear ⊢
    rw [flatten_cons, length_append] at hroom
    have hinput : mr.input.length ≤ mr.totalReceived := by
      unfold held at hheld
      rw [ready.consumed] at hheld
      omega
    have hdata : mr.onData data = mr.push data := by
      refine ready.onData ?_ hinput
      unfold Room at hroom ⊢
      omega
    have hreceive : mr.receive (data :: chunks) = ((mr.push data).pull.reader.receive chunks).after
        (mr.push data).pull.items := by
      conv_lhs => unfold receive
      rw [hdata]
    rw [hreceive]
    have hpush := ready.push data
    obtain ⟨hkept, hle⟩ := pullUpTo_kept hpush.pos ((mr.push data).held + 1)
    cases hpush.settles with
    | waits items mr' ready' here ahead =>
      have hreader : (pullUpTo ((mr.push data).held + 1) (mr.push data)).reader = mr' :=
        congrArg Pulled.reader here
      rw [hreader] at hkept hle
      have hahead := ahead chunks.flatten hclear
      rw [here, hahead]
      refine Alike.after (ih (waiting_of_settles ready' here ahead) ?_ ?_ ?_) items
      · have hgrown : (mr.push data).held ≤ (mr.push data).totalReceived := by
          unfold held at hheld ⊢
          show mr.hdr.length + ((mr.input ++ data).length - mr.inputConsumed) ≤ mr.totalReceived +
            data.length
          rw [length_append]
          omega
        rw [hkept.total]
        exact hle.trans hgrown
      · have htotal : mr'.totalReceived = mr.totalReceived + data.length := hkept.total
        have hcfg : mr'.config = mr.config := hkept.config
        unfold Room at hroom ⊢
        rw [htotal, hcfg, Nat.add_assoc]
        exact hroom
      · rw [hahead] at hclear
        exact hclear
    | stops items ev code here ahead =>
      obtain ⟨m, hm, hstopped⟩ := here
      obtain ⟨m', hm', hstopped'⟩ := ahead chunks.flatten hclear
      obtain ⟨hnone, hrest⟩ := hstopped.receive chunks
      rw [hm, hm']
      refine ⟨?_, .inr ⟨ev, code, hrest, hstopped'⟩⟩
      show items ++ (m.receive chunks).items = items
      rw [hnone, append_nil]

/-! ## Whole bodies -/

/-- A new reader waits for data. -/
theorem new_waiting (boundary : List UInt8) (config : KlHttpMultipartConfig) :
    (new boundary config).Waiting := by
  have hready : (new boundary config).Ready :=
    ⟨Nat.le_add_left 4 boundary.length, rfl, rfl, rfl, by rintro ⟨⟩, by rintro ⟨⟩⟩
  have htrim : (new boundary config).trimPreamble = new boundary config := by
    simp only [trimPreamble, new, drop_nil]
  refine ⟨hready, pull_of_need ?_⟩
  rw [next_preamble_none hready rfl rfl, htrim]

/-- What the completion adds depends on what was received only. -/
theorem readAll_alike {chunks : List (List UInt8)} (h : Alike (mr.receive chunks) p) :
    mr.readAll chunks = (p.items ++ p.reader.onComplete.pull.items, p.reader.onComplete.pull.last,
      p.reader.onComplete.pull.reader.lastError) := by
  unfold readAll
  simp only
  obtain ⟨hitems, ⟨-, hreader⟩ | ⟨ev, code, hstopped, hstopped'⟩⟩ := h
  · rw [hitems, hreader]
  · have hcomplete : (mr.receive chunks).reader.onComplete.Stopped ev code := hstopped
    have hcomplete' : p.reader.onComplete.Stopped ev code := hstopped'
    obtain ⟨m, hm, hlast⟩ := hcomplete.pull
    obtain ⟨m', hm', hlast'⟩ := hcomplete'.pull
    rw [hitems, hm, hm', hlast.2, hlast'.2]

/-- One push of a whole body. -/
theorem receive_one (mr : KlHttpMultipartReader) (data : List UInt8) :
    mr.receive [data] = { (mr.onData data).pull with last := .needData } := by
  unfold receive receive Pulled.after
  simp only [append_nil]

theorem receive_one_alike (h : (mr.onData data).Settles) :
    Alike (mr.receive [data]) (mr.onData data).pull := by
  rw [receive_one]
  cases h with
  | waits items mr' ready here ahead => exact ⟨rfl, .inl ⟨congrArg Pulled.last here, rfl⟩⟩
  | stops items ev code here ahead =>
    obtain ⟨m, hm, hstopped⟩ := here
    rw [hm]
    exact ⟨rfl, .inr ⟨ev, code, hstopped, hstopped⟩⟩

/-- A body at whose end no limit has been reached was read without reaching one. -/
theorem clear_of_readAll (h : (mr.onData data).Settles)
    (hlimit : (mr.readAll [data]).2.2.isLimit = false) : (mr.onData data).pull.Clear := by
  rw [readAll_alike (receive_one_alike h)] at hlimit
  cases h with
  | waits items mr' ready here ahead =>
    unfold Pulled.Clear
    rw [here]
    rw [ready.clean]
    rfl
  | stops items ev code here ahead =>
    obtain ⟨m, hm, hstopped⟩ := here
    have hcomplete : m.onComplete.Stopped ev code := hstopped
    obtain ⟨m', hm', hstopped'⟩ := hcomplete.pull
    rw [hm] at hlimit ⊢
    unfold Pulled.Clear
    simp only [hm', hstopped'.2] at hlimit
    rw [hstopped.2]
    exact hlimit

/-- However a body is cut into pushes, with a consumer that pulls all it can after each, the
parts, their data, the last event and the error code are those of one push of the whole body,
as long as the limits are not reached. -/
theorem parts_independent_of_cuts (boundary : List UInt8) (config : KlHttpMultipartConfig)
    (chunks : List (List UInt8))
    (hlimits : ((new boundary config).readAll [chunks.flatten]).2.2.isLimit = false) :
    (new boundary config).readAll chunks = (new boundary config).readAll [chunks.flatten] := by
  have hwaiting := new_waiting boundary config
  generalize hmr : new boundary config = mr at *
  have hempty : mr.input = [] ∧ mr.totalReceived = 0 ∧ mr.held = 0 := by
    rw [← hmr]
    exact ⟨rfl, rfl, rfl⟩
  obtain ⟨hinput, htotal, hheld⟩ := hempty
  rcases hwaiting.1.onData_cases chunks.flatten with ⟨hpush, hroom⟩ | ⟨-, code, hcode, hstopped⟩
  · have hsettles : (mr.onData chunks.flatten).Settles := by
      rw [hpush]
      exact (hwaiting.1.push _).settles
    have hclear := clear_of_readAll hsettles hlimits
    rw [readAll_alike (receive_one_alike hsettles)]
    rw [hpush] at hclear ⊢
    refine readAll_alike (receive_alike chunks hwaiting (by omega) ?_ hclear)
    by_cases hnil : chunks.flatten = []
    · rw [hnil]
      unfold Room
      rw [htotal]
      exact ⟨Nat.zero_le _, .inr (Nat.zero_le _), .inr (Nat.zero_le _)⟩
    · have hlimits := hroom hnil
      rw [hinput, htotal] at hlimits
      unfold Room
      rw [htotal]
      exact hlimits
  · obtain ⟨m, hm, hstopped'⟩ := hstopped.pull
    have hcomplete : m.onComplete.Stopped .error code := hstopped'
    obtain ⟨m', hm', hlast⟩ := hcomplete.pull
    have hend : (mr.readAll [chunks.flatten]).2.2 = code := by
      unfold readAll
      simp only [receive_one, hm, hm']
      exact hlast.2
    rw [hend, hcode] at hlimits
    cases hlimits

/-- A part whose closing boundary is cut inside. -/
theorem parts_independent_of_cuts_form : ((new [97] ⟨0, 0, 0, 0, 0⟩).readAll
      [ascii "--a\r\nContent-Disposition: form-data; name=x\r\n\r\nhi\r", ascii "\n--",
        ascii "a--"]) =
      ([.begin ⟨[120], none, none⟩, .byte 104, .byte 105, .finish], .done, .none) ∧
    ((new [97] ⟨0, 0, 0, 0, 0⟩).readAll
      [ascii "--a\r\nContent-Disposition: form-data; name=x\r\n\r\nhi\r", ascii "\n--",
        ascii "a--"]) =
      (new [97] ⟨0, 0, 0, 0, 0⟩).readAll
        [[ascii "--a\r\nContent-Disposition: form-data; name=x\r\n\r\nhi\r", ascii "\n--",
          ascii "a--"].flatten] :=
  ⟨by decide, parts_independent_of_cuts [97] ⟨0, 0, 0, 0, 0⟩ _ (by decide)⟩

end KlHttpMultipartReader
