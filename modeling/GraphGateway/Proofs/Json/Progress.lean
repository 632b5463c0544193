import GraphGateway.Json.Skip

/-!
This module contains the proof that no reader of JSON gives back bytes that it has read.
-/

namespace GraphGateway
namespace Json
namespace Read

/-- As many bytes are left as before, or fewer. -/
def Shrinks {α : Type} (read : Read α) : Prop :=
  ∀ before a after, read before = .ok a after → after.rest.length ≤ before.rest.length

variable {α β : Type}

theorem bind_eq_ok_iff {x : Read α} {f : α → Read β} {b : β} {before after : Cursor}
    : (x >>= f) before = .ok b after
        ↔ ∃ a middle, x before = .ok a middle ∧ f a middle = .ok b after := by
  simp only [bind, EStateM.bind]
  cases x before with
  | error fault middle => exact ⟨nofun, nofun⟩
  | ok a middle =>
    refine ⟨fun h => ⟨a, middle, rfl, h⟩, ?_⟩
    rintro ⟨_, _, heq, h⟩
    cases heq
    exact h

theorem bind_of_ok {x : Read α} {f : α → Read β} {a : α} {before middle : Cursor}
    (h : x before = .ok a middle)
    : (x >>= f) before = f a middle := by
  simp only [bind, EStateM.bind, h]

namespace Shrinks

theorem pure (a : α) : Shrinks (Pure.pure a : Read α) := by
  intro before b after h
  cases h
  exact Nat.le_refl _

theorem bind {x : Read α} {f : α → Read β} (hx : Shrinks x) (hf : ∀ a, Shrinks (f a))
    : Shrinks (x >>= f) := by
  intro before b after h
  obtain ⟨a, middle, hfirst, hrest⟩ := bind_eq_ok_iff.mp h
  exact Nat.le_trans (hf a middle b after hrest) (hx before a middle hfirst)

theorem guarded {c : Prop} [Decidable c] {x : Read Unit} {f : Unit → Read β} (hx : Shrinks x)
    (hf : ∀ u, Shrinks (f u))
    : Shrinks (if c then x >>= f else f ()) := by
  split
  . exact hx.bind hf
  . exact hf ()

theorem map {x : Read α} (f : α → β) (hx : Shrinks x) : Shrinks (f <$> x) := by
  intro before b after h
  simp only [Functor.map, EStateM.map] at h
  split at h
  . next a middle heq =>
    cases h
    exact hx before a after heq
  . cases h

theorem throw (fault : Fault) : Shrinks (MonadExcept.throw fault : Read α) := by
  intro before a after h
  cases h

theorem get : Shrinks (MonadState.get : Read Cursor) := by
  intro before a after h
  cases h
  exact Nat.le_refl _

theorem ofModify {f : Cursor → Cursor} (h : ∀ cursor, (f cursor).rest.length ≤ cursor.rest.length)
    : Shrinks (modify f : Read PUnit) := by
  intro before a after heq
  cases heq
  exact h before

theorem forIn {γ : Type} {xs : List γ} {init : β} {f : γ → β → Read (ForInStep β)}
    (h : ∀ x b, Shrinks (f x b))
    : Shrinks (ForIn.forIn xs init f) := by
  induction xs generalizing init with
  | nil =>
    rw [List.forIn_nil]
    exact pure init
  | cons x rest ih =>
    rw [List.forIn_cons]
    refine (h x init).bind fun step => ?_
    cases step with
    | done b => exact pure b
    | yield b => exact ih

theorem closedBy {read : Read α} {close : Read Unit} (hread : Shrinks read) (hclose : Shrinks close)
    : Shrinks (closedBy read close) := by
  intro before a after h
  unfold Read.closedBy at h
  split at h
  . next b middle heq =>
    split at h
    . next last hlast =>
      cases h
      exact Nat.le_trans (hclose _ _ _ hlast) (hread _ _ _ heq)
    . cases h
  . split at h <;> cases h

end Shrinks

theorem shrinks_peek : Shrinks peek :=
  Shrinks.get.bind fun _ => .pure _

theorem shrinks_skip : Shrinks skip :=
  .ofModify Cursor.length_next_le

theorem shrinks_take : Shrinks take :=
  shrinks_peek.bind fun _ => shrinks_skip.bind fun _ => .pure _

theorem shrinks_failHere (reason : Reason) : Shrinks (failHere reason : Read α) :=
  Shrinks.get.bind fun _ => .throw _

theorem shrinks_failAhead (reason : Reason) : Shrinks (failAhead reason : Read α) :=
  Shrinks.get.bind fun _ => .throw _

theorem shrinks_failBefore (count : Nat) (reason : Reason)
    : Shrinks (failBefore count reason : Read α) :=
  Shrinks.get.bind fun _ => .throw _

theorem shrinks_rounds : Shrinks rounds :=
  Shrinks.get.bind fun _ => .pure _

theorem length_peekPastSpace_go (place : Place) (rest : List UInt8)
    : (peekPastSpace.go place rest).rest.length ≤ rest.length := by
  induction rest generalizing place with
  | nil => exact Nat.le_refl _
  | cons byte rest ih =>
    unfold peekPastSpace.go
    split
    . exact Nat.le_succ_of_le (ih _)
    . exact Nat.le_refl _

theorem shrinks_peekPastSpace : Shrinks peekPastSpace :=
  (Shrinks.ofModify fun cursor => length_peekPastSpace_go cursor.place cursor.rest).bind
    fun _ => shrinks_peek

theorem shrinks_digits : Shrinks digits :=
  Shrinks.get.bind fun _ =>
    (Shrinks.forIn fun _ _ => shrinks_skip.bind fun _ => .pure _).bind fun _ => .pure _

theorem shrinks_word (letters : List Char) : Shrinks (word letters) := by
  induction letters with
  | nil => exact .pure ()
  | cons c rest ih =>
    unfold word
    refine shrinks_take.bind fun found => ?_
    split
    . exact shrinks_failHere _
    . split
      . exact ih
      . exact shrinks_failHere _

/-! # Numbers -/

theorem shrinks_double (negative : Bool) (significand : Nat) (exponent : Int)
    : Shrinks (double negative significand exponent) := by
  unfold double
  split
  . exact .pure _
  . exact shrinks_failHere _

theorem shrinks_exponentDigits (left : List UInt8) (value : Nat)
    : Shrinks (exponentDigits left value) := by
  induction left generalizing value with
  | nil => exact .pure _
  | cons byte left ih =>
    unfold exponentDigits
    refine shrinks_peek.bind fun found => ?_
    split
    . split
      . refine shrinks_skip.bind fun _ => ?_
        dsimp only
        split
        . exact ih _
        . exact .pure _
      . exact .pure _
    . exact .pure _

theorem shrinks_exponentPart (negative : Bool) (significand : Nat) (start : Int)
    : Shrinks (exponentPart negative significand start) := by
  unfold exponentPart
  refine shrinks_peek.bind fun sign => .guarded shrinks_skip fun _ => shrinks_take.bind fun c => ?_
  split
  . exact shrinks_failHere _
  . refine .guarded (shrinks_failHere _) fun _ => shrinks_rounds.bind fun left => ?_
    refine (shrinks_exponentDigits _ _).bind fun value => ?_
    split
    . exact shrinks_double _ _ _
    . refine .guarded (shrinks_failHere _) fun _ => ?_
      exact shrinks_digits.bind fun _ => shrinks_double _ _ _

theorem shrinks_afterInteger (negative : Bool) (significand dropped : Nat)
    : Shrinks (afterInteger negative significand dropped) := by
  unfold afterInteger
  refine shrinks_peek.bind fun c => ?_
  split
  . refine shrinks_skip.bind fun _ => shrinks_digits.bind fun fraction => ?_
    split
    . refine shrinks_peek.bind fun c => ?_
      split <;> exact shrinks_failAhead _
    . refine shrinks_peek.bind fun c => ?_
      split
      . exact shrinks_skip.bind fun _ => shrinks_exponentPart _ _ _
      . exact shrinks_skip.bind fun _ => shrinks_exponentPart _ _ _
      . exact shrinks_double _ _ _
  . exact shrinks_skip.bind fun _ => shrinks_exponentPart _ _ _
  . exact shrinks_skip.bind fun _ => shrinks_exponentPart _ _ _
  . split
    . exact shrinks_double _ _ _
    . split
      . exact .pure _
      . split
        . exact .pure _
        . exact shrinks_double _ _ _

theorem shrinks_number (negative : Bool) : Shrinks (number negative) := by
  unfold number
  refine shrinks_take.bind fun c => ?_
  split
  . exact shrinks_failHere _
  . split
    . refine shrinks_peek.bind fun next => ?_
      split
      . exact .guarded (shrinks_failAhead _) fun _ => shrinks_afterInteger _ _ _
      . exact shrinks_afterInteger _ _ _
    . split
      . exact shrinks_digits.bind fun _ => shrinks_afterInteger _ _ _
      . exact shrinks_failHere _

/-! # Strings -/

theorem shrinks_hexEscape : Shrinks hexEscape := by
  unfold hexEscape
  refine Shrinks.get.bind fun cursor => (Shrinks.forIn fun _ _ => ?_).bind fun _ => ?_
  . exact shrinks_skip.bind fun _ => .pure _
  . refine .guarded (shrinks_failHere _) fun _ => ?_
    split
    . exact .pure _
    . exact shrinks_failHere _

theorem shrinks_expect (c : Char) : Shrinks (unicodeEscape.expect c) := by
  unfold unicodeEscape.expect
  refine shrinks_peek.bind fun found => ?_
  split
  . exact shrinks_failHere _
  . refine shrinks_skip.bind fun _ => ?_
    split
    . exact shrinks_failHere _
    . exact .pure _

theorem shrinks_unicodeEscape : Shrinks unicodeEscape := by
  unfold unicodeEscape
  refine shrinks_hexEscape.bind fun lead => .guarded (shrinks_failHere _) fun _ => ?_
  split
  . exact .pure _
  . refine (shrinks_expect _).bind fun _ => (shrinks_expect _).bind fun _ => ?_
    exact shrinks_hexEscape.bind fun _ => .guarded (shrinks_failHere _) fun _ => .pure _

theorem shrinks_stringEscape : Shrinks stringEscape := by
  unfold stringEscape
  refine shrinks_take.bind fun c => ?_
  split
  . exact shrinks_failHere _
  all_goals first | exact .pure _ | exact shrinks_unicodeEscape | exact shrinks_failHere _

theorem shrinks_stringBody : Shrinks stringBody := by
  have hgo : ∀ left found, Shrinks (stringBody.go left found) := by
    intro left
    induction left with
    | nil => exact fun _ => shrinks_failHere _
    | cons byte left ih =>
      intro found
      unfold stringBody.go
      refine Shrinks.get.bind fun cursor => ?_
      split
      . exact shrinks_failHere _
      . split
        . split
          . exact shrinks_skip.bind fun _ => .pure _
          . exact shrinks_failBefore _ _
        . refine shrinks_skip.bind fun _ => ?_
          split
          . exact shrinks_stringEscape.bind fun _ => ih _
          . split
            . exact shrinks_failHere _
            . exact ih _
  exact shrinks_rounds.bind fun left => hgo left []

/-! # Lists and objects -/

theorem shrinks_hasItem (first : Bool) : Shrinks (hasItem first) := by
  unfold hasItem
  refine shrinks_peekPastSpace.bind fun c => ?_
  split
  . exact .pure _
  . split
    . exact .pure _
    . refine shrinks_skip.bind fun _ => shrinks_peekPastSpace.bind fun next => ?_
      split
      . exact shrinks_failAhead _
      . exact .pure _
      . exact shrinks_failAhead _
  . split
    . exact .pure _
    . exact shrinks_failAhead _
  . exact shrinks_failAhead _

theorem shrinks_hasMember (first : Bool) : Shrinks (hasMember first) := by
  unfold hasMember
  refine shrinks_peekPastSpace.bind fun c => ?_
  split
  . exact .pure _
  . refine .guarded (shrinks_failAhead _) fun _ => ?_
    refine shrinks_skip.bind fun _ => shrinks_peekPastSpace.bind fun next => ?_
    split
    . exact .pure _
    . exact shrinks_failAhead _
    . exact shrinks_failAhead _
    . exact shrinks_failAhead _
  . split
    . exact .pure _
    . exact shrinks_failAhead _
  . exact shrinks_failAhead _
  . exact shrinks_failAhead _

theorem shrinks_endList : Shrinks endList := by
  unfold endList
  refine shrinks_peekPastSpace.bind fun c => ?_
  split
  . exact shrinks_skip
  . refine shrinks_skip.bind fun _ => shrinks_peekPastSpace.bind fun next => ?_
    split <;> exact shrinks_failAhead _
  . exact shrinks_failAhead _
  . exact shrinks_failAhead _

theorem shrinks_endObject : Shrinks endObject := by
  unfold endObject
  refine shrinks_peekPastSpace.bind fun c => ?_
  split
  . exact shrinks_skip
  . exact shrinks_failAhead _
  . exact shrinks_failAhead _
  . exact shrinks_failAhead _

theorem shrinks_key : Shrinks key :=
  shrinks_skip.bind fun _ => shrinks_stringBody

theorem shrinks_colon : Shrinks colon := by
  unfold colon
  refine shrinks_peekPastSpace.bind fun c => ?_
  split
  . exact shrinks_skip
  . exact shrinks_failAhead _
  . exact shrinks_failAhead _

theorem shrinks_items {item : Read α} (h : Shrinks item) : Shrinks (items item) := by
  have hgo : ∀ left first, Shrinks (items.go item left first) := by
    intro left
    induction left with
    | nil => exact fun _ => .pure _
    | cons byte left ih =>
      intro first
      unfold items.go
      refine (shrinks_hasItem first).bind fun more => ?_
      split
      . exact h.bind fun _ => (ih false).bind fun _ => .pure _
      . exact .pure _
  exact shrinks_rounds.bind fun left => hgo left true

theorem shrinks_members {member : String → Read α} (h : ∀ name, Shrinks (member name))
    : Shrinks (members member) := by
  have hgo : ∀ left first, Shrinks (members.go member left first) := by
    intro left
    induction left with
    | nil => exact fun _ => .pure _
    | cons byte left ih =>
      intro first
      unfold members.go
      refine (shrinks_hasMember first).bind fun more => ?_
      split
      . exact shrinks_key.bind fun name => (h name).bind fun _ => (ih false).bind fun _ => .pure _
      . exact .pure _
  exact shrinks_rounds.bind fun left => hgo left true

theorem shrinks_valueFrom (left : Nat) (start : Option Char) : Shrinks (valueFrom left start) := by
  induction left using Nat.strongRecOn generalizing start with
  | ind left ih =>
    unfold valueFrom
    split
    . exact shrinks_failAhead _
    . exact shrinks_skip.bind fun _ => (shrinks_word _).bind fun _ => .pure _
    . exact shrinks_skip.bind fun _ => (shrinks_word _).bind fun _ => .pure _
    . exact shrinks_skip.bind fun _ => (shrinks_word _).bind fun _ => .pure _
    . exact shrinks_skip.bind fun _ => (shrinks_number _).bind fun _ => .pure _
    . exact shrinks_skip.bind fun _ => shrinks_stringBody.bind fun _ => .pure _
    . split
      . exact shrinks_failAhead _
      . next left =>
        have hitem : Shrinks (do valueFrom left (← peekPastSpace)) :=
          shrinks_peekPastSpace.bind fun _ => ih left (Nat.lt_succ_self left) _
        refine shrinks_skip.bind fun _ => ?_
        exact ((shrinks_items hitem).closedBy shrinks_endList).bind fun _ => .pure _
    . split
      . exact shrinks_failAhead _
      . next left =>
        have hmember : Shrinks (do colon; valueFrom left (← peekPastSpace)) :=
          shrinks_colon.bind fun _ =>
            shrinks_peekPastSpace.bind fun _ => ih left (Nat.lt_succ_self left) _
        refine shrinks_skip.bind fun _ => ?_
        exact ((shrinks_members fun _ => hmember).closedBy shrinks_endObject).bind fun _ => .pure _
    . split
      . exact (shrinks_number _).bind fun _ => .pure _
      . exact shrinks_failAhead _

theorem shrinks_value (left : Nat) : Shrinks (value left) :=
  shrinks_peekPastSpace.bind fun _ => shrinks_valueFrom left _

/-! # Skipping -/

theorem shrinks_skipExponent : Shrinks skipExponent := by
  unfold skipExponent
  refine shrinks_peek.bind fun sign => .guarded shrinks_skip fun _ => shrinks_take.bind fun c => ?_
  split
  . split
    . exact shrinks_digits.map _
    . exact shrinks_failHere _
  . exact shrinks_failHere _

theorem shrinks_skipFraction : Shrinks skipFraction := by
  unfold skipFraction
  refine shrinks_digits.bind fun fraction => .guarded (shrinks_failAhead _) fun _ => ?_
  refine shrinks_peek.bind fun next => ?_
  split
  . exact shrinks_skip.bind fun _ => shrinks_skipExponent
  . exact .pure _

theorem shrinks_skipAfterInteger
    : Shrinks (do
        match ← peek with
        | some '.' =>
          skip
          skipFraction
        | some 'e' | some 'E' =>
          skip
          skipExponent
        | _ => pure () : Read Unit) := by
  refine shrinks_peek.bind fun c => ?_
  split
  . exact shrinks_skip.bind fun _ => shrinks_skipFraction
  . exact shrinks_skip.bind fun _ => shrinks_skipExponent
  . exact shrinks_skip.bind fun _ => shrinks_skipExponent
  . exact .pure _

theorem shrinks_skipNumber : Shrinks skipNumber := by
  unfold skipNumber
  refine shrinks_take.bind fun c => ?_
  split
  . exact shrinks_failHere _
  . split
    . refine shrinks_peek.bind fun next => ?_
      split
      . exact .guarded (shrinks_failAhead _) fun _ => shrinks_skipAfterInteger
      . exact shrinks_skipAfterInteger
    . split
      . exact (shrinks_digits.map _).bind fun _ => shrinks_skipAfterInteger
      . exact (shrinks_failHere _).bind fun _ => shrinks_skipAfterInteger

theorem shrinks_skipString : Shrinks skipString := by
  have hgo : ∀ left, Shrinks (skipString.go left) := by
    intro left
    induction left with
    | nil => exact shrinks_failHere _
    | cons byte left ih =>
      unfold skipString.go
      refine Shrinks.get.bind fun cursor => ?_
      split
      . exact shrinks_failHere _
      . refine .guarded (shrinks_failHere _) fun _ => shrinks_skip.bind fun _ => ?_
        split
        . exact .pure _
        . split
          . refine shrinks_take.bind fun c => ?_
            split
            . exact shrinks_failHere _
            . exact shrinks_hexEscape.bind fun _ => ih
            . split
              . exact ih
              . exact shrinks_failHere _
          . exact ih
  exact shrinks_rounds.bind fun left => hgo left

theorem shrinks_skipClosing (comma : Bool) (frames : List Frame)
    : Shrinks (skipClosing comma frames) := by
  induction frames generalizing comma with
  | nil => exact .pure _
  | cons frame outer ih =>
    unfold skipClosing
    refine shrinks_peekPastSpace.bind fun c => ?_
    split
    . exact shrinks_failAhead _
    . split
      . exact shrinks_skip.bind fun _ => .pure _
      . split
        . exact shrinks_skip.bind fun _ => ih true
        . split
          . exact shrinks_failAhead _
          . exact .pure _

theorem shrinks_skipKey (frames : List Frame) : Shrinks (skipKey frames) := by
  unfold skipKey
  split
  . refine shrinks_peekPastSpace.bind fun c => ?_
    have hrest : ∀ _ : Unit, Shrinks (do skipString; colon : Read Unit) :=
      fun _ => shrinks_skipString.bind fun _ => shrinks_colon
    split
    . exact shrinks_skip.bind hrest
    . exact (shrinks_failAhead _).bind hrest
    . exact (shrinks_failAhead _).bind hrest
  . exact .pure _

theorem shrinks_skipStart : Shrinks skipStart := by
  unfold skipStart
  refine shrinks_peekPastSpace.bind fun c => ?_
  split
  . exact shrinks_failAhead _
  . exact shrinks_skip.bind fun _ => (shrinks_word _).bind fun _ => .pure _
  . exact shrinks_skip.bind fun _ => (shrinks_word _).bind fun _ => .pure _
  . exact shrinks_skip.bind fun _ => (shrinks_word _).bind fun _ => .pure _
  . exact shrinks_skip.bind fun _ => shrinks_skipNumber.bind fun _ => .pure _
  . exact shrinks_skip.bind fun _ => shrinks_skipString.bind fun _ => .pure _
  . exact shrinks_skip.bind fun _ => .pure _
  . exact shrinks_skip.bind fun _ => .pure _
  . split
    . exact shrinks_skipNumber.bind fun _ => .pure _
    . exact shrinks_failAhead _

theorem shrinks_skipValue : Shrinks skipValue := by
  have hgo : ∀ left frames, Shrinks (skipValue.go left frames) := by
    intro left
    induction left with
    | nil => exact fun _ => shrinks_failAhead _
    | cons byte left ih =>
      intro frames
      unfold skipValue.go
      refine shrinks_skipStart.bind fun opened => (shrinks_skipClosing _ _).bind fun frames => ?_
      split
      . exact .pure _
      . exact (shrinks_skipKey frames).bind fun _ => ih frames
  exact shrinks_rounds.bind fun left => hgo left []

end Read
end Json
end GraphGateway
