import GraphGateway.Json.Shape
import GraphGateway.Proofs.Json.Progress

/-!
This module contains the proof that the reader of a form takes what the reader of all values
takes at the same place, if that is a value of the form. The forms are the ones that the
members of requests have.
-/

namespace GraphGateway
namespace Json
namespace Read

variable {α β : Type}

def Yields (P : α → Prop) (read : Read α) : Prop :=
  ∀ before a after, read before = .ok a after → P a

namespace Yields

variable {P : α → Prop}

theorem pure {a : α} (h : P a) : Yields P (Pure.pure a : Read α) := by
  intro before b after heq
  cases heq
  exact h

theorem bind {x : Read β} {f : β → Read α} (h : ∀ b, Yields P (f b)) : Yields P (x >>= f) := by
  intro before a after heq
  obtain ⟨b, middle, _, hrest⟩ := bind_eq_ok_iff.mp heq
  exact h b middle a after hrest

theorem failAhead (reason : Reason) : Yields P (failAhead reason) := nofun

theorem fail (reason : Reason) : Yields P (fail reason) := nofun

end Yields

def Starts (c : Char) : Json → Prop
  | .null => c = 'n'
  | .bool b => c = if b then 't' else 'f'
  | .number _ => c = '-' ∨ c.isDigit
  | .string _ => c = '"'
  | .array _ => c = '['
  | .object _ => c = '\x7b'

theorem starts_null_iff {v : Json} : Starts 'n' v ↔ v = .null := by
  cases v with
  | bool b => cases b <;> simp [Starts]
  | null | number n | string s | array items | object members => simp [Starts]

theorem starts_object_iff {v : Json} : Starts '\x7b' v ↔ ∃ members, v = .object members := by
  cases v with
  | bool b => cases b <;> simp [Starts]
  | null | number n | string s | array items | object members => simp [Starts]

theorem starts_of_valueFrom (left : Nat) (start : Option Char)
    : Yields (fun v => ∃ c, start = some c ∧ Starts c v) (valueFrom left start) := by
  unfold valueFrom
  split
  . exact .failAhead _
  . exact .bind fun _ => .bind fun _ => .pure ⟨_, rfl, rfl⟩
  . exact .bind fun _ => .bind fun _ => .pure ⟨_, rfl, rfl⟩
  . exact .bind fun _ => .bind fun _ => .pure ⟨_, rfl, rfl⟩
  . exact .bind fun _ => .bind fun _ => .pure ⟨_, rfl, .inl rfl⟩
  . exact .bind fun _ => .bind fun _ => .pure ⟨_, rfl, rfl⟩
  . split
    . exact .failAhead _
    . exact .bind fun _ => .bind fun _ => .pure ⟨_, rfl, rfl⟩
  . split
    . exact .failAhead _
    . exact .bind fun _ => .bind fun _ => .pure ⟨_, rfl, rfl⟩
  . split
    . next hdigit => exact .bind fun _ => .pure ⟨_, rfl, .inr hdigit⟩
    . exact .failAhead _

theorem peekPastSpace_go_idem (place : Place) (rest : List UInt8)
    : peekPastSpace.go (peekPastSpace.go place rest).place (peekPastSpace.go place rest).rest
        = peekPastSpace.go place rest := by
  induction rest generalizing place with
  | nil => rfl
  | cons byte rest ih =>
    by_cases hspace : isSpace byte = true
    . simpa [peekPastSpace.go, hspace] using ih (place.after byte)
    . simp [peekPastSpace.go, hspace]

theorem exists_peekPastSpace (before : Cursor)
    : ∃ c middle, peekPastSpace before = .ok c middle :=
  ⟨_, _, rfl⟩

theorem peekPastSpace_idem {c : Option Char} {before middle : Cursor}
    (h : peekPastSpace before = .ok c middle)
    : peekPastSpace middle = .ok c middle := by
  cases h
  exact congrArg (fun cursor => EStateM.Result.ok cursor.head? cursor) (peekPastSpace_go_idem _ _)

theorem placed_eq_ok {read : Read α} {a : α} {before after : Cursor}
    : placed read before = .ok a after ↔ read before = .ok a after := by
  unfold placed
  cases read before with
  | ok b middle => rfl
  | error fault middle => exact ⟨nofun, nofun⟩

theorem value_eq {left : Nat} {c : Option Char} {before middle : Cursor}
    (h : peekPastSpace before = .ok c middle)
    : value left before = valueFrom left c middle :=
  bind_of_ok h

end Read

namespace Shape

open Read (value valueFrom peekPastSpace bind_eq_ok_iff)

/-- What is read in a form is what is read as any value there, if that has the property. -/
def Takes (shape : Shape) (Form : Json → Prop) : Prop :=
  ∀ left before v after,
    shape.read left before = .ok v after ↔ value left before = .ok v after ∧ Form v

theorem start_eq_ok {c : Char} {before after : Cursor}
    : start before = .ok c after ↔ peekPastSpace before = .ok (some c) after := by
  unfold start
  rw [bind_eq_ok_iff]
  constructor
  . rintro ⟨found, middle, hpeek, h⟩
    cases found with
    | none => cases h
    | some c =>
      cases h
      exact hpeek
  . intro h
    exact ⟨some c, after, h, rfl⟩

theorem unexpected_ne_ok {α : Type} (c : Char) (expected : String)
    : Read.Yields (fun _ : α => False) (unexpected c expected) := by
  unfold unexpected
  split
  . exact .fail _
  . split
    . exact .fail _
    . exact .bind fun _ => .fail _

theorem onStart_eq_ok {α : Type} {first : Char} {own : Char → Read α} {expected : String} {v : α}
    {before after : Cursor}
    : Read.placed (do
        let c ← start
        if c = first then own c else unexpected c expected) before = .ok v after
        ↔ ∃ middle, peekPastSpace before = .ok (some first) middle
          ∧ own first middle = .ok v after := by
  rw [Read.placed_eq_ok, bind_eq_ok_iff]
  constructor
  . rintro ⟨c, middle, hstart, h⟩
    by_cases hc : c = first
    . rw [if_pos hc] at h
      exact ⟨middle, hc ▸ start_eq_ok.mp hstart, hc ▸ h⟩
    . rw [if_neg hc] at h
      exact (unexpected_ne_ok c expected middle v after h).elim
  . rintro ⟨middle, hpeek, h⟩
    exact ⟨first, middle, start_eq_ok.mpr hpeek, by rwa [if_pos rfl]⟩

theorem exists_start_of_value {left : Nat} {v : Json} {before after : Cursor}
    (h : value left before = .ok v after)
    : ∃ c middle, peekPastSpace before = .ok (some c) middle ∧ Read.Starts c v
      ∧ valueFrom left (some c) middle = .ok v after := by
  obtain ⟨found, middle, hpeek⟩ := Read.exists_peekPastSpace before
  rw [Read.value_eq hpeek] at h
  obtain ⟨c, rfl, hstarts⟩ := Read.starts_of_valueFrom _ _ _ _ _ h
  exact ⟨c, middle, hpeek, hstarts, h⟩

theorem valueFrom_quote (left : Nat)
    : valueFrom left (some '"')
        = (do
            Read.skip
            return .string (← Read.stringBody)) := by
  unfold valueFrom
  rfl

theorem takes_text : text.Takes fun v => ∃ s, v = .string s := by
  intro left before v after
  have hread : text.read left = (do return Json.string (← readText)) := rfl
  rw [hread, bind_eq_ok_iff]
  constructor
  . rintro ⟨s, behind, htext, h⟩
    cases h
    obtain ⟨middle, hpeek, h⟩ := onStart_eq_ok.mp htext
    obtain ⟨_, body, hskip, hbody⟩ := bind_eq_ok_iff.mp h
    rw [Read.value_eq hpeek, valueFrom_quote]
    exact ⟨bind_eq_ok_iff.mpr ⟨(), body, hskip, bind_eq_ok_iff.mpr ⟨s, _, hbody, rfl⟩⟩, s, rfl⟩
  . rintro ⟨hvalue, s, rfl⟩
    obtain ⟨c, middle, hpeek, hstarts, h⟩ := exists_start_of_value hvalue
    cases hstarts
    rw [valueFrom_quote] at h
    obtain ⟨_, body, hskip, h⟩ := bind_eq_ok_iff.mp h
    obtain ⟨found, behind, hbody, h⟩ := bind_eq_ok_iff.mp h
    cases h
    refine ⟨s, _, ?_, rfl⟩
    exact onStart_eq_ok.mpr ⟨middle, hpeek, bind_eq_ok_iff.mpr ⟨(), body, hskip, hbody⟩⟩

theorem takes_table : table.Takes fun v => ∃ members, v = .object members := by
  intro left before v after
  have hread : table.read left = Read.placed (do
      let c ← start
      if c = '\x7b' then valueFrom left c else unexpected c "a map") := rfl
  rw [hread, onStart_eq_ok]
  constructor
  . rintro ⟨middle, hpeek, h⟩
    rw [Read.value_eq hpeek]
    obtain ⟨c, hc, hstarts⟩ := Read.starts_of_valueFrom _ _ _ _ _ h
    cases hc
    exact ⟨h, Read.starts_object_iff.mp hstarts⟩
  . rintro ⟨hvalue, members, rfl⟩
    obtain ⟨c, middle, hpeek, hstarts, h⟩ := exists_start_of_value hvalue
    cases hstarts
    exact ⟨middle, hpeek, h⟩

theorem takes_optional {inner : Shape} {Form : Json → Prop} (h : inner.Takes Form)
    : (optional inner).Takes fun v => v = .null ∨ Form v := by
  intro left before v after
  have hread : (optional inner).read left = (do
      if (← peekPastSpace) = some 'n' then valueFrom 0 (some 'n') else inner.read left) := rfl
  obtain ⟨c, middle, hpeek⟩ := Read.exists_peekPastSpace before
  rw [hread, Read.bind_of_ok hpeek, Read.value_eq hpeek]
  by_cases hc : c = some 'n'
  . -- Nothing but null starts like that, whatever the inner form is.
    have hnull : valueFrom 0 (some 'n') = valueFrom left (some 'n') := by
      unfold valueFrom
      rfl
    rw [if_pos hc, hnull, hc]
    refine ⟨fun heq => ⟨heq, .inl ?_⟩, And.left⟩
    obtain ⟨d, hd, hstarts⟩ := Read.starts_of_valueFrom _ _ _ _ _ heq
    cases hd
    exact Read.starts_null_iff.mp hstarts
  . rw [if_neg hc, h left middle v after, Read.value_eq (Read.peekPastSpace_idem hpeek)]
    refine and_congr_right fun heq => ⟨.inr, fun hform => hform.resolve_left ?_⟩
    rintro rfl
    obtain ⟨d, hd, hstarts⟩ := Read.starts_of_valueFrom _ _ _ _ _ heq
    exact hc (hd.trans (congrArg some hstarts))

end Shape
end Json
end GraphGateway
