import GraphGateway.Execution.Task

/-!
This module contains the appending of journals, and journals that hold the same in another order.
-/

namespace GraphGateway

namespace Journal

def append (first second : Journal) : Journal :=
  ⟨first.failures ++ second.failures, first.entries ++ second.entries⟩

instance : Append Journal := ⟨append⟩

@[simp]
theorem failures_append (first second : Journal)
    : (first ++ second).failures = first.failures ++ second.failures := rfl

@[simp]
theorem entries_append (first second : Journal)
    : (first ++ second).entries = first.entries ++ second.entries := rfl

@[simp]
theorem failures_empty : empty.failures = [] := rfl

@[simp]
theorem entries_empty : empty.entries = [] := rfl

theorem ext {first second : Journal} (hfailures : first.failures = second.failures)
    (hentries : first.entries = second.entries)
    : first = second := by
  cases first
  cases second
  simp_all

@[simp]
theorem append_empty (journal : Journal) : journal ++ empty = journal := by
  apply ext <;> simp

@[simp]
theorem empty_append (journal : Journal) : empty ++ journal = journal := by
  apply ext <;> simp

theorem append_assoc (first second third : Journal)
    : first ++ second ++ third = first ++ (second ++ third) := by
  apply ext <;> simp

structure Perm (first second : Journal) : Prop where
  failures : first.failures.Perm second.failures
  entries : first.entries.Perm second.entries

namespace Perm

theorem refl (journal : Journal) : journal.Perm journal :=
  ⟨.refl _, .refl _⟩

theorem trans {first second third : Journal} (h : first.Perm second) (h' : second.Perm third)
    : first.Perm third :=
  ⟨h.failures.trans h'.failures, h.entries.trans h'.entries⟩

instance : Trans Perm Perm Perm := ⟨trans⟩

theorem append_right {first second : Journal} (h : first.Perm second) (third : Journal)
    : (first ++ third).Perm (second ++ third) :=
  ⟨h.failures.append_right _, h.entries.append_right _⟩

theorem swap (first second third : Journal)
    : (first ++ second ++ third).Perm (first ++ third ++ second) := by
  rw [append_assoc, append_assoc]
  exact ⟨List.perm_append_comm.append_left _, List.perm_append_comm.append_left _⟩

theorem both {before middle after first first' rest rest' : Journal}
    (hfirst : (middle ++ first').Perm (before ++ first))
    (hrest : (after ++ rest').Perm (middle ++ rest))
    : (after ++ (first' ++ rest')).Perm (before ++ (first ++ rest)) := by
  calc after ++ (first' ++ rest')
    _ = after ++ first' ++ rest' := (append_assoc ..).symm
    _ |>.Perm (after ++ rest' ++ first') := .swap ..
    _ |>.Perm (middle ++ rest ++ first') := hrest.append_right _
    _ |>.Perm (middle ++ first' ++ rest) := .swap ..
    _ |>.Perm (before ++ first ++ rest) := hfirst.append_right _
    _ = before ++ (first ++ rest) := append_assoc ..

end Perm
end Journal

end GraphGateway
