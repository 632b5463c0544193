/-!
This module contains results that come with all errors found on the way. Finding an error does
not end the work, so that the errors of two parts of a work are those of the first followed by
those of the second.
-/

namespace GraphGateway

structure Checked (ε α : Type) where
  value : α
  errors : List ε

namespace Checked

variable {ε α β : Type}

def pure (value : α) : Checked ε α :=
  ⟨value, []⟩

def bind (x : Checked ε α) (f : α → Checked ε β) : Checked ε β :=
  ⟨(f x.value).value, x.errors ++ (f x.value).errors⟩

instance : Monad (Checked ε) where
  pure := pure
  bind := bind

def report (e : ε) : Checked ε Unit :=
  ⟨(), [e]⟩

def refuse (e : ε) : Checked ε (Option α) :=
  ⟨none, [e]⟩

@[simp]
theorem value_bind (x : Checked ε α) (f : α → Checked ε β)
    : (x >>= f).value = (f x.value).value := rfl

@[simp]
theorem errors_bind (x : Checked ε α) (f : α → Checked ε β)
    : (x >>= f).errors = x.errors ++ (f x.value).errors := rfl

instance : LawfulMonad (Checked ε) :=
  LawfulMonad.mk' (Checked ε)
    (fun x => by
      cases x
      simp [Functor.map, bind, pure])
    (fun _ _ => rfl)
    (fun x f g => by simp [Bind.bind, bind])

end Checked

def distinct {α : Type} [DecidableEq α] (xs : List α) : List α :=
  xs.foldl (fun found x => if x ∈ found then found else found ++ [x]) []

theorem eq_nil_of_distinct_eq_nil {α : Type} [DecidableEq α] {xs : List α}
    (h : distinct xs = [])
    : xs = [] := by
  -- What is found is kept, so that nothing is found at the end only if there is nothing to find.
  have hfoldl : ∀ (xs found : List α),
      xs.foldl (fun found x => if x ∈ found then found else found ++ [x]) found = [] →
        xs = [] ∧ found = [] := by
    intro xs
    induction xs with
    | nil => exact fun found h => ⟨rfl, h⟩
    | cons x rest ih =>
      intro found h
      have hfound := (ih _ h).2
      dsimp only at hfound
      split at hfound
      . next hmem =>
        subst hfound
        cases hmem
      . simp at hfound
  exact (hfoldl xs [] h).1

end GraphGateway
