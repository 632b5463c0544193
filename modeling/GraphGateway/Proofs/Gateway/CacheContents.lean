import GraphGateway.Gateway.PlanCache

/-!
This module contains what stands in a cache: all operations but the storing of a value can only lose
entries, and a cache without a bound loses none.
-/

namespace GraphGateway
namespace PlanCache

variable {α : Type}

def all (cache : PlanCache α) : List (String × α) :=
  cache.entries ++ cache.fresh

def Loses (before after : PlanCache α) : Prop :=
  after.all ⊆ before.all

theorem mem_all_of_get? {cache : PlanCache α} {text : String} {value : α}
    (h : cache.get? text = some value)
    : (text, value) ∈ cache.all := by
  unfold get? at h
  rw [Option.or_eq_some_iff] at h
  unfold all
  rcases h with h | ⟨_, h⟩
  . exact List.mem_append_left _ (Ordered.mem_of_get? h)
  . exact List.mem_append_right _ (Ordered.mem_of_get? h)

theorem without_subset (text : String) (entries : List (String × α))
    : without text entries ⊆ entries := by
  intro entry h
  exact (List.mem_filter.mp h).1

theorem keep_subset (retention : Retention) (entries : List (String × α))
    : keep retention entries ⊆ entries := by
  cases retention with
  | unbounded => exact List.Subset.refl _
  | lru maxEntries => exact List.drop_subset _ _

theorem loses_settle (cache : PlanCache α) : cache.Loses cache.settle := by
  unfold Loses all settle
  rw [List.append_nil]
  apply keep_subset

theorem loses_clear (cache : PlanCache α) : cache.Loses cache.clear := by
  apply List.nil_subset

theorem loses_touch (cache : PlanCache α) (text : String) : cache.Loses (cache.touch text) := by
  unfold touch
  split
  . next value hvalue =>
    have hmem := Ordered.mem_of_get? hvalue
    have hwithout := without_subset text cache.entries
    intro entry h
    simp only [all, List.mem_append, List.mem_singleton] at h ⊢
    rcases h with (h | rfl) | h
    . exact .inl (hwithout h)
    . exact .inl hmem
    . exact .inr h
  . exact List.Subset.refl _

theorem loses_lookup (cache : PlanCache α) (text : String)
    : cache.Loses (cache.lookup text).2 := by
  unfold lookup
  dsimp
  split
  . exact List.Subset.trans (loses_touch cache.settle text) (loses_settle cache)
  . exact loses_touch cache text

theorem mem_all_store {cache : PlanCache α} {text : String} {value : α} {entry : String × α}
    (h : entry ∈ (cache.store text value).all)
    : entry ∈ cache.all ∨ entry = (text, value) := by
  unfold store at h
  split at h
  . exact .inl h
  . simp only [all, List.mem_append, List.mem_singleton] at h ⊢
    rcases h with h | h | h
    . exact .inl (.inl (without_subset text cache.entries h))
    . exact .inl (.inr (without_subset text cache.fresh h))
    . exact .inr h

theorem get?_without (text other : String) (entries : List (String × α))
    : Ordered.get? (without text entries) other
        = if text = other then none else Ordered.get? entries other := by
  induction entries with
  | nil => simp [without, Ordered.get?]
  | cons entry rest ih =>
    obtain ⟨key, value⟩ := entry
    unfold without at ih ⊢
    rw [List.filter_cons]
    by_cases hkey : key = text
    . subst hkey
      rw [if_neg (by simp), ih]
      simp only [Ordered.get?]
      split <;> rfl
    . rw [if_pos (by simpa using hkey)]
      simp only [Ordered.get?, ih]
      by_cases hother : key = other
      . subst hother
        rw [if_pos rfl, if_neg (Ne.symm hkey), if_pos rfl]
      . rw [if_neg hother, if_neg hother]

theorem get?_concat_without (text other : String) (value : α) (entries : List (String × α))
    : Ordered.get? (without text entries ++ [(text, value)]) other
        = if text = other then some value else Ordered.get? entries other := by
  rw [Ordered.get?_append, get?_without]
  by_cases h : text = other
  . simp [h, Ordered.get?]
  . simp [h, Ordered.get?]

theorem get?_touch (cache : PlanCache α) (text other : String)
    : (cache.touch text).get? other = cache.get? other := by
  unfold touch
  split
  . next value hvalue =>
    unfold get?
    dsimp only
    rw [get?_concat_without]
    split
    . next heq => rw [← heq, hvalue, Option.some_or]
    . rfl
  . rfl

theorem get?_store (cache : PlanCache α) (h : cache.retention = .unbounded) (text other : String)
    (value : α)
    : (cache.store text value).get? other
        = if text = other then some value else cache.get? other := by
  unfold store
  rw [if_neg (by simp [h])]
  unfold get?
  dsimp only
  rw [get?_concat_without, get?_without]
  split <;> rfl

theorem get?_settle (cache : PlanCache α) (h : cache.retention = .unbounded) (text : String)
    : cache.settle.get? text = cache.get? text := by
  unfold settle get? keep
  simp only [h, Ordered.get?_append]
  simp [Ordered.get?]

theorem get?_lookup (cache : PlanCache α) (h : cache.retention = .unbounded) (text other : String)
    : (cache.lookup text).2.get? other = cache.get? other := by
  have hlooked (cache : PlanCache α) (looks : Nat)
      : { cache with looks }.get? other = cache.get? other := rfl
  unfold lookup
  dsimp only
  rw [hlooked, get?_touch]
  split
  . exact get?_settle cache h other
  . rfl

theorem retention_touch (cache : PlanCache α) (text : String)
    : (cache.touch text).retention = cache.retention := by
  unfold touch
  split <;> rfl

theorem retention_store (cache : PlanCache α) (text : String) (value : α)
    : (cache.store text value).retention = cache.retention := by
  unfold store
  split <;> rfl

theorem retention_lookup (cache : PlanCache α) (text : String)
    : (cache.lookup text).2.retention = cache.retention := by
  unfold lookup
  dsimp only
  rw [retention_touch]
  split <;> rfl

end PlanCache
end GraphGateway
