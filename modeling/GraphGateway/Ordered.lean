/-!
This module contains tables from names to values that keep the order of insertion. A name that is
inserted again keeps its place and takes the new value.
-/

namespace GraphGateway

abbrev Ordered (α : Type) := List (String × α)

namespace Ordered

variable {α : Type}

def get? (table : Ordered α) (name : String) : Option α :=
  match table with
  | [] => none
  | (key, value) :: rest => if key = name then some value else get? rest name

def contains (table : Ordered α) (name : String) : Bool :=
  (table.get? name).isSome

def keys (table : Ordered α) : List String :=
  table.map Prod.fst

def insert (table : Ordered α) (name : String) (value : α) : Ordered α :=
  match table with
  | [] => [(name, value)]
  | (key, old) :: rest =>
    if key = name then (key, value) :: rest else (key, old) :: insert rest name value

def ofPairs (pairs : List (String × α)) : Ordered α :=
  pairs.foldl (fun table (name, value) => table.insert name value) []

theorem mem_of_get? {table : Ordered α} {name : String} {value : α}
    (h : table.get? name = some value)
    : (name, value) ∈ table := by
  induction table with
  | nil => cases h
  | cons entry rest ih =>
    obtain ⟨key, first⟩ := entry
    simp only [get?] at h
    split at h
    . next heq =>
      cases h
      simp [heq]
    . exact List.mem_cons_of_mem _ (ih h)

theorem contains_iff_mem_keys (table : Ordered α) (name : String)
    : table.contains name = true ↔ name ∈ table.keys := by
  induction table with
  | nil => simp [contains, get?, keys]
  | cons entry rest ih =>
    obtain ⟨key, value⟩ := entry
    simp only [contains, get?, keys, List.map_cons, List.mem_cons] at ih ⊢
    split
    . next heq => simp [heq]
    . next hne => simp [ih, Ne.symm hne]

theorem get?_of_mem {table : Ordered α} {name : String} {value : α}
    (hnodup : table.keys.Nodup) (hmem : (name, value) ∈ table)
    : table.get? name = some value := by
  induction table with
  | nil => cases hmem
  | cons entry rest ih =>
    obtain ⟨key, first⟩ := entry
    simp only [keys, List.map_cons, List.nodup_cons] at hnodup
    simp only [get?]
    rcases List.mem_cons.mp hmem with heq | hmem
    . cases heq
      rw [if_pos rfl]
    . have hname : name ∈ rest.map Prod.fst := List.mem_map.mpr ⟨_, hmem, rfl⟩
      rw [if_neg]
      . exact ih hnodup.2 hmem
      . intro heq
        exact hnodup.1 (heq ▸ hname)

theorem get?_append (first second : Ordered α) (name : String)
    : get? (first ++ second) name = (get? first name).or (get? second name) := by
  induction first with
  | nil => rfl
  | cons entry rest ih =>
    obtain ⟨key, value⟩ := entry
    simp only [List.cons_append, get?]
    split
    . rfl
    . exact ih

theorem get?_insert (table : Ordered α) (name other : String) (value : α)
    : (table.insert name value).get? other
        = if name = other then some value else table.get? other := by
  induction table with
  | nil => simp [insert, get?]
  | cons entry rest ih =>
    obtain ⟨key, old⟩ := entry
    simp only [insert]
    split
    . simp_all [get?]
    . simp only [get?, ih]
      split <;> split <;> simp_all

theorem keys_insert_of_contains (table : Ordered α) (name : String) (value : α)
    (h : table.contains name = true)
    : (table.insert name value).keys = table.keys := by
  induction table with
  | nil => simp [contains, get?] at h
  | cons entry rest ih =>
    obtain ⟨key, old⟩ := entry
    simp only [insert]
    split
    . simp [keys]
    . simp only [contains, get?] at h
      simp_all [keys, contains]

theorem keys_insert_of_not_contains (table : Ordered α) (name : String) (value : α)
    (h : table.contains name = false)
    : (table.insert name value).keys = table.keys ++ [name] := by
  induction table with
  | nil => simp [insert, keys]
  | cons entry rest ih =>
    obtain ⟨key, old⟩ := entry
    simp only [insert]
    split
    . simp_all [contains, get?]
    . simp_all [keys, contains, get?]

end Ordered

end GraphGateway
