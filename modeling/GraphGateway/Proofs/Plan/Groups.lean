import GraphGateway.Plan.FieldGroup
import Mathlib.Data.List.Induction

/-!
This module contains what the groups of a list of fields are: one for every key, in the order in
which the keys are first seen, with the fields of that key.
-/

namespace GraphGateway
namespace FieldGroup

def ofKey? (key : String) (fields : List SelectedField) : Option FieldGroup :=
  match fields.filter fun field => field.head.key = key with
  | [] => none
  | first :: others => some ⟨first, others⟩

theorem fields_of_ofKey? {key : String} {fields : List SelectedField} {group : FieldGroup}
    (h : ofKey? key fields = some group)
    : group.fields = fields.filter fun field => field.head.key = key := by
  unfold ofKey? at h
  split at h
  . cases h
  . next heq =>
    cases h
    exact heq.symm

theorem ofFields_concat (fields : List SelectedField) (field : SelectedField)
    : ofFields (fields ++ [field]) = insert (ofFields fields) field := by
  unfold ofFields
  rw [List.foldl_append]
  rfl

theorem get?_insert (groups : Ordered FieldGroup) (field : SelectedField) (key : String)
    : (insert groups field).get? key
        =
      if field.head.key = key then
        match groups.get? key with
        | none => some ⟨field, []⟩
        | some group => some ⟨group.first, group.others ++ [field]⟩
      else
        groups.get? key := by
  unfold insert
  dsimp
  split
  . next hnone =>
    rw [Ordered.get?_insert]
    split
    . next heq => rw [← heq, hnone]
    . rfl
  . next group hsome =>
    rw [Ordered.get?_insert]
    split
    . next heq => rw [← heq, hsome]
    . rfl

theorem get?_ofFields (fields : List SelectedField) (key : String)
    : (ofFields fields).get? key = ofKey? key fields := by
  induction fields using List.reverseRecOn with
  | nil => rfl
  | append_singleton fields field ih =>
    rw [ofFields_concat, get?_insert, ih]
    unfold ofKey?
    rw [List.filter_append]
    split
    . next heq =>
      have hlast : [field].filter (fun field => field.head.key = key) = [field] := by simp [heq]
      rw [hlast]
      cases fields.filter fun field => field.head.key = key <;> rfl
    . next hne =>
      have hlast : [field].filter (fun field => field.head.key = key) = [] := by simp [hne]
      rw [hlast, List.append_nil]

theorem keys_insert (groups : Ordered FieldGroup) (field : SelectedField)
    : (insert groups field).keys
        = if field.head.key ∈ groups.keys then groups.keys
          else groups.keys ++ [field.head.key] := by
  unfold insert
  dsimp
  split
  . next hnone =>
    have hcontains : groups.contains field.head.key = false := by simp [Ordered.contains, hnone]
    rw [Ordered.keys_insert_of_not_contains _ _ _ hcontains, if_neg]
    rw [← Ordered.contains_iff_mem_keys, hcontains]
    exact Bool.false_ne_true
  . next group hsome =>
    have hcontains : groups.contains field.head.key = true := by simp [Ordered.contains, hsome]
    rw [Ordered.keys_insert_of_contains _ _ _ hcontains, if_pos]
    rwa [← Ordered.contains_iff_mem_keys]

theorem eraseDups_concat (keys : List String) (key : String)
    : (keys ++ [key]).eraseDups
        = if key ∈ keys then keys.eraseDups else keys.eraseDups ++ [key] := by
  rw [List.eraseDups_append]
  split
  . next hmem => simp [List.removeAll, hmem]
  . next hmem => simp [List.removeAll, hmem, List.eraseDups_cons]

theorem keys_ofFields (fields : List SelectedField)
    : (ofFields fields).keys = (fields.map fun field => field.head.key).eraseDups := by
  induction fields using List.reverseRecOn with
  | nil => rfl
  | append_singleton fields field ih =>
    rw [ofFields_concat, keys_insert, ih, List.map_append, List.map_singleton, eraseDups_concat]
    simp only [List.mem_eraseDups]

theorem nodup_keys_ofFields (fields : List SelectedField) : (ofFields fields).keys.Nodup := by
  induction fields using List.reverseRecOn with
  | nil => exact List.nodup_nil
  | append_singleton fields field ih =>
    rw [ofFields_concat, keys_insert]
    split
    . exact ih
    . next hnotMem =>
      rw [List.nodup_append]
      refine ⟨ih, by simp, ?_⟩
      intro key hkey other hother heq
      rw [List.mem_singleton] at hother
      exact hnotMem (hother ▸ heq ▸ hkey)

theorem mem_ofFields_iff {fields : List SelectedField} {key : String} {group : FieldGroup}
    : (key, group) ∈ ofFields fields ↔ ofKey? key fields = some group := by
  rw [← get?_ofFields]
  constructor
  . exact Ordered.get?_of_mem (nodup_keys_ofFields fields)
  . exact Ordered.mem_of_get?

end FieldGroup
end GraphGateway
