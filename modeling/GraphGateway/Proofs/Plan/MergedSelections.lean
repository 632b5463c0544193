import GraphGateway.Proofs.Plan.Agreement
import GraphGateway.Proofs.Plan.MapHeads

/-!
This module contains selections in which fields of one response key are made one field with the
sub-selections of both, and that they have the groups that they had: with the same keys in the same
order, the same first fields, and sub-selections in which again only fields are merged.
-/

namespace GraphGateway

open SelectionItem (allFields admittedAll depthAll)

namespace SelectionItem

def joinChildren
    : Option (List SelectionItem) → Option (List SelectionItem) → Option (List SelectionItem)
  | some children, some others => some (children ++ others)
  | some children, none => some children
  | none, others => others

theorem getD_joinChildren (children others : Option (List SelectionItem))
    : (joinChildren children others).getD [] = children.getD [] ++ others.getD [] := by
  cases children <;> cases others <;> simp [joinChildren]

/--
Selections of which the second one comes from the first one by merging fields that share a key.
-/
inductive Merges : List SelectionItem → List SelectionItem → Prop where
  | refl (items : List SelectionItem) : Merges items items
  | trans {items others more : List SelectionItem} (h : Merges items others)
    (h' : Merges others more)
    : Merges items more
  | append {items others rest more : List SelectionItem} (h : Merges items others)
    (hrest : Merges rest more)
    : Merges (items ++ rest) (others ++ more)
  | nested (head : FieldPlan) {children others : List SelectionItem} (h : Merges children others)
    : Merges [.field head (some children)] [.field head (some others)]
  | group (conditions : List Condition) {items others : List SelectionItem}
    (h : Merges items others)
    : Merges [.group conditions items] [.group conditions others]
  | merged {head other : FieldPlan} (children others : Option (List SelectionItem))
    {between : List SelectionItem} (hkey : other.key = head.key) (hhead : head.conditions = [])
    (hother : other.conditions = [])
    (hbetween : ∀ field ∈ allFields between, field.head.key ≠ head.key)
    : Merges (.field head children :: (between ++ [.field other others]))
        (.field head (joinChildren children others) :: between)

theorem depth_joinChildren (head other : FieldPlan) (children others : Option (List SelectionItem))
    : (field head (joinChildren children others)).depth
        = max (field head children).depth (field other others).depth := by
  cases children <;> cases others <;> simp [joinChildren, depth, depthAll_append]

theorem depthAll_merges {items others : List SelectionItem} (h : Merges items others)
    : depthAll others = depthAll items := by
  induction h with
  | refl items => rfl
  | trans _ _ ih ih' => rw [ih', ih]
  | append _ _ ih ih' => rw [depthAll_append, depthAll_append, ih, ih']
  | nested head _ ih => simp only [depthAll_cons, depth, ih]
  | group conditions _ ih => simp only [depthAll_cons, depth, ih]
  | @merged head other children others between =>
    rw [depthAll_cons, depthAll_cons, depthAll_append, depthAll_cons,
      depth_joinChildren head other children others, depthAll]
    omega

/-- A way to take the fields of a selection that looks at conditions only. -/
structure Takes (take : List SelectionItem → List SelectedField) : Prop where
  append : ∀ items others, take (items ++ others) = take items ++ take others
  subset : ∀ items, take items ⊆ allFields items
  field : ∀ head, (∀ children, take [.field head children] = [⟨head, children⟩])
    ∨ ∀ children, take [.field head children] = []
  free : ∀ head, head.conditions = [] → ∀ children, take [.field head children] = [⟨head, children⟩]
  group : ∀ conditions, (∀ items, take [.group conditions items] = take items)
    ∨ ∀ items, take [.group conditions items] = []

theorem takes_allFields : Takes allFields where
  append := allFields_append
  subset _ := List.Subset.refl _
  field _ := .inl fun _ => rfl
  free _ _ _ := rfl
  group _ := .inl fun _ => List.append_nil _

end SelectionItem

theorem eraseDups_append_congr {keys others : List String} (h : keys.eraseDups = others.eraseDups)
    (rest : List String)
    : (keys ++ rest).eraseDups = (others ++ rest).eraseDups := by
  have hmem (key : String) : key ∈ keys ↔ key ∈ others := by
    rw [← List.mem_eraseDups, h, List.mem_eraseDups]
  have hremove : rest.removeAll keys = rest.removeAll others := by
    unfold List.removeAll
    simp [hmem]
  rw [List.eraseDups_append, List.eraseDups_append, h, hremove]

namespace SelectedField

def keysOf (fields : List SelectedField) : List String :=
  fields.map fun field => field.head.key

def keyed (key : String) (fields : List SelectedField) : List SelectedField :=
  fields.filter fun field => field.head.key = key

def headsOf (key : String) (fields : List SelectedField) : List FieldPlan :=
  (keyed key fields).map head

def childrenOf (key : String) (fields : List SelectedField) : List SelectionItem :=
  (keyed key fields).flatMap fun field => field.children.getD []

structure Merges (fields others : List SelectedField) : Prop where
  keys : ∀ before, (before ++ keysOf others).eraseDups = (before ++ keysOf fields).eraseDups
  first : ∀ key, (headsOf key others).head? = (headsOf key fields).head?
  heads : ∀ key, (headsOf key others).Sublist (headsOf key fields)
  children : ∀ key, SelectionItem.Merges (childrenOf key fields) (childrenOf key others)

theorem keysOf_append (fields others : List SelectedField)
    : keysOf (fields ++ others) = keysOf fields ++ keysOf others :=
  List.map_append

theorem keyed_append (key : String) (fields others : List SelectedField)
    : keyed key (fields ++ others) = keyed key fields ++ keyed key others :=
  List.filter_append ..

theorem headsOf_append (key : String) (fields others : List SelectedField)
    : headsOf key (fields ++ others) = headsOf key fields ++ headsOf key others := by
  simp [headsOf, keyed_append]

theorem childrenOf_append (key : String) (fields others : List SelectedField)
    : childrenOf key (fields ++ others) = childrenOf key fields ++ childrenOf key others := by
  simp [childrenOf, keyed_append]

namespace Merges

variable {fields others rest more : List SelectedField}

theorem refl (fields : List SelectedField) : Merges fields fields :=
  ⟨fun _ => rfl, fun _ => rfl, fun _ => .refl _, fun _ => .refl _⟩

theorem trans (h : Merges fields others) (h' : Merges others more) : Merges fields more where
  keys before := (h'.keys before).trans (h.keys before)
  first key := (h'.first key).trans (h.first key)
  heads key := (h'.heads key).trans (h.heads key)
  children key := (h.children key).trans (h'.children key)

theorem append (h : Merges fields others) (hrest : Merges rest more)
    : Merges (fields ++ rest) (others ++ more) where
  keys before := by
    rw [keysOf_append, keysOf_append, ← List.append_assoc, ← List.append_assoc, hrest.keys]
    exact eraseDups_append_congr (h.keys before) _
  first key := by
    rw [headsOf_append, headsOf_append, List.head?_append, List.head?_append, h.first, hrest.first]
  heads key := by
    rw [headsOf_append, headsOf_append]
    exact (h.heads key).append (hrest.heads key)
  children key := by
    rw [childrenOf_append, childrenOf_append]
    exact (h.children key).append (hrest.children key)

section Merged

variable {head other : FieldPlan} (children others : Option (List SelectionItem))
  {between : List SelectedField} (hkey : other.key = head.key)
  (hbetween : ∀ field ∈ between, field.head.key ≠ head.key)

theorem keyed_eq_nil {key : String} (h : ∀ field ∈ between, field.head.key ≠ key)
    : keyed key between = [] := by
  unfold keyed
  simpa using h

include hkey in
theorem keyed_of_ne {key : String} (hne : key ≠ head.key)
    : keyed key (⟨head, SelectionItem.joinChildren children others⟩ :: between)
        = keyed key (⟨head, children⟩ :: (between ++ [⟨other, others⟩])) := by
  have hhead : head.key ≠ key := hne.symm
  have hother : other.key ≠ key := hkey ▸ hhead
  simp [keyed, hhead, hother]

include hkey hbetween

theorem keyed_two
    : keyed head.key (⟨head, children⟩ :: (between ++ [⟨other, others⟩]))
        = [⟨head, children⟩, ⟨other, others⟩] := by
  rw [← List.singleton_append, keyed_append, keyed_append, keyed_eq_nil hbetween]
  simp [keyed, hkey]

omit hkey in
theorem keyed_one
    : keyed head.key (⟨head, SelectionItem.joinChildren children others⟩ :: between)
        = [⟨head, SelectionItem.joinChildren children others⟩] := by
  rw [← List.singleton_append, keyed_append, keyed_eq_nil hbetween]
  simp [keyed]

theorem merged
    : Merges (⟨head, children⟩ :: (between ++ [⟨other, others⟩]))
        (⟨head, SelectionItem.joinChildren children others⟩ :: between) := by
  constructor
  case keys =>
    intro before
    have hmem : other.key ∈ before ++ keysOf (⟨head, children⟩ :: between) := by
      simp [keysOf, hkey]
    have hlast : before ++ keysOf (⟨head, children⟩ :: (between ++ [⟨other, others⟩]))
        = before ++ keysOf (⟨head, children⟩ :: between) ++ [other.key] := by
      simp [keysOf]
    rw [hlast, FieldGroup.eraseDups_concat, if_pos hmem]
    rfl
  all_goals
    intro key
    obtain rfl | hne := eq_or_ne key head.key
  case first.inl =>
    unfold headsOf
    rw [keyed_two _ _ hkey hbetween, keyed_one _ _ hbetween]
    rfl
  case first.inr => rw [headsOf, headsOf, keyed_of_ne _ _ hkey hne]
  case heads.inl =>
    unfold headsOf
    rw [keyed_two _ _ hkey hbetween, keyed_one _ _ hbetween]
    simp
  case heads.inr => simp only [headsOf, keyed_of_ne _ _ hkey hne, List.Sublist.refl]
  case children.inl =>
    unfold childrenOf
    rw [keyed_two _ _ hkey hbetween, keyed_one _ _ hbetween]
    simp only [List.flatMap_cons, List.flatMap_nil, SelectionItem.getD_joinChildren,
      List.append_assoc]
    exact .refl _
  case children.inr =>
    unfold childrenOf
    rw [keyed_of_ne _ _ hkey hne]
    exact .refl _

end Merged

end Merges

theorem merges_singleton {head : FieldPlan} {children others : List SelectionItem}
    (h : SelectionItem.Merges children others)
    : Merges [⟨head, some children⟩] [⟨head, some others⟩] := by
  constructor
  case keys => exact fun _ => rfl
  case first =>
    intro key
    by_cases hkey : head.key = key <;> simp [headsOf, keyed, hkey]
  case heads =>
    intro key
    by_cases hkey : head.key = key <;> simp [headsOf, keyed, hkey]
  case children =>
    intro key
    by_cases hkey : head.key = key
    . simpa [childrenOf, keyed, hkey] using h
    . simpa [childrenOf, keyed, hkey] using .refl []

end SelectedField

namespace SelectionItem

theorem Merges.of_takes {take : List SelectionItem → List SelectedField} (htake : Takes take)
    {items others : List SelectionItem} (h : Merges items others)
    : SelectedField.Merges (take items) (take others) := by
  induction h with
  | refl items => exact .refl _
  | trans _ _ ih ih' => exact ih.trans ih'
  | append _ _ ih ih' =>
    rw [htake.append, htake.append]
    exact ih.append ih'
  | nested head h _ =>
    rcases htake.field head with htaken | htaken
    . rw [htaken, htaken]
      exact SelectedField.merges_singleton h
    . rw [htaken, htaken]
      exact .refl _
  | group conditions _ ih =>
    rcases htake.group conditions with htaken | htaken
    . rw [htaken, htaken]
      exact ih
    . rw [htaken, htaken]
      exact .refl _
  | @merged head other children others between hkey hhead hother hbetween =>
    rw [← List.singleton_append, ← List.singleton_append (l := between), htake.append, htake.append,
      htake.append, htake.free head hhead, htake.free head hhead, htake.free other hother]
    apply SelectedField.Merges.merged children others hkey
    exact fun field hfield => hbetween field (htake.subset between hfield)

end SelectionItem

namespace FieldGroup

variable {key : String} {fields others : List SelectedField} {group merged : FieldGroup}

structure Merges (group merged : FieldGroup) : Prop where
  first : merged.first.head = group.first.head
  others : (merged.others.map (·.head)).Sublist (group.others.map (·.head))
  children : SelectionItem.Merges group.children merged.children

theorem merges_of_ofKey? (h : SelectedField.Merges fields others)
    (hgroup : ofKey? key fields = some group) (hmerged : ofKey? key others = some merged)
    : group.Merges merged := by
  have hheads {fields : List SelectedField} {group : FieldGroup}
      (h : ofKey? key fields = some group)
      : SelectedField.headsOf key fields = group.first.head :: group.others.map (·.head) := by
    unfold SelectedField.headsOf SelectedField.keyed
    rw [← fields_of_ofKey? h]
    rfl
  have hchildren {fields : List SelectedField} {group : FieldGroup}
      (h : ofKey? key fields = some group)
      : SelectedField.childrenOf key fields = group.children := by
    unfold SelectedField.childrenOf SelectedField.keyed
    rw [← fields_of_ofKey? h]
    rfl
  have hfirst := h.first key
  rw [hheads hgroup, hheads hmerged] at hfirst
  have hfirst : merged.first.head = group.first.head := by simpa using hfirst
  refine ⟨hfirst, ?_, ?_⟩
  . have hothers := h.heads key
    rw [hheads hgroup, hheads hmerged, hfirst] at hothers
    exact List.cons_sublist_cons.mp hothers
  . have := h.children key
    rwa [hchildren hgroup, hchildren hmerged] at this

theorem keys_ofFields_merges (h : SelectedField.Merges fields others)
    : (ofFields others).keys = (ofFields fields).keys := by
  rw [keys_ofFields, keys_ofFields]
  exact h.keys []

theorem exists_merges (h : SelectedField.Merges fields others)
    (hmerged : ofKey? key others = some merged)
    : ∃ group, ofKey? key fields = some group ∧ group.Merges merged := by
  have hmem : key ∈ (ofFields fields).keys := by
    rw [← keys_ofFields_merges h]
    exact List.mem_map.mpr ⟨_, mem_ofFields_iff.mpr hmerged, rfl⟩
  obtain ⟨⟨_, group⟩, hgroup, rfl⟩ := List.mem_map.mp hmem
  have hgroup := mem_ofFields_iff.mp hgroup
  exact ⟨group, hgroup, merges_of_ofKey? h hgroup hmerged⟩

end FieldGroup

namespace Conflict

theorem inGroup?_merges {key : String} {group merged : FieldGroup} (h : group.Merges merged)
    (hnone : inGroup? key group = none)
    : inGroup? key merged = none := by
  rw [inGroup?_eq_none_iff] at hnone ⊢
  intro other hother
  have hmem := h.others.subset (List.mem_map_of_mem hother)
  obtain ⟨field, hfield, heq⟩ := List.mem_map.mp hmem
  rw [h.first, ← heq]
  exact hnone field hfield

theorem ofSelection_merges {levels : Nat} {items others : List SelectionItem}
    (h : SelectionItem.Merges items others) (hnone : ofSelection levels items = [])
    : ofSelection levels others = [] := by
  induction levels generalizing items others with
  | zero => rfl
  | succ levels ih =>
    have hfields := h.of_takes SelectionItem.takes_allFields
    unfold ofSelection at hnone ⊢
    rw [List.flatMap_eq_nil_iff] at hnone ⊢
    rintro ⟨key, merged⟩ hmem
    obtain ⟨group, hgroup, hmerges⟩ :=
      FieldGroup.exists_merges hfields (FieldGroup.mem_ofFields_iff.mp hmem)
    have hconflict := hnone _ (FieldGroup.mem_ofFields_iff.mpr hgroup)
    dsimp only at hconflict ⊢
    split at hconflict
    . cases hconflict
    . next hagrees =>
      rw [inGroup?_merges hmerges hagrees]
      exact ih hmerges.children hconflict

end Conflict

end GraphGateway
