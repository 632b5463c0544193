import GraphGateway.Plan.Basic

/-!
This module contains the grouping of fields that share a response key. Groups come in the order in
which their keys are first seen, and so do the fields in a group.
-/

namespace GraphGateway

structure SelectedField where
  head : FieldPlan
  children : Option (List SelectionItem)

/-- The fields that share a response key, of which there is at least one. -/
structure FieldGroup where
  first : SelectedField
  others : List SelectedField

namespace FieldGroup

def fields (group : FieldGroup) : List SelectedField :=
  group.first :: group.others

def children (group : FieldGroup) : List SelectionItem :=
  group.fields.flatMap fun field => field.children.getD []

def positions (group : FieldGroup) : List Position :=
  group.fields.map fun field => field.head.position

def insert (groups : Ordered FieldGroup) (field : SelectedField) : Ordered FieldGroup :=
  let key := field.head.key
  match groups.get? key with
  | none => Ordered.insert groups key ⟨field, []⟩
  | some group => Ordered.insert groups key ⟨group.first, group.others ++ [field]⟩

def ofFields (fields : List SelectedField) : Ordered FieldGroup :=
  fields.foldl insert []

end FieldGroup

namespace SelectionItem

mutual

/-- The fields of a selection, whatever the conditions on them are. -/
def allFields : List SelectionItem → List SelectedField
  | [] => []
  | item :: rest => item.fields ++ allFields rest

def fields : SelectionItem → List SelectedField
  | field head children => [⟨head, children⟩]
  | group _ items => allFields items

end

mutual

def admittedAll (bindings : Json.Members) : List SelectionItem → List SelectedField
  | [] => []
  | item :: rest => item.admitted bindings ++ admittedAll bindings rest

def admitted (bindings : Json.Members) : SelectionItem → List SelectedField
  | field head children =>
    if head.conditions.all (·.admits bindings) then [⟨head, children⟩] else []
  | group conditions items =>
    if conditions.all (·.admits bindings) then admittedAll bindings items else []

end

end SelectionItem

end GraphGateway
