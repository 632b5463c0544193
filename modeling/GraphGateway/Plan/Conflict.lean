import GraphGateway.Plan.CompileError
import GraphGateway.Plan.FieldGroup

/-!
This module contains the check that fields with one response key can be merged: they must be the
same field with the same arguments, and so must be the fields that share a key in their
sub-selections taken together. Conditions do not count.
-/

namespace GraphGateway
namespace Conflict

def between? (first other : FieldPlan) : Option CompileError.Conflict :=
  if other.name != first.name then some (.differentFields first.name other.name)
  else if !ArgumentPlan.equalAll other.arguments first.arguments then some .differentArguments
  else none

def inGroup? (key : String) (group : FieldGroup) : Option CompileError :=
  let first := group.first.head
  group.others.findSome? fun other =>
    (between? first other.head).map fun conflict =>
      ⟨.fieldConflict key conflict, [first.position, other.head.position]⟩

/--
The conflicts in a selection. The number of levels is at least the depth of the selection, so that
nothing is left when it comes to zero.
-/
def ofSelection (levels : Nat) (items : List SelectionItem) : List CompileError :=
  match levels with
  | 0 => []
  | levels + 1 =>
    (FieldGroup.ofFields (SelectionItem.allFields items)).flatMap fun (key, group) =>
      match inGroup? key group with
      | some conflict => [conflict]
      | none => ofSelection levels group.children

end Conflict
end GraphGateway
