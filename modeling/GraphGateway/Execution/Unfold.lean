import GraphGateway.Execution.Task
import GraphGateway.Plan.FieldGroup

/-!
This module contains the unfolding of a plan into tasks. A resolver is a function of its call, so
that what it leads to can be said before it is invoked; the journal tells when it is.
-/

namespace GraphGateway

structure Setting where
  bindings : Json.Members
  context : Json

def ArgumentPlan.evaluateAll (arguments : List ArgumentPlan) (bindings : Json.Members)
    : Except ArgumentFault Json.Members := do
  let values ← arguments.mapM fun argument => do
    return (argument.name, ← argument.evaluate bindings)
  return values.filterMap fun (name, v) => v.map (name, ·)

namespace Task

def failed (site : Site) (cause : Failure.Cause) : Task :=
  settled (.error ⟨site, cause⟩)

/-- Tasks for the fields of an object: its type, a selection on it, the object and its path. -/
abbrev ObjectTasks :=
  String → List SelectionItem → Json → Path → Task

def complete (object : ObjectTasks) (children : List SelectionItem)
    : OutputType → Site → Json → Task
  | .nonNull inner, site, v => complete object children inner site v
  | .list inner, site, v =>
    match v with
    | .null => settled (.ok .null)
    | .array items =>
      join .array (items.mapIdx fun i item =>
        position (site.element i) inner.isNonNull
          (complete object children inner (site.element i) item))
    | _ => failed site .notList
  | .scalar s, site, v =>
    if v.isNull then settled (.ok .null)
    else
      match s.serialize v with
      | .ok w => settled (.ok w)
      | .error fault => failed site (.scalar fault)
  | .object name, site, v =>
    if v.isNull then settled (.ok .null) else object name children v site.path

def resolve (setting : Setting) (object : ObjectTasks) (parentType : String) (parent : Json)
    (group : FieldGroup) (site : Site)
    : Task :=
  let field := group.first.head
  let complete := complete object group.children field.output site
  match field.resolution with
  | .typename => settled (.ok (.string parentType))
  | .property =>
    match ArgumentPlan.evaluateAll field.arguments setting.bindings with
    | .error fault => failed site (.argument fault)
    | .ok _ => complete ((parent.get? field.name).getD .null)
  | .resolver resolver =>
    match ArgumentPlan.evaluateAll field.arguments setting.bindings with
    | .error fault => failed site (.argument fault)
    | .ok arguments =>
      let call : Call := ⟨parent, arguments, setting.context, parentType, field.name⟩
      let reply := resolver call
      invoke site call reply <|
        match reply.outcome with
        | .value v => complete v
        | .error e => failed site (.resolver e)
        | .panic _ => settled (.ok .null)

def ofGroup (setting : Setting) (object : ObjectTasks) (parentType : String) (parent : Json)
    (path : Path) (key : String) (group : FieldGroup)
    : Task :=
  let field := group.first.head
  let site : Site := ⟨field.coordinate, group.positions, path ++ [.key key]⟩
  position site field.output.isNonNull (resolve setting object parentType parent group site)

/--
The keys and tasks of a selection on an object. The number of levels is at least the depth of the
selection, so that there are no fields when it comes to zero.
-/
def ofSelection (setting : Setting) (levels : Nat) (type : String) (items : List SelectionItem)
    (parent : Json) (path : Path)
    : Ordered Task :=
  match levels with
  | 0 => []
  | levels + 1 =>
    let object : ObjectTasks := fun type items parent path =>
      let tasks := ofSelection setting levels type items parent path
      join (.object tasks.keys) (tasks.map Prod.snd)
    (FieldGroup.ofFields (SelectionItem.admittedAll setting.bindings items)).map
      fun (key, group) => (key, ofGroup setting object type parent path key group)

def ofPlan (plan : Plan) (setting : Setting) (root : Json) : Task :=
  let tasks := ofSelection setting plan.depth plan.rootType plan.selection root []
  let container := .object tasks.keys
  if plan.isSerial then series container [] (tasks.map Prod.snd)
  else join container (tasks.map Prod.snd)

end Task

end GraphGateway
