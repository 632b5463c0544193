import GraphGateway.Proofs.Plan.Faultless

/-!
This module contains compilation as a walk with a state: a depth that is counted up when a
selection set is opened and down when it is closed, and one stack on which the fragments are pushed
that are being inlined.

Once enough calls may be nested in one another, the walk comes to an end from every state, leaves
the depth and the stack as they were and gives what compilation gives that hands both down.
-/

namespace GraphGateway
namespace Compile

structure Walk.State where
  depth : Nat
  deepest : Nat
  stack : List String
  errors : List CompileError

/-- A part of a walk, which comes to no end if more calls are nested in one another than may be. -/
abbrev Walk := StateT Walk.State Option

namespace Walk

variable {α β : Type}

def note (x : Compile α) : Walk α := fun s =>
  some (x.value, { s with errors := s.errors ++ x.errors })

def openSet : Walk Unit :=
  modify fun s => { s with depth := s.depth + 1, deepest := max s.deepest (s.depth + 1) }

def closeSet : Walk Unit :=
  modify fun s => { s with depth := s.depth - 1 }

def push (name : String) : Walk Unit :=
  modify fun s => { s with stack := name :: s.stack }

def pop : Walk Unit :=
  modify fun s => { s with stack := s.stack.tail }

section Step

variable (env : Env) (sets : SelectionSet → ObjectType → Walk (List SelectionItem))

def ofChildren (node : FieldNode) (type : TypeRef) (set : Option SelectionSet)
    : Walk (Option (List SelectionItem)) := do
  match env.schema.type? type.innermost, set with
  | some (.object object), some set => return some (← sets set object)
  | some (.object _), none =>
    note (refuse (.selectionRequired node.name type.render) node.position)
  | _, some _ => note (refuse (.selectionForbidden node.name type.render) node.position)
  | _, none => return none

def ofField (node : FieldNode) (set : Option SelectionSet) (parent : ObjectType)
    : Walk (Option (FieldPlan × Option (List SelectionItem))) := do
  if node.name = typenameField then
    return some (← note (compileTypename node set.isSome parent))
  else
    match parent.field? node.name with
    | none => note (refuse (.unknownField node.name parent.name) node.position)
    | some field =>
      let coordinate := parent.name ++ "." ++ node.name
      let arguments ← note (compileArguments env node coordinate field.arguments)
      let children ← ofChildren env sets node field.type set
      let resolution :=
        match field.resolver with
        | some resolver => .resolver resolver
        | none => .property
      return some (⟨node.responseKey, parent.name, node.name, resolution, arguments, [],
        .ofTypeRef field.type, node.position⟩, children)

def ofSelection (parent : ObjectType) (selection : Selection) : Walk (List SelectionItem) := do
  match selection with
  | .field node set =>
    let conditions ← note (compileConditions env node.directives)
    let field ← ofField env sets node set parent
    match conditions, field with
    | some conditions, some (head, children) =>
      return [.field { head with conditions } children]
    | _, _ => return []
  | .spread name directives position =>
    let conditions ← note (compileConditions env directives)
    match env.document.fragment? name with
    | none =>
      note (report (.unknownFragment name) position)
      return []
    | some fragment =>
      if (← get).stack.contains name then
        note (report (.fragmentCycle name) position)
        return []
      else if ← note (checkTypeCondition env (some name) fragment.condition parent position) then
        note (rejectDirectives fragment.directives "FRAGMENT_DEFINITION")
        push name
        let items ← sets fragment.set parent
        pop
        return groupOf conditions items
      else
        return []
  | .inline condition directives set position =>
    let conditions ← note (compileConditions env directives)
    if ← note (checkInline env condition parent position) then
      return groupOf conditions (← sets set parent)
    else
      return []

end Step

def ofSet (env : Env) (calls : Nat) (set : SelectionSet) (parent : ObjectType)
    : Walk (List SelectionItem) := do
  match calls with
  | 0 => failure
  | calls + 1 =>
    if Parser.maxDepth ≤ (← get).depth then
      note (report (.tooDeep Parser.maxDepth) set.position)
      return []
    else
      openSet
      let items ← set.items.mapM (ofSelection env (ofSet env calls) parent)
      closeSet
      return items.flatten

/--
From every state with so many levels left and so many fragments being inlined, a walk comes
to an end with what is compiled. The depth and the stack are what they were, and at most 128
sets have been open.
-/
def Follows (levels : Nat) (stack : List String) (walk : Walk α) (x : Compile α) : Prop :=
  ∀ s : State, Parser.maxDepth - s.depth = levels → s.stack = stack →
    ∃ deepest, deepest ≤ max s.deepest Parser.maxDepth
      ∧ walk s = some (x.value, { s with deepest, errors := s.errors ++ x.errors })

variable {levels : Nat} {stack : List String}

theorem follows_note (x : Compile α) : Follows levels stack (note x) x :=
  fun s _ _ => ⟨s.deepest, Nat.le_max_left _ _, rfl⟩

theorem follows_pure (a : α) : Follows levels stack (pure a) (pure a) := by
  intro s _ _
  refine ⟨s.deepest, Nat.le_max_left _ _, ?_⟩
  rw [Checked.value_pure, Checked.errors_pure, List.append_nil]
  rfl

theorem bind_apply (walk : Walk α) (f : α → Walk β) (s : State)
    : (walk >>= f) s = (walk s).bind fun result => f result.1 result.2 := rfl

theorem Follows.bind {walk : Walk α} {x : Compile α} {f : α → Walk β} {g : α → Compile β}
    (h : Follows levels stack walk x) (hf : ∀ a, Follows levels stack (f a) (g a))
    : Follows levels stack (walk >>= f) (x >>= g) := by
  intro s hlevels hstack
  obtain ⟨first, hfirst, hwalk⟩ := h s hlevels hstack
  obtain ⟨second, hsecond, hrest⟩ :=
    hf x.value { s with deepest := first, errors := s.errors ++ x.errors } hlevels hstack
  refine ⟨second, ?_, ?_⟩
  . dsimp only at hsecond
    omega
  . rw [bind_apply, hwalk, Option.bind_some, hrest, Checked.value_bind, Checked.errors_bind,
      List.append_assoc]

theorem follows_get {f : State → Walk β} {x : Compile β}
    (h : ∀ s : State, Parser.maxDepth - s.depth = levels → s.stack = stack →
      Follows levels stack (f s) x)
    : Follows levels stack (do f (← get)) x :=
  fun s hlevels hstack => h s hlevels hstack s hlevels hstack

theorem follows_mapM {f : α → Walk β} {g : α → Compile β}
    (h : ∀ a, Follows levels stack (f a) (g a)) (xs : List α)
    : Follows levels stack (xs.mapM f) (xs.mapM g) := by
  induction xs with
  | nil => exact follows_pure _
  | cons x rest ih =>
    rw [List.mapM_cons, List.mapM_cons]
    exact (h x).bind fun _ => ih.bind fun _ => follows_pure _

section Step

variable {env : Env} {sets : SelectionSet → ObjectType → Walk (List SelectionItem)}
  (hsets : ∀ stack set object,
    Follows levels stack (sets set object) (compileSet env levels stack set object))

include hsets

theorem follows_ofChildren (node : FieldNode) (type : TypeRef) (set : Option SelectionSet)
    : Follows levels stack (ofChildren env sets node type set)
        (compileChildren env (compileSet env levels stack) node type set) := by
  unfold ofChildren compileChildren
  cases env.schema.type? type.innermost with
  | none =>
    cases set with
    | none => exact follows_pure _
    | some set => exact follows_note _
  | some named =>
    cases named with
    | scalar scalar =>
      cases set with
      | none => exact follows_pure _
      | some set => exact follows_note _
    | object object =>
      cases set with
      | none => exact follows_note _
      | some set => exact (hsets _ _ _).bind fun _ => follows_pure _

theorem follows_ofField (node : FieldNode) (set : Option SelectionSet) (parent : ObjectType)
    : Follows levels stack (ofField env sets node set parent)
        (compileField env (compileSet env levels stack) node set parent) := by
  unfold ofField compileField
  split
  . exact (follows_note _).bind fun _ => follows_pure _
  . cases parent.field? node.name with
    | none => exact follows_note _
    | some field =>
      exact (follows_note _).bind fun _ =>
        (follows_ofChildren hsets _ _ _).bind fun _ => follows_pure _

theorem follows_inside (name : String) (set : SelectionSet) (parent : ObjectType)
    (f : List SelectionItem → List SelectionItem)
    : Follows levels stack
        (do
          push name
          let items ← sets set parent
          pop
          return f items)
        (do return f (← compileSet env levels (name :: stack) set parent)) := by
  intro s hlevels hstack
  obtain ⟨deepest, hdeepest, hset⟩ :=
    hsets (name :: stack) set parent { s with stack := name :: s.stack } hlevels
      (congrArg (name :: ·) hstack)
  refine ⟨deepest, hdeepest, ?_⟩
  have hpush : push name s = some ((), { s with stack := name :: s.stack }) := rfl
  rw [bind_apply, hpush, Option.bind_some, bind_apply, hset, Checked.value_bind,
    Checked.errors_bind, Checked.value_pure, Checked.errors_pure, List.append_nil]
  rfl

theorem follows_ofSelection (parent : ObjectType) (selection : Selection)
    : Follows levels stack (ofSelection env sets parent selection)
        (compileSelection env stack (compileSet env levels) parent selection) := by
  unfold ofSelection compileSelection
  cases selection with
  | field node set =>
    refine (follows_note _).bind fun conditions =>
      (follows_ofField hsets _ _ _).bind fun field => ?_
    rcases conditions with _ | conditions <;> rcases field with _ | ⟨head, children⟩ <;>
      exact follows_pure _
  | spread name directives position =>
    refine (follows_note _).bind fun conditions => ?_
    cases env.document.fragment? name with
    | none => exact (follows_note _).bind fun _ => follows_pure _
    | some fragment =>
      refine follows_get fun s _ hstack => ?_
      rw [hstack]
      dsimp only
      split
      . exact (follows_note _).bind fun _ => follows_pure _
      . refine (follows_note _).bind fun fits => ?_
        cases fits with
        | false => exact follows_pure _
        | true => exact (follows_note _).bind fun _ => follows_inside hsets _ _ _ _
  | inline condition directives set position =>
    refine (follows_note _).bind fun conditions => (follows_note _).bind fun fits => ?_
    cases fits with
    | false => exact follows_pure _
    | true => exact (hsets _ _ _).bind fun _ => follows_pure _

end Step

/--
No call is nested deeper than there are levels, so that one more is enough, which refuses its set.
-/
theorem follows_ofSet (env : Env) {levels calls : Nat} (hcalls : levels < calls)
    (stack : List String) (set : SelectionSet) (parent : ObjectType)
    : Follows levels stack (ofSet env calls set parent)
        (compileSet env levels stack set parent) := by
  -- The levels that are left make up for the depth, so that they decrease where it is counted up.
  induction levels generalizing calls stack set parent with
  | zero =>
    obtain ⟨calls, rfl⟩ := Nat.exists_eq_succ_of_ne_zero (Nat.ne_of_gt hcalls)
    unfold ofSet compileSet
    refine follows_get fun s hlevels _ => ?_
    rw [if_pos (by omega)]
    exact (follows_note _).bind fun _ => follows_pure _
  | succ levels ih =>
    obtain ⟨calls, rfl⟩ := Nat.exists_eq_succ_of_ne_zero (Nat.ne_of_gt (Nat.zero_lt_of_lt hcalls))
    have hsets := fun stack set object => ih (Nat.lt_of_succ_lt_succ hcalls) stack set object
    unfold ofSet
    refine follows_get fun s hlevels hstack => ?_
    rw [if_neg (by omega)]
    intro s hlevels hstack
    have hopen : openSet s
        = some ((), { s with depth := s.depth + 1, deepest := max s.deepest (s.depth + 1) }) := rfl
    obtain ⟨deepest, hdeepest, hitems⟩ :=
      follows_mapM (fun item => follows_ofSelection hsets parent item) set.items
        { s with depth := s.depth + 1, deepest := max s.deepest (s.depth + 1) }
        (by dsimp only; omega) hstack
    refine ⟨deepest, ?_, ?_⟩
    . dsimp only at hdeepest
      omega
    . rw [bind_apply, hopen, Option.bind_some, bind_apply, hitems, compileSet, Checked.value_bind,
        Checked.errors_bind, Checked.value_pure, Checked.errors_pure, List.append_nil]
      rfl

end Walk
end Compile
end GraphGateway
