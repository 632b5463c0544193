import GraphGateway.Document.Parse

/-!
This module contains the grammar of executable documents: which tokens are a document, a
selection or a value, and how deep what they are read as is nested. Every node carries the
position of its first token.

Phrases of a kind are a relation between lists of tokens, or of words, and what they stand for.
-/

namespace GraphGateway

inductive Phrases {α β : Type} (Phrase : List β → α → Prop) : List β → List α → Prop where
  | nil : Phrases Phrase [] []
  | cons {first rest : List β} {x : α} {xs : List α} (hfirst : Phrase first x)
    (hrest : Phrases Phrase rest xs)
    : Phrases Phrase (first ++ rest) (x :: xs)

inductive Optionally {α : Type} (Phrase : List Token → α → Prop)
    : List Token → Option α → Prop where
  | absent : Optionally Phrase [] none
  | present {tokens : List Token} {x : α} (h : Phrase tokens x) : Optionally Phrase tokens (some x)

/-- Phrases in parentheses, which are left out if there are no phrases. -/
inductive Parenthesized {α : Type} (Phrase : List Token → α → Prop)
    : List Token → List α → Prop where
  | absent : Parenthesized Phrase [] []
  | present {tokens : List Token} {xs : List α} {start stop : Position} (hne : xs ≠ [])
    (h : Phrases Phrase tokens xs)
    : Parenthesized Phrase
        (⟨.punctuator .parenL, start⟩ :: (tokens ++ [⟨.punctuator .parenR, stop⟩])) xs

inductive IsName : List Token → String → Prop where
  | mk {name : String} {position : Position} : IsName [⟨.name name, position⟩] name

mutual

inductive Literal.Derives (constant : Bool) : List Token → Literal → Prop where
  | variable {name : String} {start next : Position} (h : constant = false)
    : Literal.Derives constant [⟨.punctuator .dollar, start⟩, ⟨.name name, next⟩] (.variable name)
  | int {raw : String} {start : Position}
    (hlow : -9223372036854775808 ≤ Double.signedValue raw.toList)
    (hhigh : Double.signedValue raw.toList ≤ 9223372036854775807)
    : Literal.Derives constant [⟨.int raw, start⟩] (.int (Double.signedValue raw.toList))
  | float {raw : String} {start : Position}
    : Literal.Derives constant [⟨.float raw, start⟩] (.float (.ofLiteral raw.toList))
  | string {s : String} {start : Position}
    : Literal.Derives constant [⟨.string s, start⟩] (.string s)
  | boolean {b : Bool} {start : Position}
    : Literal.Derives constant [⟨.name (if b then "true" else "false"), start⟩] (.boolean b)
  | null {start : Position} : Literal.Derives constant [⟨.name "null", start⟩] .null
  | enum {name : String} {start : Position} (h : name ∉ ["true", "false", "null"])
    : Literal.Derives constant [⟨.name name, start⟩] (.enum name)
  | list {tokens : List Token} {items : List Literal} {start stop : Position}
    (h : Phrases (Literal.Derives constant) tokens items)
    : Literal.Derives constant
        (⟨.punctuator .bracketL, start⟩ :: (tokens ++ [⟨.punctuator .bracketR, stop⟩]))
        (.list items)
  | object {tokens : List Token} {fields : List (String × Literal)} {start stop : Position}
    (h : Phrases (Literal.DerivesNamed constant) tokens fields)
    : Literal.Derives constant
        (⟨.punctuator .braceL, start⟩ :: (tokens ++ [⟨.punctuator .braceR, stop⟩]))
        (.object fields)

inductive Literal.DerivesNamed (constant : Bool) : List Token → String × Literal → Prop where
  | mk {name : String} {tokens : List Token} {value : Literal} {start next : Position}
    (h : Literal.Derives constant tokens value)
    : Literal.DerivesNamed constant
        (⟨.name name, start⟩ :: ⟨.punctuator .colon, next⟩ :: tokens) (name, value)

end

inductive Directive.Derives (constant : Bool) : List Token → Directive → Prop where
  | mk {name : String} {tokens : List Token} {arguments : Arguments} {start next : Position}
    (h : Parenthesized (Literal.DerivesNamed constant) tokens arguments)
    : Directive.Derives constant
        (⟨.punctuator .atSign, start⟩ :: ⟨.name name, next⟩ :: tokens) ⟨name, arguments, start⟩

inductive TypeRef.Derives : List Token → TypeRef → Prop where
  | named {name : String} {start : Position} : TypeRef.Derives [⟨.name name, start⟩] (.named name)
  | list {tokens : List Token} {inner : TypeRef} {start stop : Position}
    (h : TypeRef.Derives tokens inner)
    : TypeRef.Derives
        (⟨.punctuator .bracketL, start⟩ :: (tokens ++ [⟨.punctuator .bracketR, stop⟩]))
        (.list inner)
  | nonNull {tokens : List Token} {inner : TypeRef} {stop : Position}
    (hinner : inner.isNonNull = false) (h : TypeRef.Derives tokens inner)
    : TypeRef.Derives (tokens ++ [⟨.punctuator .bang, stop⟩]) (.nonNull inner)

inductive Literal.DerivesDefault : List Token → Literal → Prop where
  | mk {tokens : List Token} {value : Literal} {start : Position} (h : value.Derives true tokens)
    : Literal.DerivesDefault (⟨.punctuator .equals, start⟩ :: tokens) value

inductive VariableDefinition.Derives : List Token → VariableDefinition → Prop where
  | mk {name : String} {type : TypeRef} {default : Option Literal} {directives : List Directive}
    {first second third : List Token} {start next colon : Position} (htype : type.Derives first)
    (hdefault : Optionally Literal.DerivesDefault second default)
    (hdirectives : Phrases (Directive.Derives true) third directives)
    : VariableDefinition.Derives
        (⟨.punctuator .dollar, start⟩ :: ⟨.name name, next⟩ :: ⟨.punctuator .colon, colon⟩
          :: (first ++ second ++ third))
        ⟨name, type, default, directives, start⟩

inductive FieldNode.Derives : List Token → FieldNode → Prop where
  | plain {name : String} {arguments : Arguments} {directives : List Directive}
    {first second : List Token} {start : Position}
    (harguments : Parenthesized (Literal.DerivesNamed false) first arguments)
    (hdirectives : Phrases (Directive.Derives false) second directives)
    : FieldNode.Derives ([⟨.name name, start⟩] ++ first ++ second)
        ⟨none, name, arguments, directives, start⟩
  | aliased {aliasName name : String} {arguments : Arguments} {directives : List Directive}
    {first second : List Token} {start colon next : Position}
    (harguments : Parenthesized (Literal.DerivesNamed false) first arguments)
    (hdirectives : Phrases (Directive.Derives false) second directives)
    : FieldNode.Derives
        ([⟨.name aliasName, start⟩, ⟨.punctuator .colon, colon⟩, ⟨.name name, next⟩]
          ++ first ++ second)
        ⟨some aliasName, name, arguments, directives, start⟩

mutual

inductive Selection.Derives : List Token → Selection → Prop where
  | field {node : FieldNode} {set : Option SelectionSet} {first second : List Token}
    (h : node.Derives first) (hset : Optionally SelectionSet.Derives second set)
    : Selection.Derives (first ++ second) (.field node set)
  | spread {fragment : String} {directives : List Directive} {tokens : List Token}
    {start next : Position} (hfragment : fragment ≠ "on")
    (hdirectives : Phrases (Directive.Derives false) tokens directives)
    : Selection.Derives
        (⟨.punctuator .spread, start⟩ :: ⟨.name fragment, next⟩ :: tokens)
        (.spread fragment directives start)
  | inline {directives : List Directive} {set : SelectionSet} {first second : List Token}
    {start : Position} (hdirectives : Phrases (Directive.Derives false) first directives)
    (hset : SelectionSet.Derives second set)
    : Selection.Derives (⟨.punctuator .spread, start⟩ :: (first ++ second))
        (.inline none directives set start)
  | inlineOn {condition : String} {directives : List Directive} {set : SelectionSet}
    {first second : List Token} {start next third : Position}
    (hdirectives : Phrases (Directive.Derives false) first directives)
    (hset : SelectionSet.Derives second set)
    : Selection.Derives
        (⟨.punctuator .spread, start⟩ :: ⟨.name "on", next⟩ :: ⟨.name condition, third⟩
          :: (first ++ second))
        (.inline (some condition) directives set start)

inductive SelectionSet.Derives : List Token → SelectionSet → Prop where
  | mk {items : List Selection} {tokens : List Token} {start stop : Position} (hne : items ≠ [])
    (h : Phrases Selection.Derives tokens items)
    : SelectionSet.Derives
        (⟨.punctuator .braceL, start⟩ :: (tokens ++ [⟨.punctuator .braceR, stop⟩]))
        ⟨items, start⟩

end

/-- A selection set alone is a query without a name. -/
inductive Operation.Derives : List Token → Operation → Prop where
  | shorthand {set : SelectionSet} {tokens : List Token} (h : SelectionSet.Derives tokens set)
    : Operation.Derives tokens ⟨.query, none, [], [], set, set.position⟩
  | full {kind : OperationKind} {name : Option String} {definitions : List VariableDefinition}
    {directives : List Directive} {set : SelectionSet} {first second third fourth : List Token}
    {start : Position} (hname : Optionally IsName first name)
    (hdefinitions : Parenthesized VariableDefinition.Derives second definitions)
    (hdirectives : Phrases (Directive.Derives false) third directives)
    (hset : SelectionSet.Derives fourth set)
    : Operation.Derives
        (⟨.name kind.name, start⟩ :: (first ++ second ++ third ++ fourth))
        ⟨kind, name, definitions, directives, set, start⟩

inductive Fragment.Derives : List Token → Fragment → Prop where
  | mk {name condition : String} {directives : List Directive} {set : SelectionSet}
    {first second : List Token} {start next third fourth : Position} (hname : name ≠ "on")
    (hdirectives : Phrases (Directive.Derives false) first directives)
    (hset : SelectionSet.Derives second set)
    : Fragment.Derives
        (⟨.name "fragment", start⟩ :: ⟨.name name, next⟩ :: ⟨.name "on", third⟩
          :: ⟨.name condition, fourth⟩ :: (first ++ second))
        ⟨name, condition, directives, set, start⟩

inductive Definition.Derives : List Token → Definition → Prop where
  | operation {op : Operation} {tokens : List Token} (h : op.Derives tokens)
    : Definition.Derives tokens (.operation op)
  | fragment {f : Fragment} {tokens : List Token} (h : f.Derives tokens)
    : Definition.Derives tokens (.fragment f)

structure Document.Derives (tokens : List Token) (document : Document) : Prop where
  ne_nil : document.definitions ≠ []
  definitions : Phrases Definition.Derives tokens document.definitions

mutual

def Literal.depth : Literal → Nat
  | .list items => depthItems items + 1
  | .object fields => depthNamed fields + 1
  | _ => 0

def Literal.depthItems : List Literal → Nat
  | [] => 0
  | item :: rest => max item.depth (depthItems rest)

def Literal.depthNamed : List (String × Literal) → Nat
  | [] => 0
  | (_, value) :: rest => max value.depth (depthNamed rest)

end

def Directive.depth (directive : Directive) : Nat :=
  Literal.depthNamed directive.arguments

def greatest {α : Type} (depth : α → Nat) : List α → Nat
  | [] => 0
  | x :: rest => max (depth x) (greatest depth rest)

def FieldNode.depth (node : FieldNode) : Nat :=
  max (Literal.depthNamed node.arguments) (greatest Directive.depth node.directives)

mutual

/-- How deep selection sets, and the values in them, are nested in a selection. -/
def Selection.depth : Selection → Nat
  | .field node none => node.depth
  | .field node (some ⟨items, _⟩) => max node.depth (depthAll items + 1)
  | .spread _ directives _ => greatest Directive.depth directives
  | .inline _ directives ⟨items, _⟩ _ =>
    max (greatest Directive.depth directives) (depthAll items + 1)

def Selection.depthAll : List Selection → Nat
  | [] => 0
  | item :: rest => max item.depth (depthAll rest)

end

def SelectionSet.depth (set : SelectionSet) : Nat :=
  Selection.depthAll set.items + 1

/-- List types are nested in one another, and so are the values of a default and of directives. -/
def VariableDefinition.depth (definition : VariableDefinition) : Nat :=
  max (definition.type.listDepth)
    (max (greatest Literal.depth definition.default.toList)
      (greatest Directive.depth definition.directives))

def Operation.depth (op : Operation) : Nat :=
  max (greatest VariableDefinition.depth op.variableDefinitions)
    (max (greatest Directive.depth op.directives) (SelectionSet.depth op.set))

def Fragment.depth (f : Fragment) : Nat :=
  max (greatest Directive.depth f.directives) (SelectionSet.depth f.set)

def Definition.depth : Definition → Nat
  | .operation op => op.depth
  | .fragment f => f.depth

/-- The greatest depth on any path from a definition downwards. -/
def Document.depth (document : Document) : Nat :=
  greatest Definition.depth document.definitions

theorem greatest_le_iff {α : Type} {depth : α → Nat} {xs : List α} {n : Nat}
    : greatest depth xs ≤ n ↔ ∀ x ∈ xs, depth x ≤ n := by
  induction xs with
  | nil => simp [greatest]
  | cons x rest ih => rw [greatest, Nat.max_le, ih, List.forall_mem_cons]

theorem Literal.depthItems_eq_greatest (items : List Literal)
    : depthItems items = greatest depth items := by
  induction items with
  | nil => rfl
  | cons item rest ih => rw [depthItems, greatest, ih]

theorem Literal.depthNamed_eq_greatest (fields : List (String × Literal))
    : depthNamed fields = greatest (fun field => field.2.depth) fields := by
  induction fields with
  | nil => rfl
  | cons field rest ih => rw [depthNamed, greatest, ih]

theorem Selection.depthAll_eq_greatest (items : List Selection)
    : depthAll items = greatest depth items := by
  induction items with
  | nil => rfl
  | cons item rest ih => rw [depthAll, greatest, ih]

theorem Selection.depth_field (node : FieldNode) (set : Option SelectionSet)
    : (Selection.field node set).depth
        = max node.depth (greatest SelectionSet.depth set.toList) := by
  cases set with
  | none => simp [depth, greatest]
  | some set => simp [depth, greatest, SelectionSet.depth]

theorem Selection.depth_inline (condition : Option String) (directives : List Directive)
    (set : SelectionSet) (position : Position)
    : (Selection.inline condition directives set position).depth
        = max (greatest Directive.depth directives) (SelectionSet.depth set) := rfl

theorem SelectionSet.depth_eq_greatest (set : SelectionSet)
    : SelectionSet.depth set = greatest Selection.depth set.items + 1 := by
  rw [SelectionSet.depth, Selection.depthAll_eq_greatest]

end GraphGateway
