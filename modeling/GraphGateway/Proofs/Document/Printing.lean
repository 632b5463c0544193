import GraphGateway.Proofs.Document.Recognition

/-!
This module contains the words that a document is written with. Tokens that mean these words derive
the document, up to the positions of its nodes.
-/

namespace GraphGateway

/-- What a document is written with, whatever the spelling of its numbers and strings. -/
inductive Word where
  | punctuator (p : Punctuator)
  | name (s : String)
  | int (n : Int)
  | float (d : Double)
  | string (s : String)

def Token.Kind.word : Token.Kind → Word
  | .punctuator p => .punctuator p
  | .name s => .name s
  | .int raw => .int (Double.signedValue raw.toList)
  | .float raw => .float (.ofLiteral raw.toList)
  | .string s => .string s

def parenthesized (words : List Word) : List Word :=
  match words with
  | [] => []
  | _ => .punctuator .parenL :: (words ++ [.punctuator .parenR])

mutual

def Literal.words : Literal → List Word
  | .variable name => [.punctuator .dollar, .name name]
  | .int n => [.int n]
  | .float d => [.float d]
  | .string s => [.string s]
  | .boolean b => [.name (if b then "true" else "false")]
  | .null => [.name "null"]
  | .enum name => [.name name]
  | .list items => .punctuator .bracketL :: (wordsItems items ++ [.punctuator .bracketR])
  | .object fields => .punctuator .braceL :: (wordsNamed fields ++ [.punctuator .braceR])

def Literal.wordsItems : List Literal → List Word
  | [] => []
  | item :: rest => item.words ++ wordsItems rest

def Literal.wordsNamed : List (String × Literal) → List Word
  | [] => []
  | (name, value) :: rest => .name name :: .punctuator .colon :: (value.words ++ wordsNamed rest)

end

def Directive.words (directive : Directive) : List Word :=
  .punctuator .atSign :: .name directive.name
    :: parenthesized (Literal.wordsNamed directive.arguments)

def TypeRef.words : TypeRef → List Word
  | .named name => [.name name]
  | .list inner => .punctuator .bracketL :: (inner.words ++ [.punctuator .bracketR])
  | .nonNull inner => inner.words ++ [.punctuator .bang]

def Literal.defaultWords : Option Literal → List Word
  | none => []
  | some value => .punctuator .equals :: value.words

def VariableDefinition.words (definition : VariableDefinition) : List Word :=
  .punctuator .dollar :: .name definition.name :: .punctuator .colon
    :: (definition.type.words ++ Literal.defaultWords definition.default
      ++ definition.directives.flatMap Directive.words)

def FieldNode.nameWords (node : FieldNode) : List Word :=
  match node.aliasName with
  | none => [.name node.name]
  | some aliasName => [.name aliasName, .punctuator .colon, .name node.name]

def FieldNode.words (node : FieldNode) : List Word :=
  node.nameWords ++ parenthesized (Literal.wordsNamed node.arguments)
    ++ node.directives.flatMap Directive.words

def Selection.conditionWords : Option String → List Word
  | none => []
  | some condition => [.name "on", .name condition]

mutual

def Selection.words : Selection → List Word
  | .field node none => node.words
  | .field node (some ⟨items, _⟩) =>
    node.words ++ .punctuator .braceL :: (wordsAll items ++ [.punctuator .braceR])
  | .spread fragment directives _ =>
    .punctuator .spread :: .name fragment :: directives.flatMap Directive.words
  | .inline condition directives ⟨items, _⟩ _ =>
    .punctuator .spread :: (conditionWords condition ++ directives.flatMap Directive.words
      ++ .punctuator .braceL :: (wordsAll items ++ [.punctuator .braceR]))

def Selection.wordsAll : List Selection → List Word
  | [] => []
  | item :: rest => item.words ++ wordsAll rest

end

def SelectionSet.words (set : SelectionSet) : List Word :=
  .punctuator .braceL :: (Selection.wordsAll set.items ++ [.punctuator .braceR])

def Operation.words (op : Operation) : List Word :=
  .name op.kind.name :: (op.name.toList.map .name
    ++ parenthesized (op.variableDefinitions.flatMap VariableDefinition.words)
    ++ op.directives.flatMap Directive.words ++ SelectionSet.words op.set)

def Fragment.words (f : Fragment) : List Word :=
  .name "fragment" :: .name f.name :: .name "on" :: .name f.condition
    :: (f.directives.flatMap Directive.words ++ SelectionSet.words f.set)

/-- A query that has only a selection set may be written as that set alone. -/
inductive Definition.Printed : List Word → Definition → Prop where
  | operation (op : Operation) : Definition.Printed op.words (.operation op)
  | shorthand (set : SelectionSet) (position : Position)
    : Definition.Printed (SelectionSet.words set)
        (.operation ⟨.query, none, [], [], set, position⟩)
  | fragment (f : Fragment) : Definition.Printed f.words (.fragment f)

def Document.Printed (document : Document) (words : List Word) : Prop :=
  Phrases Definition.Printed words document.definitions

mutual

/-- A value that can be written; names are not looked at. -/
def Literal.Printable (constant : Bool) : Literal → Prop
  | .variable _ => constant = false
  | .int n => -9223372036854775808 ≤ n ∧ n ≤ 9223372036854775807
  | .enum name => name ∉ ["true", "false", "null"]
  | .list items => PrintableItems constant items
  | .object fields => PrintableNamed constant fields
  | _ => True

def Literal.PrintableItems (constant : Bool) : List Literal → Prop
  | [] => True
  | item :: rest => item.Printable constant ∧ PrintableItems constant rest

def Literal.PrintableNamed (constant : Bool) : List (String × Literal) → Prop
  | [] => True
  | (_, value) :: rest => value.Printable constant ∧ PrintableNamed constant rest

end

def Directive.Printable (constant : Bool) (directive : Directive) : Prop :=
  Literal.PrintableNamed constant directive.arguments

def TypeRef.Printable : TypeRef → Prop
  | .named _ => True
  | .list inner => inner.Printable
  | .nonNull inner => inner.isNonNull = false ∧ inner.Printable

structure VariableDefinition.Printable (definition : VariableDefinition) : Prop where
  type : definition.type.Printable
  default : ∀ value ∈ definition.default, value.Printable true
  directives : ∀ directive ∈ definition.directives, directive.Printable true

structure FieldNode.Printable (node : FieldNode) : Prop where
  arguments : Literal.PrintableNamed false node.arguments
  directives : ∀ directive ∈ node.directives, directive.Printable false

mutual

def Selection.Printable : Selection → Prop
  | .field node none => node.Printable
  | .field node (some ⟨items, _⟩) => node.Printable ∧ items ≠ [] ∧ PrintableAll items
  | .spread fragment directives _ =>
    fragment ≠ "on" ∧ ∀ directive ∈ directives, directive.Printable false
  | .inline _ directives ⟨items, _⟩ _ =>
    (∀ directive ∈ directives, directive.Printable false) ∧ items ≠ [] ∧ PrintableAll items

def Selection.PrintableAll : List Selection → Prop
  | [] => True
  | item :: rest => item.Printable ∧ PrintableAll rest

end

def SelectionSet.Printable (set : SelectionSet) : Prop :=
  set.items ≠ [] ∧ Selection.PrintableAll set.items

structure Operation.Printable (op : Operation) : Prop where
  variableDefinitions : ∀ definition ∈ op.variableDefinitions, definition.Printable
  directives : ∀ directive ∈ op.directives, directive.Printable false
  set : SelectionSet.Printable op.set

structure Fragment.Printable (f : Fragment) : Prop where
  name : f.name ≠ "on"
  directives : ∀ directive ∈ f.directives, directive.Printable false
  set : SelectionSet.Printable f.set

def Definition.Printable : Definition → Prop
  | .operation op => op.Printable
  | .fragment f => f.Printable

/-- A document that can be written and is not nested too deep to be read again. -/
structure Document.Printable (document : Document) : Prop where
  ne_nil : document.definitions ≠ []
  definitions : ∀ definition ∈ document.definitions, definition.Printable
  depth_le : document.depth ≤ 128

def Directive.unplaced (directive : Directive) : Directive :=
  { directive with position := .start }

def VariableDefinition.unplaced (definition : VariableDefinition) : VariableDefinition :=
  { definition with
    directives := definition.directives.map Directive.unplaced
    position := .start }

def FieldNode.unplaced (node : FieldNode) : FieldNode :=
  { node with directives := node.directives.map Directive.unplaced, position := .start }

mutual

def Selection.unplaced : Selection → Selection
  | .field node none => .field node.unplaced none
  | .field node (some ⟨items, _⟩) => .field node.unplaced (some ⟨unplacedAll items, .start⟩)
  | .spread fragment directives _ => .spread fragment (directives.map Directive.unplaced) .start
  | .inline condition directives ⟨items, _⟩ _ =>
    .inline condition (directives.map Directive.unplaced) ⟨unplacedAll items, .start⟩ .start

def Selection.unplacedAll : List Selection → List Selection
  | [] => []
  | item :: rest => item.unplaced :: unplacedAll rest

end

def SelectionSet.unplaced (set : SelectionSet) : SelectionSet :=
  ⟨Selection.unplacedAll set.items, .start⟩

def Operation.unplaced (op : Operation) : Operation :=
  ⟨op.kind, op.name, op.variableDefinitions.map VariableDefinition.unplaced,
    op.directives.map Directive.unplaced, SelectionSet.unplaced op.set, .start⟩

def Fragment.unplaced (f : Fragment) : Fragment :=
  ⟨f.name, f.condition, f.directives.map Directive.unplaced, SelectionSet.unplaced f.set, .start⟩

def Definition.unplaced : Definition → Definition
  | .operation op => .operation op.unplaced
  | .fragment f => .fragment f.unplaced

def Document.unplaced (document : Document) : Document :=
  ⟨document.definitions.map Definition.unplaced⟩

def Means (tokens : List Token) (words : List Word) : Prop :=
  tokens.map (fun token => token.kind.word) = words

section Means

variable {tokens : List Token} {words : List Word}

theorem Means.nil (h : Means tokens []) : tokens = [] :=
  List.map_eq_nil_iff.mp h

theorem Means.append {rest : List Word} (h : Means tokens (words ++ rest))
    : ∃ first second, tokens = first ++ second ∧ Means first words ∧ Means second rest := by
  obtain ⟨first, second, htokens, hfirst, hsecond⟩ := List.map_eq_append_iff.mp h
  exact ⟨first, second, htokens, hfirst, hsecond⟩

theorem Means.cons {word : Word} (h : Means tokens (word :: words))
    : ∃ kind position rest, tokens = ⟨kind, position⟩ :: rest ∧ kind.word = word
        ∧ Means rest words := by
  obtain ⟨token, rest, rfl, hword, hrest⟩ := List.map_eq_cons_iff.mp h
  exact ⟨token.kind, token.position, rest, rfl, hword, hrest⟩

theorem Means.punctuator {p : Punctuator} (h : Means tokens (.punctuator p :: words))
    : ∃ position rest, tokens = ⟨.punctuator p, position⟩ :: rest ∧ Means rest words := by
  obtain ⟨kind, position, rest, rfl, hword, hrest⟩ := h.cons
  cases kind <;> cases hword
  exact ⟨position, rest, rfl, hrest⟩

theorem Means.name {s : String} (h : Means tokens (.name s :: words))
    : ∃ position rest, tokens = ⟨.name s, position⟩ :: rest ∧ Means rest words := by
  obtain ⟨kind, position, rest, rfl, hword, hrest⟩ := h.cons
  cases kind <;> cases hword
  exact ⟨position, rest, rfl, hrest⟩

theorem Means.enclosed {opening close : Punctuator}
    (h : Means tokens (.punctuator opening :: (words ++ [.punctuator close])))
    : ∃ start inner stop, tokens
        = ⟨.punctuator opening, start⟩ :: (inner ++ [⟨.punctuator close, stop⟩])
        ∧ Means inner words := by
  obtain ⟨start, rest, rfl, hrest⟩ := h.punctuator
  obtain ⟨inner, last, rfl, hinner, hlast⟩ := hrest.append
  obtain ⟨stop, _, rfl, hnil⟩ := hlast.punctuator
  cases hnil.nil
  exact ⟨start, inner, stop, rfl, hinner⟩

end Means

mutual

theorem Literal.derives_of_means {constant : Bool} (l : Literal) (tokens : List Token)
    (hl : l.Printable constant) (h : Means tokens l.words)
    : l.Derives constant tokens := by
  cases l with
  | «variable» name =>
    obtain ⟨_, _, rfl, hname⟩ := h.punctuator
    obtain ⟨_, _, rfl, hrest⟩ := hname.name
    cases hrest.nil
    exact .variable hl
  | int n =>
    obtain ⟨kind, _, _, rfl, hword, hrest⟩ := h.cons
    cases hrest.nil
    cases kind <;> cases hword
    exact .int hl.1 hl.2
  | float d =>
    obtain ⟨kind, _, _, rfl, hword, hrest⟩ := h.cons
    cases hrest.nil
    cases kind <;> cases hword
    exact .float
  | string s =>
    obtain ⟨kind, _, _, rfl, hword, hrest⟩ := h.cons
    cases hrest.nil
    cases kind <;> cases hword
    exact .string
  | boolean b =>
    obtain ⟨_, _, rfl, hrest⟩ := h.name
    cases hrest.nil
    exact .boolean
  | null =>
    obtain ⟨_, _, rfl, hrest⟩ := h.name
    cases hrest.nil
    exact .null
  | enum name =>
    obtain ⟨_, _, rfl, hrest⟩ := h.name
    cases hrest.nil
    exact .enum hl
  | list items =>
    obtain ⟨_, inner, _, rfl, hinner⟩ := h.enclosed
    exact .list (derivesItems_of_means items inner hl hinner)
  | object fields =>
    obtain ⟨_, inner, _, rfl, hinner⟩ := h.enclosed
    exact .object (derivesNamed_of_means fields inner hl hinner)

theorem Literal.derivesItems_of_means {constant : Bool} (items : List Literal)
    (tokens : List Token) (hitems : PrintableItems constant items)
    (h : Means tokens (wordsItems items))
    : Phrases (Literal.Derives constant) tokens items := by
  cases items with
  | nil =>
    cases h.nil
    exact .nil
  | cons item rest =>
    obtain ⟨first, second, rfl, hfirst, hsecond⟩ := h.append
    exact .cons (derives_of_means item first hitems.1 hfirst)
      (derivesItems_of_means rest second hitems.2 hsecond)

theorem Literal.derivesNamed_of_means {constant : Bool} (fields : List (String × Literal))
    (tokens : List Token) (hfields : PrintableNamed constant fields)
    (h : Means tokens (wordsNamed fields))
    : Phrases (Literal.DerivesNamed constant) tokens fields := by
  cases fields with
  | nil =>
    cases h.nil
    exact .nil
  | cons field rest =>
    obtain ⟨name, value⟩ := field
    obtain ⟨_, _, rfl, hcolon⟩ := h.name
    obtain ⟨_, _, rfl, hvalue⟩ := hcolon.punctuator
    obtain ⟨first, second, rfl, hfirst, hsecond⟩ := hvalue.append
    exact .cons (.mk (derives_of_means value first hfields.1 hfirst))
      (derivesNamed_of_means rest second hfields.2 hsecond)

end

theorem phrases_of_means {α : Type} {Phrase : List Token → α → Prop} {words : α → List Word}
    {erase : α → α} {xs : List α}
    (hxs : ∀ x ∈ xs, ∀ tokens, Means tokens (words x) →
      ∃ y, Phrase tokens y ∧ erase y = erase x)
    {tokens : List Token} (h : Means tokens (xs.flatMap words))
    : ∃ ys, Phrases Phrase tokens ys ∧ ys.map erase = xs.map erase := by
  induction xs generalizing tokens with
  | nil =>
    cases h.nil
    exact ⟨[], .nil, rfl⟩
  | cons x rest ih =>
    rw [List.forall_mem_cons] at hxs
    rw [List.flatMap_cons] at h
    obtain ⟨first, second, rfl, hfirst, hsecond⟩ := h.append
    obtain ⟨y, hy, hyx⟩ := hxs.1 first hfirst
    obtain ⟨ys, hys, hrest⟩ := ih hxs.2 hsecond
    exact ⟨y :: ys, .cons hy hys, by rw [List.map_cons, List.map_cons, hyx, hrest]⟩

theorem parenthesized_of_means {α : Type} {Phrase : List Token → α → Prop} {words : List Word}
    {P : List α → Prop}
    (hphrases : ∀ tokens, Means tokens words → ∃ xs, Phrases Phrase tokens xs ∧ P xs)
    (hnil : ∀ xs, P xs → (xs = [] ↔ words = [])) {tokens : List Token}
    (h : Means tokens (parenthesized words))
    : ∃ xs, Parenthesized Phrase tokens xs ∧ P xs := by
  cases words with
  | nil =>
    cases h.nil
    obtain ⟨xs, _, hxs⟩ := hphrases [] rfl
    cases (hnil xs hxs).mpr rfl
    exact ⟨[], .absent, hxs⟩
  | cons word rest =>
    obtain ⟨_, inner, _, rfl, hinner⟩ := h.enclosed
    obtain ⟨xs, hphrases, hxs⟩ := hphrases inner hinner
    exact ⟨xs, .present (mt (hnil xs hxs).mp (List.cons_ne_nil _ _)) hphrases, hxs⟩

theorem Literal.wordsNamed_eq_nil_iff (fields : List (String × Literal))
    : wordsNamed fields = [] ↔ fields = [] := by
  cases fields with
  | nil => simp [wordsNamed]
  | cons field rest => simp [wordsNamed]

theorem arguments_of_means {constant : Bool} {arguments : Arguments} {tokens : List Token}
    (harguments : Literal.PrintableNamed constant arguments)
    (h : Means tokens (parenthesized (Literal.wordsNamed arguments)))
    : Parenthesized (Literal.DerivesNamed constant) tokens arguments := by
  obtain ⟨_, hderives, rfl⟩ := parenthesized_of_means (P := fun xs => xs = arguments)
    (fun inner hinner =>
      ⟨arguments, Literal.derivesNamed_of_means arguments inner harguments hinner, rfl⟩)
    (fun xs hxs => hxs ▸ (Literal.wordsNamed_eq_nil_iff arguments).symm) h
  exact hderives

theorem Directive.derives_of_means {constant : Bool} {directive : Directive}
    {tokens : List Token} (hdirective : directive.Printable constant)
    (h : Means tokens directive.words)
    : ∃ d : Directive, d.Derives constant tokens ∧ d.unplaced = directive.unplaced := by
  obtain ⟨start, _, rfl, hname⟩ := h.punctuator
  obtain ⟨_, _, rfl, harguments⟩ := hname.name
  exact ⟨{ directive with position := start }, .mk (arguments_of_means hdirective harguments), rfl⟩

theorem directives_of_means {constant : Bool} {directives : List Directive}
    {tokens : List Token} (hdirectives : ∀ directive ∈ directives, directive.Printable constant)
    (h : Means tokens (directives.flatMap Directive.words))
    : ∃ ds, Phrases (Directive.Derives constant) tokens ds
        ∧ ds.map Directive.unplaced = directives.map Directive.unplaced :=
  phrases_of_means
    (fun directive hmem _ hwords => Directive.derives_of_means (hdirectives directive hmem) hwords)
    h

theorem TypeRef.derives_of_means {type : TypeRef} {tokens : List Token}
    (htype : type.Printable) (h : Means tokens type.words)
    : type.Derives tokens := by
  induction type generalizing tokens with
  | named name =>
    obtain ⟨_, _, rfl, hrest⟩ := h.name
    cases hrest.nil
    exact .named
  | list inner ih =>
    obtain ⟨_, _, _, rfl, hinner⟩ := h.enclosed
    exact .list (ih htype hinner)
  | nonNull inner ih =>
    obtain ⟨_, _, rfl, hinner, hbang⟩ := h.append
    obtain ⟨_, _, rfl, hrest⟩ := hbang.punctuator
    cases hrest.nil
    exact .nonNull htype.1 (ih htype.2 hinner)

theorem default_of_means {default : Option Literal} {tokens : List Token}
    (hdefault : ∀ value ∈ default, value.Printable true)
    (h : Means tokens (Literal.defaultWords default))
    : Optionally Literal.DerivesDefault tokens default := by
  cases default with
  | none =>
    cases h.nil
    exact .absent
  | some value =>
    obtain ⟨_, _, rfl, hvalue⟩ := h.punctuator
    exact .present (.mk (Literal.derives_of_means value _ (hdefault value rfl) hvalue))

theorem VariableDefinition.derives_of_means {definition : VariableDefinition}
    {tokens : List Token} (hdefinition : definition.Printable) (h : Means tokens definition.words)
    : ∃ v : VariableDefinition, v.Derives tokens ∧ v.unplaced = definition.unplaced := by
  obtain ⟨start, _, rfl, hname⟩ := h.punctuator
  obtain ⟨_, _, rfl, hcolon⟩ := hname.name
  obtain ⟨_, _, rfl, hrest⟩ := hcolon.punctuator
  obtain ⟨_, _, rfl, hrest, hdirectives⟩ := hrest.append
  obtain ⟨_, _, rfl, htype, hdefault⟩ := hrest.append
  obtain ⟨ds, hds, hdsEq⟩ := directives_of_means hdefinition.directives hdirectives
  refine ⟨{ definition with directives := ds, position := start },
    .mk (TypeRef.derives_of_means hdefinition.type htype)
      (default_of_means hdefinition.default hdefault) hds, ?_⟩
  rw [unplaced, unplaced, hdsEq]

theorem FieldNode.derives_of_means {node : FieldNode} {tokens : List Token}
    (hnode : node.Printable) (h : Means tokens node.words)
    : ∃ n : FieldNode, n.Derives tokens ∧ n.unplaced = node.unplaced := by
  obtain ⟨_, _, rfl, hfirst, hdirectives⟩ := h.append
  obtain ⟨_, _, rfl, hname, harguments⟩ := hfirst.append
  obtain ⟨ds, hds, hdsEq⟩ := directives_of_means hnode.directives hdirectives
  have harguments := arguments_of_means hnode.arguments harguments
  obtain ⟨aliasName, name, arguments, directives, position⟩ := node
  cases aliasName with
  | none =>
    obtain ⟨start, _, rfl, hrest⟩ := hname.name
    cases hrest.nil
    refine ⟨⟨none, name, arguments, ds, start⟩, .plain harguments hds, ?_⟩
    rw [unplaced, unplaced, hdsEq]
  | some aliasName =>
    obtain ⟨start, _, rfl, hcolon⟩ := hname.name
    obtain ⟨_, _, rfl, hplain⟩ := hcolon.punctuator
    obtain ⟨_, _, rfl, hrest⟩ := hplain.name
    cases hrest.nil
    refine ⟨⟨some aliasName, name, arguments, ds, start⟩, .aliased harguments hds, ?_⟩
    rw [unplaced, unplaced, hdsEq]

theorem Selection.ne_nil_of_unplacedAll_eq {items others : List Selection}
    (h : unplacedAll others = unplacedAll items) (hne : items ≠ [])
    : others ≠ [] := by
  rintro rfl
  cases items with
  | nil => exact hne rfl
  | cons item rest => cases h

mutual

theorem Selection.derives_of_means (selection : Selection) (tokens : List Token)
    (hselection : selection.Printable) (h : Means tokens selection.words)
    : ∃ s : Selection, s.Derives tokens ∧ s.unplaced = selection.unplaced := by
  match selection with
  | .field node none =>
    obtain ⟨n, hn, hnEq⟩ := FieldNode.derives_of_means hselection h
    refine ⟨.field n none, ?_, by rw [unplaced, unplaced, hnEq]⟩
    have hderives := Selection.Derives.field hn .absent
    rwa [List.append_nil] at hderives
  | .field node (some ⟨items, position⟩) =>
    obtain ⟨hnode, hne, hitems⟩ := hselection
    obtain ⟨_, _, rfl, hnodeWords, hset⟩ := h.append
    obtain ⟨n, hn, hnEq⟩ := FieldNode.derives_of_means hnode hnodeWords
    obtain ⟨start, inner, _, rfl, hinner⟩ := hset.enclosed
    obtain ⟨ys, hys, hysEq⟩ := derivesAll_of_means items inner hitems hinner
    refine ⟨.field n (some ⟨ys, start⟩),
      .field hn (.present (.mk (ne_nil_of_unplacedAll_eq hysEq hne) hys)), ?_⟩
    rw [unplaced, unplaced, hnEq, hysEq]
  | .spread fragment directives position =>
    obtain ⟨start, _, rfl, hname⟩ := h.punctuator
    obtain ⟨_, _, rfl, hdirectives⟩ := hname.name
    obtain ⟨ds, hds, hdsEq⟩ := directives_of_means hselection.2 hdirectives
    refine ⟨.spread fragment ds start, .spread hselection.1 hds, ?_⟩
    rw [unplaced, unplaced, hdsEq]
  | .inline condition directives ⟨items, position⟩ _ =>
    obtain ⟨hdirectives, hne, hitems⟩ := hselection
    obtain ⟨start, _, rfl, hrest⟩ := h.punctuator
    obtain ⟨_, _, rfl, hfirst, hset⟩ := hrest.append
    obtain ⟨_, _, rfl, hcondition, hdirectivesWords⟩ := hfirst.append
    obtain ⟨ds, hds, hdsEq⟩ := directives_of_means hdirectives hdirectivesWords
    obtain ⟨next, inner, stop, rfl, hinner⟩ := hset.enclosed
    obtain ⟨ys, hys, hysEq⟩ := derivesAll_of_means items inner hitems hinner
    have hset : SelectionSet.Derives
        (⟨.punctuator .braceL, next⟩ :: (inner ++ [⟨.punctuator .braceR, stop⟩])) ⟨ys, next⟩ :=
      .mk (ne_nil_of_unplacedAll_eq hysEq hne) hys
    refine ⟨.inline condition ds ⟨ys, next⟩ start, ?_, by rw [unplaced, unplaced, hdsEq, hysEq]⟩
    cases condition with
    | none =>
      cases hcondition.nil
      exact .inline hds hset
    | some condition =>
      obtain ⟨_, _, rfl, hname⟩ := hcondition.name
      obtain ⟨_, _, rfl, hnil⟩ := hname.name
      cases hnil.nil
      exact .inlineOn hds hset

theorem Selection.derivesAll_of_means (items : List Selection) (tokens : List Token)
    (hitems : PrintableAll items) (h : Means tokens (wordsAll items))
    : ∃ ys, Phrases Selection.Derives tokens ys ∧ unplacedAll ys = unplacedAll items := by
  cases items with
  | nil =>
    cases h.nil
    exact ⟨[], .nil, rfl⟩
  | cons item rest =>
    obtain ⟨first, second, rfl, hfirst, hsecond⟩ := h.append
    obtain ⟨y, hy, hyEq⟩ := derives_of_means item first hitems.1 hfirst
    obtain ⟨ys, hys, hysEq⟩ := derivesAll_of_means rest second hitems.2 hsecond
    exact ⟨y :: ys, .cons hy hys, by rw [unplacedAll, unplacedAll, hyEq, hysEq]⟩

end

theorem SelectionSet.derives_of_means {set : SelectionSet} {tokens : List Token}
    (hset : SelectionSet.Printable set) (h : Means tokens (SelectionSet.words set))
    : ∃ s, SelectionSet.Derives tokens s ∧ SelectionSet.unplaced s = SelectionSet.unplaced set := by
  obtain ⟨start, inner, _, rfl, hinner⟩ := h.enclosed
  obtain ⟨ys, hys, hysEq⟩ := Selection.derivesAll_of_means set.items inner hset.2 hinner
  refine ⟨⟨ys, start⟩, .mk (Selection.ne_nil_of_unplacedAll_eq hysEq hset.1) hys, ?_⟩
  rw [unplaced, unplaced, hysEq]

theorem VariableDefinition.flatMap_words_eq_nil_iff (definitions : List VariableDefinition)
    : definitions.flatMap words = [] ↔ definitions = [] := by
  cases definitions with
  | nil => simp
  | cons definition rest => simp [List.flatMap_cons, words]

theorem VariableDefinition.parenthesized_of_means {definitions : List VariableDefinition}
    {tokens : List Token} (hdefinitions : ∀ definition ∈ definitions, definition.Printable)
    (h : Means tokens (parenthesized (definitions.flatMap words)))
    : ∃ vs, Parenthesized VariableDefinition.Derives tokens vs
        ∧ vs.map unplaced = definitions.map unplaced := by
  refine GraphGateway.parenthesized_of_means (fun tokens hwords => phrases_of_means
    (fun definition hmem _ => derives_of_means (hdefinitions definition hmem)) hwords) ?_ h
  intro vs hvs
  rw [← List.map_eq_nil_iff (f := unplaced), hvs, List.map_eq_nil_iff,
    flatMap_words_eq_nil_iff]

theorem optionalName_of_means {name : Option String} {tokens : List Token}
    (h : Means tokens (name.toList.map .name))
    : Optionally IsName tokens name := by
  cases name with
  | none =>
    cases h.nil
    exact .absent
  | some name =>
    obtain ⟨_, _, rfl, hnil⟩ := h.name
    cases hnil.nil
    exact .present .mk

theorem Operation.derives_of_means {op : Operation} {tokens : List Token} (hop : op.Printable)
    (h : Means tokens op.words)
    : ∃ o : Operation, o.Derives tokens ∧ o.unplaced = op.unplaced := by
  obtain ⟨start, _, rfl, hrest⟩ := h.name
  obtain ⟨_, _, rfl, hfirst, hset⟩ := hrest.append
  obtain ⟨_, _, rfl, hsecond, hdirectives⟩ := hfirst.append
  obtain ⟨_, _, rfl, hname, hdefinitions⟩ := hsecond.append
  obtain ⟨vs, hvs, hvsEq⟩ :=
    VariableDefinition.parenthesized_of_means hop.variableDefinitions hdefinitions
  obtain ⟨ds, hds, hdsEq⟩ := directives_of_means hop.directives hdirectives
  obtain ⟨s, hs, hsEq⟩ := SelectionSet.derives_of_means hop.set hset
  refine ⟨⟨op.kind, op.name, vs, ds, s, start⟩,
    .full (optionalName_of_means hname) hvs hds hs, ?_⟩
  rw [unplaced, unplaced, hvsEq, hdsEq, hsEq]

theorem Fragment.derives_of_means {f : Fragment} {tokens : List Token} (hf : f.Printable)
    (h : Means tokens f.words)
    : ∃ g : Fragment, g.Derives tokens ∧ g.unplaced = f.unplaced := by
  obtain ⟨start, _, rfl, hname⟩ := h.name
  obtain ⟨_, _, rfl, hkeyword⟩ := hname.name
  obtain ⟨_, _, rfl, hcondition⟩ := hkeyword.name
  obtain ⟨_, _, rfl, hrest⟩ := hcondition.name
  obtain ⟨_, _, rfl, hdirectives, hset⟩ := hrest.append
  obtain ⟨ds, hds, hdsEq⟩ := directives_of_means hf.directives hdirectives
  obtain ⟨s, hs, hsEq⟩ := SelectionSet.derives_of_means hf.set hset
  refine ⟨⟨f.name, f.condition, ds, s, start⟩, .mk hf.name hds hs, ?_⟩
  rw [unplaced, unplaced, hdsEq, hsEq]

theorem Definition.derives_of_means {definition : Definition} {words : List Word}
    {tokens : List Token} (hdefinition : definition.Printable)
    (hwords : definition.Printed words) (h : Means tokens words)
    : ∃ d : Definition, d.Derives tokens ∧ d.unplaced = definition.unplaced := by
  cases hwords with
  | operation op =>
    obtain ⟨o, ho, hoEq⟩ := Operation.derives_of_means hdefinition h
    exact ⟨.operation o, .operation ho, congrArg Definition.operation hoEq⟩
  | shorthand set position =>
    obtain ⟨s, hs, hsEq⟩ := SelectionSet.derives_of_means hdefinition.set h
    refine ⟨.operation ⟨.query, none, [], [], s, s.position⟩, .operation (.shorthand hs), ?_⟩
    rw [unplaced, unplaced, Operation.unplaced, Operation.unplaced, hsEq]
  | fragment f =>
    obtain ⟨g, hg, hgEq⟩ := Fragment.derives_of_means hdefinition h
    exact ⟨.fragment g, .fragment hg, congrArg Definition.fragment hgEq⟩

theorem definitions_of_means {definitions : List Definition} {words : List Word}
    {tokens : List Token} (hdefinitions : ∀ definition ∈ definitions, definition.Printable)
    (hwords : Phrases Definition.Printed words definitions) (h : Means tokens words)
    : ∃ ds, Phrases Definition.Derives tokens ds
        ∧ ds.map Definition.unplaced = definitions.map Definition.unplaced := by
  induction hwords generalizing tokens with
  | nil =>
    cases h.nil
    exact ⟨[], .nil, rfl⟩
  | cons hfirst _ ih =>
    rw [List.forall_mem_cons] at hdefinitions
    obtain ⟨_, _, rfl, hfirstWords, hrestWords⟩ := h.append
    obtain ⟨d, hd, hdEq⟩ := Definition.derives_of_means hdefinitions.1 hfirst hfirstWords
    obtain ⟨ds, hds, hdsEq⟩ := ih hdefinitions.2 hrestWords
    exact ⟨d :: ds, .cons hd hds, by rw [List.map_cons, List.map_cons, hdEq, hdsEq]⟩

theorem greatest_map {α : Type} {depth : α → Nat} {f : α → α} (h : ∀ x, depth (f x) = depth x)
    (xs : List α)
    : greatest depth (xs.map f) = greatest depth xs := by
  induction xs with
  | nil => rfl
  | cons x rest ih => rw [List.map_cons, greatest, greatest, h, ih]

theorem Directive.depth_unplaced (directive : Directive)
    : directive.unplaced.depth = directive.depth := rfl

theorem VariableDefinition.depth_unplaced (definition : VariableDefinition)
    : definition.unplaced.depth = definition.depth := by
  rw [depth, depth, unplaced, greatest_map Directive.depth_unplaced]

theorem FieldNode.depth_unplaced (node : FieldNode) : node.unplaced.depth = node.depth := by
  rw [depth, depth, unplaced, greatest_map Directive.depth_unplaced]

mutual

theorem Selection.depth_unplaced (selection : Selection)
    : selection.unplaced.depth = selection.depth := by
  match selection with
  | .field node none => rw [unplaced, depth, depth, FieldNode.depth_unplaced]
  | .field node (some ⟨items, _⟩) =>
    rw [unplaced, depth, depth, FieldNode.depth_unplaced, depthAll_unplacedAll items]
  | .spread fragment directives _ =>
    rw [unplaced, depth, depth, greatest_map Directive.depth_unplaced]
  | .inline condition directives ⟨items, _⟩ _ =>
    rw [unplaced, depth, depth, greatest_map Directive.depth_unplaced, depthAll_unplacedAll items]

theorem Selection.depthAll_unplacedAll (items : List Selection)
    : depthAll (unplacedAll items) = depthAll items := by
  cases items with
  | nil => rfl
  | cons item rest =>
    rw [unplacedAll, depthAll, depthAll, depth_unplaced item, depthAll_unplacedAll rest]

end

theorem SelectionSet.depth_unplaced (set : SelectionSet)
    : SelectionSet.depth (SelectionSet.unplaced set) = SelectionSet.depth set := by
  rw [depth, depth, unplaced, Selection.depthAll_unplacedAll]

theorem Definition.depth_unplaced (definition : Definition)
    : definition.unplaced.depth = definition.depth := by
  cases definition with
  | operation op =>
    rw [unplaced, depth, depth, Operation.depth, Operation.depth, Operation.unplaced,
      greatest_map VariableDefinition.depth_unplaced, greatest_map Directive.depth_unplaced,
      SelectionSet.depth_unplaced]
  | fragment f =>
    rw [unplaced, depth, depth, Fragment.depth, Fragment.depth, Fragment.unplaced,
      greatest_map Directive.depth_unplaced, SelectionSet.depth_unplaced]

theorem Document.depth_unplaced (document : Document)
    : document.unplaced.depth = document.depth := by
  rw [depth, depth, unplaced, greatest_map Definition.depth_unplaced]

theorem Document.exists_ofTokens_of_means {document : Document} {words : List Word}
    (tokens : Tokens) (hdocument : document.Printable) (hwords : document.Printed words)
    (h : Means tokens.rest words)
    : ∃ parsed, ofTokens tokens = .ok parsed ∧ parsed.unplaced = document.unplaced := by
  obtain ⟨ds, hds, hdsEq⟩ := definitions_of_means hdocument.definitions hwords h
  have hunplaced : unplaced ⟨ds⟩ = document.unplaced := congrArg Document.mk hdsEq
  have hne : ds ≠ [] := by
    rintro rfl
    exact hdocument.ne_nil (List.map_eq_nil_iff.mp hdsEq.symm)
  refine ⟨⟨ds⟩, (ofTokens_eq_ok_iff _ _).mpr ⟨⟨hne, hds⟩, ?_⟩, hunplaced⟩
  rw [← depth_unplaced, hunplaced, depth_unplaced]
  exact hdocument.depth_le

end GraphGateway
