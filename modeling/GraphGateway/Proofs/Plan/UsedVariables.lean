import GraphGateway.Proofs.Library
import GraphGateway.Proofs.Plan.InlinedSets
import GraphGateway.Proofs.Plan.Templates

/-!
This module contains that the operation of a document that compiles declares the variables that it
uses: those in the first argument of each name, which is the one that counts, and so all of them
where no name is repeated.
-/

namespace GraphGateway

def Selection.argumentLists : Selection → List Arguments
  | .field node _ => node.arguments :: node.directives.map Directive.arguments
  | .spread _ directives _ => directives.map Directive.arguments
  | .inline _ directives _ _ => directives.map Directive.arguments

/-- A selection that is written in a set or in a fragment that the set reaches. -/
inductive Document.Selects (document : Document) (set : SelectionSet) : Selection → Prop where
  | written {selection : Selection} (h : selection ∈ SelectionSet.selections set)
    : Selects document set selection
  | fragment {name : String} {fragment : Fragment} {selection : Selection}
    (hreaches : document.Reaches set name) (hfragment : document.fragment? name = some fragment)
    (h : selection ∈ SelectionSet.selections fragment.set)
    : Selects document set selection

def Operation.Declares (operation : Operation) (name : String) : Prop :=
  ∃ definition ∈ operation.variableDefinitions, definition.name = name

theorem Literal.mem_variableNamesItems_iff {name : String} {items : List Literal}
    : name ∈ variableNamesItems items ↔ ∃ item ∈ items, name ∈ item.variableNames := by
  induction items with
  | nil => simp [variableNamesItems]
  | cons item rest ih => simp [variableNamesItems, ih]

theorem Literal.mem_variableNamesFields_iff {name : String} {fields : List (String × Literal)}
    : name ∈ variableNamesFields fields ↔ ∃ field ∈ fields, name ∈ field.2.variableNames := by
  induction fields with
  | nil => simp [variableNamesFields]
  | cons field rest ih => simp [variableNamesFields, ih]

theorem Literal.variableNames_list_eq_nil_iff {items : List Literal}
    : (list items).variableNames = [] ↔ ∀ item ∈ items, item.variableNames = [] := by
  simp only [variableNames, List.eq_nil_iff_forall_not_mem, mem_variableNamesItems_iff, not_exists,
    not_and]
  exact forall_comm.trans (forall_congr' fun _ => forall_comm)

theorem Coercion.variableNames_of_coerceLiteral {type : TypeRef} {l : Literal} {v : Json}
    (h : coerceLiteral type l = .ok v)
    : l.variableNames = [] := by
  induction type generalizing l v with
  | named name =>
    cases l with
    | «variable» | list | object =>
      unfold coerceLiteral at h
      rw [if_neg Bool.noConfusion] at h
      split at h
      . next scalar _ => cases scalar <;> cases h
      . cases h
    | _ => rfl
  | list inner ih =>
    unfold coerceLiteral at h
    split at h
    . rfl
    . next items =>
      obtain ⟨_, hitems, _⟩ := bind_eq_ok h
      rw [Literal.variableNames_list_eq_nil_iff]
      intro item hitem
      obtain ⟨_, _, hok⟩ := exists_mem_of_mapM_eq_ok hitems item hitem
      exact ih hok
    . obtain ⟨_, hok, _⟩ := bind_eq_ok h
      exact ih hok
  | nonNull inner ih =>
    unfold coerceLiteral at h
    split at h
    . cases h
    . exact ih h

namespace Compile

variable {env : Env}

def Env.DeclaresIn (env : Env) (l : Literal) : Prop :=
  ∀ name ∈ l.variableNames, ∃ definition ∈ env.variableDefinitions, definition.name = name

/-- All variables are declared in the arguments that count. -/
def Env.DeclaresFirst (env : Env) (arguments : Arguments) : Prop :=
  ∀ name l, Ordered.get? arguments name = some l → env.DeclaresIn l

theorem known_of_forIn {arguments : Arguments} {u : PUnit} {position : Position}
    {f : String × Literal → PUnit → Compile (ForInStep PUnit)} (unknown : String → Bool)
    (cause : String → CompileError.Cause)
    (hf : ∀ argument, f argument ⟨⟩ =
      if unknown argument.1 = true then do
        report (cause argument.1) position
        Pure.pure (.yield ⟨⟩)
      else Pure.pure (.yield ⟨⟩))
    (h : forIn arguments ⟨⟩ f = Pure.pure u)
    : ∀ argument ∈ arguments, unknown argument.1 = false := by
  rw [Checked.forIn_eq_pure_iff fun argument => by rw [hf]; split <;> rfl] at h
  intro argument hmem
  have herrors := h argument hmem
  rw [hf] at herrors
  split at herrors
  . cases herrors
  . next hknown => exact Bool.eq_false_iff.mpr hknown

theorem declaresIn_of_checkVariableUse {name : String} {location : TypeRef} {hasDefault : Bool}
    {position : Position}
    (h : (checkVariableUse env name location hasDefault position).errors = [])
    : env.DeclaresIn (.variable name) := by
  obtain ⟨definition, hfind, _⟩ := checkVariableUse_value (checkVariableUse_errors h)
  have hname : definition.name = name := by simpa using List.find?_some hfind
  intro used hused
  rw [List.mem_singleton.mp hused]
  exact ⟨definition, List.mem_of_find?_eq_some hfind, hname⟩

theorem declaresIn_of_compileValue {argument : String} {position : Position} {type : TypeRef}
    {hasDefault : Bool} {l : Literal}
    (h : (compileValue env argument position type hasDefault l).errors = [])
    : env.DeclaresIn l := by
  revert h
  apply compileValue_induction (P := fun _ _ l x => x.errors = [] → env.DeclaresIn l)
  case hvariable =>
    intro type hasDefault name h
    rw [Checked.errors_bind_eq_nil_iff] at h
    exact declaresIn_of_checkVariableUse h.1
  case hconstant =>
    intro type hasDefault l h name hname
    unfold constant at h
    split at h
    . next hok =>
      rw [Coercion.variableNames_of_coerceLiteral hok] at hname
      cases hname
    . cases h
  case hlist =>
    intro type inner hasDefault items _ ih h name hname
    rw [Checked.errors_bind_eq_nil_iff, errors_collect, List.flatMap_eq_nil_iff] at h
    obtain ⟨item, hitem, hname⟩ := Literal.mem_variableNamesItems_iff.mp hname
    exact ih item (h.1 item hitem) name hname
  case hsingle =>
    intro type inner hasDefault l _ _ ih h
    rw [Checked.errors_bind_eq_nil_iff] at h
    exact ih h.1

theorem declaresFirst_of_compileCondition {skips : Bool} {directive : Directive}
    (h : (compileCondition env skips directive).errors = [])
    : env.DeclaresFirst directive.arguments := by
  intro name l hl
  obtain ⟨verdict, h⟩ := Checked.exists_eq_pure_iff.mpr h
  obtain ⟨_, hnames, h⟩ := Checked.bind_eq_pure_iff.mp h
  have hknown := known_of_forIn (· != "if") (.unknownArgument · _) (fun _ => rfl) hnames _
    (Ordered.mem_of_get? hl)
  have hname : name = "if" := by simpa using hknown
  have hargument : directive.argument? "if" = some l := hname ▸ hl
  rw [hargument] at h
  cases l with
  | «variable» used =>
    obtain ⟨_, huse, _⟩ := Checked.bind_eq_pure_iff.mp h
    exact declaresIn_of_checkVariableUse (Checked.exists_eq_pure_iff.mp ⟨_, huse⟩)
  | boolean flag => exact fun used hused => nomatch hused
  | _ => exact absurd h Checked.report_bind_ne_pure

theorem declaresFirst_of_compileConditions {directives : List Directive}
    (h : (compileConditions env directives).errors = [])
    : ∀ directive ∈ directives, env.DeclaresFirst directive.arguments := by
  induction directives with
  | nil => simp
  | cons directive rest ih =>
    unfold compileConditions at h
    rw [Checked.errors_bind_eq_nil_iff, Checked.errors_bind_eq_nil_iff] at h
    refine List.forall_mem_cons.mpr ⟨?_, ih h.2.1⟩
    have hdirective := h.1
    unfold compileDirective at hdirective
    split at hdirective
    . exact declaresFirst_of_compileCondition hdirective
    . split at hdirective
      . exact declaresFirst_of_compileCondition hdirective
      . cases hdirective

theorem declaresFirst_of_compileArguments {node : FieldNode} {coordinate : String}
    {declared : Ordered ArgumentDef}
    (h : (compileArguments env node coordinate declared).errors = [])
    : env.DeclaresFirst node.arguments := by
  intro name l hl
  obtain ⟨templates, h⟩ := Checked.exists_eq_pure_iff.mpr h
  obtain ⟨_, hnames, h⟩ := Checked.bind_eq_pure_iff.mp h
  have hknown := known_of_forIn (!declared.contains ·) (.unknownArgument · _) (fun _ => rfl)
    hnames _ (Ordered.mem_of_get? hl)
  have hcontains : declared.contains name = true := by simpa using hknown
  obtain ⟨argument, hargument⟩ := Option.isSome_iff_exists.mp hcontains
  have herrors := (Checked.mapM_eq_pure_iff.mp h).1 _ (Ordered.mem_of_get? hargument)
  dsimp only [compileArgument] at herrors
  rw [hl, Checked.errors_bind_eq_nil_iff] at herrors
  exact declaresIn_of_compileValue herrors.1

variable {levels : Nat} {stack : List String} {selection : Selection}

theorem Env.CleanItem.declaresFirst (h : env.CleanItem levels stack selection)
    : ∀ arguments ∈ selection.argumentLists, env.DeclaresFirst arguments := by
  have hdirectives {directives : List Directive} {conditions : Option (List Condition)}
      (h : compileConditions env directives = Pure.pure conditions)
      : ∀ arguments ∈ directives.map Directive.arguments, env.DeclaresFirst arguments := by
    rw [List.forall_mem_map]
    exact declaresFirst_of_compileConditions (Checked.exists_eq_pure_iff.mp ⟨_, h⟩)
  obtain ⟨parent, items, h⟩ := h
  cases selection with
  | field node set =>
    obtain ⟨conditions, hconditions, h⟩ := Checked.bind_eq_pure_iff.mp h
    obtain ⟨field, hfield, _⟩ := Checked.bind_eq_pure_iff.mp h
    refine List.forall_mem_cons.mpr ⟨?_, hdirectives hconditions⟩
    obtain ⟨hnone, _⟩ | ⟨declared, arguments, _, _, harguments, _⟩ := exists_of_compileField hfield
    . rw [hnone]
      exact fun name l hl => nomatch hl
    . exact declaresFirst_of_compileArguments (Checked.exists_eq_pure_iff.mp ⟨_, harguments⟩)
  | spread name directives position =>
    obtain ⟨_, _, _, hconditions, _⟩ := compileSpread_eq_pure_iff.mp h
    exact hdirectives hconditions
  | inline condition directives set position =>
    obtain ⟨_, _, hconditions, _⟩ := compileInline_eq_pure_iff.mp h
    exact hdirectives hconditions

end Compile

namespace Plan

open Compile

theorem cleanItem_of_selects {schema : Schema} {document : Document} {plan : Plan}
    (h : compile schema document = .ok plan) {operation : Operation}
    (hoperation : operation ∈ document.operations) {selection : Selection}
    (hselects : document.Selects operation.set selection)
    : ∃ levels stack, Env.CleanItem ⟨schema, document, operation.variableDefinitions⟩ levels stack
        selection := by
  obtain ⟨_, hoperations, hclean⟩ := clean_of_compile h
  rw [hoperations, List.mem_singleton] at hoperation
  subst hoperation
  cases hselects with
  | written hselection =>
    obtain ⟨levels, hitem⟩ := hclean.selections hselection
    exact ⟨levels, [], hitem⟩
  | fragment hreaches hfragment hselection =>
    obtain ⟨_, fragment, fewer, inside, hfound, _, hbody⟩ := hclean.reaches hreaches
    rw [hfragment] at hfound
    cases hfound
    obtain ⟨levels, hitem⟩ := hbody.selections hselection
    exact ⟨levels, inside, hitem⟩

/--
The operation of a document that compiles declares each variable in the first argument of a name, at
any nesting, wherever the argument occurs. So it is with all arguments if no name is repeated.
-/
theorem declares_of_compile {schema : Schema} {document : Document} {plan : Plan}
    (h : compile schema document = .ok plan) {operation : Operation}
    (hoperation : operation ∈ document.operations) {selection : Selection}
    (hselects : document.Selects operation.set selection) {arguments : Arguments}
    (harguments : arguments ∈ selection.argumentLists)
    : (∀ name l, Ordered.get? arguments name = some l →
          ∀ used ∈ l.variableNames, operation.Declares used)
        ∧ ((Ordered.keys arguments).Nodup →
          ∀ used ∈ Literal.variableNamesFields arguments, operation.Declares used) := by
  obtain ⟨levels, stack, hitem⟩ := cleanItem_of_selects h hoperation hselects
  have hfirst := hitem.declaresFirst arguments harguments
  refine ⟨hfirst, fun hnodup used hused => ?_⟩
  obtain ⟨⟨name, l⟩, hfield, hused⟩ := Literal.mem_variableNamesFields_iff.mp hused
  exact hfirst name l (Ordered.get?_of_mem hnodup hfield) used hused

end Plan

namespace Library

theorem declares_authorDocument
    : ∃ operation ∈ authorDocument.operations, operation.Declares "id" := by
  refine ⟨_, List.mem_singleton_self _, ?_⟩
  have harguments := Plan.declares_of_compile (compile_authorDocument .null .sync)
    (List.mem_singleton_self _) (.written List.mem_cons_self) List.mem_cons_self
  exact harguments.2 (by decide) "id" List.mem_cons_self

def repeatedDocument : Document :=
  ⟨[.operation ⟨.query, none, [], [],
    ⟨[.field ⟨none, "author", [("id", .string "1"), ("id", .variable "x")], [], ⟨1, 3⟩⟩
      (some ⟨[.field ⟨none, "name", [], [], ⟨1, 29⟩⟩ none], ⟨1, 27⟩⟩)], ⟨1, 1⟩⟩, ⟨1, 1⟩⟩]⟩

def repeatedPlan : Plan :=
  ⟨.query, none, "Query", [],
    [.field
      { authorField .null .sync with
        arguments := [⟨"id", required "ID", some (.const (.string "1")), none⟩]
        position := ⟨1, 3⟩ }
      (some [.field { nameField with position := ⟨1, 29⟩ } none])]⟩

theorem compile_repeatedDocument
    : Plan.compile (schema .null .sync) repeatedDocument = .ok repeatedPlan := by
  cbv

theorem not_declares_repeatedDocument
    : ¬ ∀ schema document plan, Plan.compile schema document = .ok plan →
        ∀ operation ∈ document.operations, ∀ selection, document.Selects operation.set selection →
          ∀ arguments ∈ selection.argumentLists,
            ∀ used ∈ Literal.variableNamesFields arguments, operation.Declares used := by
  intro h
  obtain ⟨definition, hdefinition, _⟩ := h _ _ _ compile_repeatedDocument _
    (List.mem_singleton_self _) _ (.written List.mem_cons_self) _ List.mem_cons_self "x"
    List.mem_cons_self
  cases hdefinition

end Library
end GraphGateway
