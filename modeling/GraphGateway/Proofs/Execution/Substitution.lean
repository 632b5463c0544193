import GraphGateway.Proofs.Execution.ReadVariables
import GraphGateway.Proofs.Execution.Reduced
import GraphGateway.Proofs.Execution.ResolverArguments
import GraphGateway.Proofs.Plan.SubstitutedPlans

/-!
This module contains that a document is answered alike whether a value is written in it or is
sent for a variable. Only fields that are merged can tell the two from one another, when the
document is compiled.
-/

namespace GraphGateway

open SelectionItem (mapHeadsAll variablesRead)

section Constants

variable {name : String} {v : Json} {bindings : Json.Members} (h : bindings.get? name = some v)

include h

theorem Template.evaluate_withConst (template : Template)
    : (template.withConst name v).evaluate bindings = template.evaluate bindings := by
  by_cases hname : template = .variable name
  . subst hname
    have hconst : withConst name v (.variable name) = .const v := if_pos rfl
    rw [hconst, evaluate, evaluate, h, Option.getD_some]
  . rw [withConst_of_ne hname]

theorem ArgumentPlan.evaluate_withConst (argument : ArgumentPlan)
    : (argument.withConst name v).evaluate bindings = argument.evaluate bindings := by
  by_cases hname : argument.template = some (.variable name)
  . have hconst : (argument.withConst name v).template = some (.const v) := by
      unfold withConst
      dsimp only
      rw [hname]
      exact congrArg some (if_pos rfl)
    have hvalue : (argument.withConst name v).value? bindings = argument.value? bindings := by
      unfold value?
      rw [hconst, hname]
      dsimp only
      rw [h, Option.some_or, Template.evaluate]
    unfold evaluate
    rw [hvalue]
    rfl
  . rw [withConst_of_ne hname]

theorem ArgumentPlan.evaluateAll_withConst (arguments : List ArgumentPlan)
    : evaluateAll (arguments.map (withConst name v)) bindings = evaluateAll arguments bindings := by
  unfold evaluateAll
  rw [List.mapM_map]
  refine congrArg (· >>= _) (mapM_congr fun argument _ => ?_)
  rw [Function.comp_apply, evaluate_withConst h]
  rfl

end Constants

namespace Task

variable {name : String} {v : Json} {setting : Setting}

theorem keepsFields_withConst (h : setting.bindings.get? name = some v)
    : KeepsFields setting (mapHeadsAll (FieldPlan.withConst name v))
        (SelectedField.mapHeads (FieldPlan.withConst name v)) where
  admitted := SelectionItem.admittedAll_mapHeadsAll setting.bindings fun _ => rfl
  nil := rfl
  append := SelectionItem.mapHeadsAll_append _
  children := SelectedField.children_mapHeads _
  head := fun field =>
    ⟨_, field.head.conditions, rfl, ArgumentPlan.evaluateAll_withConst h field.head.arguments⟩

theorem ofSelection_withConst (h : setting.bindings.get? name = some v) (levels : Nat)
    (type : String) (items : List SelectionItem) (parent : Json) (path : Path)
    : ofSelection setting levels type (mapHeadsAll (FieldPlan.withConst name v) items) parent path
        = ofSelection setting levels type items parent path :=
  ofSelection_of_keepsFields (keepsFields_withConst h) levels type items parent path

end Task

namespace Plan

theorem answer_withConst {plan other : Plan} {first second : List VariableSpec}
    {spec : VariableSpec} (hspecs : plan.specs = first ++ spec :: second)
    (hnodup : (plan.specs.map (·.name)).Nodup) {v : Json}
    (hother : other = { plan with
      specs := first ++ second
      selection := mapHeadsAll (FieldPlan.withConst spec.name v) plan.selection })
    (hread : ∀ name ∈ variablesRead other.selection, other.Declares name) {provided : Json.Members}
    (hspec : spec.coerce (provided.get? spec.name) = .ok (some v)) (context root : Json)
    : other.answer provided context root = plan.answer provided context root := by
  have hagree := @VariableSpec.agreeBut_coerceAll provided first second spec v hspec
  rw [← hspecs] at hagree
  have hotherSpecs : other.specs = first ++ second := by rw [hother]
  unfold answer
  rw [hotherSpecs]
  generalize hcoerce : VariableSpec.coerceAll plan.specs provided = x at hagree
  generalize VariableSpec.coerceAll (first ++ second) provided = y at hagree
  cases hagree with
  | faults faults => rfl
  | @values bindings others hothers =>
    have hvalues := (VariableSpec.get?_of_coerceAll_go hcoerce hnodup fun _ _ => rfl).1
    have hbound : bindings.get? spec.name = some v := by
      have hmem : spec ∈ plan.specs := hspecs ▸ List.mem_append_right _ List.mem_cons_self
      exact Except.ok.inj ((hvalues spec hmem).symm.trans hspec)
    -- The variable is not declared any more, so that nothing reads it.
    have hunread : ∀ name ∈ variablesRead other.selection, name ≠ spec.name := by
      rintro name hname rfl
      rw [hspecs, List.map_append, List.map_cons, List.nodup_middle, List.nodup_cons,
        ← List.map_append, ← hotherSpecs] at hnodup
      apply hnodup.1
      apply List.count_pos_iff.mp
      rw [hread _ hname]
      exact Nat.one_pos
    have htasks
        : Task.ofPlan other ⟨others, context⟩ root = Task.ofPlan plan ⟨bindings, context⟩ root := by
      rw [← @Task.ofPlan_congr ⟨others, context⟩ ⟨bindings, context⟩ rfl other
        fun name hname => hothers name (hunread name hname), hother]
      unfold Task.ofPlan Plan.depth
      dsimp only
      rw [SelectionItem.depthAll_mapHeadsAll, Task.ofSelection_withConst hbound]
      rfl
    dsimp only
    unfold execute
    rw [htasks]

end Plan

/--
A document and the one with a literal in the place of a variable, in a request that gives the
literal for the variable. Neither of them compiles, or both are refused for the literal, before
anything is run, or they are answered the same.
-/
inductive Document.Alike (schema : Schema) (document : Document) (name : String) (type : TypeRef)
    (l : Literal) (provided : Json.Members) (context root : Json)
    : Prop where
  | uncompiled {errors others : List CompileError}
    (h : Plan.compile schema document = .error errors)
    (hinline : Plan.compile schema (document.withLiteral name l) = .error others)
  | refused {plan : Plan} {errors : List CompileError} {faults : List VariableFault}
    (hcoerce : ∀ v, Coercion.coerceLiteral type l ≠ .ok v)
    (h : Plan.compile schema document = .ok plan)
    (hinline : Plan.compile schema (document.withLiteral name l) = .error errors)
    (hfault : ∃ fault ∈ faults, fault.spec.name = name)
    (hanswer : plan.answer provided context root
      = ⟨.ok (.ofErrors (faults.map .ofVariableFault)), .empty⟩)
  | answered {plan other : Plan} {v : Json} (hcoerce : Coercion.coerceLiteral type l = .ok v)
    (h : Plan.compile schema document = .ok plan)
    (hinline : Plan.compile schema (document.withLiteral name l) = .ok other)
    (hanswer : other.answer provided context root = plan.answer provided context root)

namespace Document.Takes

variable {schema : Schema} {document : Document} {operation : Operation} {name : String}
  {type : TypeRef} {l : Literal}

theorem answer_withLiteral (h : document.Takes schema operation name type) (hl : l.Sendable)
    {v : Json} (hv : Coercion.coerceLiteral type l = .ok v) {plan : Plan}
    (hplan : Plan.compile schema document = .ok plan)
    : ∃ other, Plan.compile schema (document.withLiteral name l) = .ok other
        ∧ ∀ provided : Json.Members, provided.get? name = some l.toJson → ∀ context root,
          other.answer provided context root = plan.answer provided context root := by
  obtain ⟨first, second, position, hspecs, hother⟩ := h.compile_withLiteral hl hv hplan
  obtain ⟨_, _, _, hdeclared, _⟩ := Plan.exists_parts_of_compile hplan
  refine ⟨_, hother, fun provided hprovided context root => ?_⟩
  apply Plan.answer_withConst hspecs hdeclared.nodup rfl
  . exact fun name hname => Plan.declares_of_mem_variablesRead hother hname
  . rw [hprovided, VariableSpec.coerce_some_eq_ok_iff]
    exact ⟨v, rfl, (eq_ok_iff_of_toOption (Coercion.coerceValue_toJson type hl) v).mpr hv⟩

theorem alike (h : document.Takes schema operation name type)
    (hhands : document.Hands schema operation name) (hl : l.Sendable) {plan : Plan}
    (hplan : Plan.compile schema document = .ok plan) {provided : Json.Members}
    (hprovided : provided.get? name = some l.toJson) (context root : Json)
    : document.Alike schema name type l provided context root := by
  by_cases hcoerce : ∃ v, Coercion.coerceLiteral type l = .ok v
  . obtain ⟨v, hv⟩ := hcoerce
    obtain ⟨other, hother, hanswer⟩ := h.answer_withLiteral hl hv hplan
    exact .answered hv hplan hother (hanswer provided hprovided context root)
  . have hcoerce : ∀ v, Coercion.coerceLiteral type l ≠ .ok v := not_exists.mp hcoerce
    obtain ⟨faults, hfaults, hfault⟩ := h.refuses hl hcoerce hplan hprovided
    cases hinline : Plan.compile schema (document.withLiteral name l) with
    | ok other =>
      obtain ⟨v, hv⟩ := h.coerces hhands hl.variableNames hinline
      exact absurd hv (hcoerce v)
    | error errors =>
      refine .refused hcoerce hplan hinline hfault ?_
      unfold Plan.answer
      rw [hfaults]

end Document.Takes

namespace Plan

/--
A literal comes to the same as its JSON does that is sent for a variable. A document that takes
the variable for whole arguments of its type, and hands it to some field, is thus answered alike
with the literal in its place, unless the document alone fails to compile: that is because
fields on which the variable and something else are written for an argument cannot be merged,
and for nothing else.
-/
theorem written_as_sent {l : Literal} (hl : l.Sendable) (type : TypeRef)
    : (Coercion.coerceValue type l.toJson).toOption = (Coercion.coerceLiteral type l).toOption
        ∧ ∀ schema document operation name, document.Takes schema operation name type →
          document.Hands schema operation name →
            (∀ provided : Json.Members, provided.get? name = some l.toJson → ∀ context root,
              document.Alike schema name type l provided context root)
            ∨ ∃ errors other, compile schema document = .error errors
              ∧ compile schema (document.withLiteral name l) = .ok other
              ∧ ∀ e ∈ errors, ∃ key, e.cause = .fieldConflict key .differentArguments := by
  refine ⟨Coercion.coerceValue_toJson type hl, ?_⟩
  intro schema document operation name htakes hhands
  cases hplan : compile schema document with
  | ok plan =>
    left
    exact fun provided hprovided context root => htakes.alike hhands hl hplan hprovided context root
  | error errors =>
    cases hinline : compile schema (document.withLiteral name l) with
    | error others =>
      left
      exact fun provided _ context root => .uncompiled hplan hinline
    | ok other =>
      right
      obtain ⟨v, hv⟩ := htakes.coerces hhands hl.variableNames hinline
      exact ⟨errors, other, rfl, rfl, htakes.conflicts_of_compile_withLiteral hv hinline hplan⟩

end Plan

namespace Numbers

def numbersType : TypeRef :=
  .list (.nonNull (.named "Int"))

def sizeSelection (l : Literal) (position : Position) : Selection :=
  .field ⟨none, "size", [("numbers", l)], [], position⟩ none

def sentOperation (others : List Selection) : Operation :=
  ⟨.query, none, [⟨"n", numbersType, none, [], ⟨1, 8⟩⟩], [],
    ⟨sizeSelection (.variable "n") ⟨1, 22⟩ :: others, ⟨1, 20⟩⟩, ⟨1, 1⟩⟩

def sentDocument (others : List Selection) : Document :=
  ⟨[.operation (sentOperation others)]⟩

def IsSize (selection : Selection) : Prop :=
  ∃ l position, selection = sizeSelection l position ∧ l.variableNames = []

theorem takes_sizeSelection {l : Literal} (h : "n" ∈ l.variableNames → l = .variable "n")
    (position : Position)
    : (sizeSelection l position).Takes queryType "n" numbersType := by
  constructor
  . rintro directive ⟨⟩
  . rintro node set ⟨⟩
    constructor
    . intro argument written hwritten hname
      obtain ⟨_, heq⟩ := List.mem_singleton.mp (Ordered.mem_of_get? hwritten) |> Prod.mk.inj
      subst heq
      exact h hname
    . rintro field ⟨⟩ argument declared hdeclared _
      cases List.mem_singleton.mp hdeclared
      rfl

theorem takes_sentDocument {others : List Selection} (h : ∀ other ∈ others, IsSize other)
    : (sentDocument others).Takes schema (sentOperation others) "n" numbersType := by
  have hleaf : ∀ selection ∈ (sentOperation others).set.items, ∃ l position,
      selection = sizeSelection l position ∧ ("n" ∈ l.variableNames → l = .variable "n") := by
    refine List.forall_mem_cons.mpr ⟨⟨_, _, rfl, fun _ => rfl⟩, fun other hother => ?_⟩
    obtain ⟨l, position, rfl, hnames⟩ := h other hother
    exact ⟨l, position, rfl, fun hname => by rw [hnames] at hname; cases hname⟩
  constructor
  . rfl
  . exact ⟨⟨1, 8⟩, rfl⟩
  . rfl
  . rintro root ⟨⟩ place hplace selection hselection
    obtain rfl | ⟨next, hopens, _⟩ := Relation.ReflTransGen.cases_head hplace
    . obtain ⟨l, position, rfl, hwhole⟩ := hleaf selection hselection
      exact takes_sizeSelection hwhole position
    -- No sub-selection is opened.
    . cases hopens with
      | field hmem =>
        obtain ⟨_, _, heq, _⟩ := hleaf _ hmem
        cases heq
      | spread hmem =>
        obtain ⟨_, _, heq, _⟩ := hleaf _ hmem
        cases heq
      | inline hmem =>
        obtain ⟨_, _, heq, _⟩ := hleaf _ hmem
        cases heq

theorem hands_sentDocument (others : List Selection)
    : (sentDocument others).Hands schema (sentOperation others) "n" :=
  ⟨queryType, _, _, _, _, "numbers", _, rfl, .refl, List.mem_cons_self, by decide, rfl,
    List.mem_singleton_self _, rfl⟩

/-- One number is the list of it, as it is written and as it is sent. -/
theorem written_as_sent_five
    : (Coercion.coerceValue numbersType (.int 5)).toOption = some (.array [.int 5])
        ∧ (Coercion.coerceLiteral numbersType (.int 5)).toOption = some (.array [.int 5])
        ∧ (sentDocument []).Takes schema (sentOperation []) "n" numbersType
        ∧ (sentDocument []).Hands schema (sentOperation []) "n"
        ∧ ∃ plan other, Plan.compile schema (sentDocument []) = .ok plan
          ∧ Plan.compile schema ((sentDocument []).withLiteral "n" (.int 5)) = .ok other
          ∧ other.answer [("n", .int 5)] .null .null = plan.answer [("n", .int 5)] .null .null := by
  obtain ⟨hvalue, hdocuments⟩ := Plan.written_as_sent (.int 5) numbersType
  refine ⟨by cbv, ?_, takes_sentDocument nofun, hands_sentDocument [], ?_⟩
  . rw [← hvalue]
    cbv
  . obtain halike | ⟨_, _, herror, _⟩ :=
      hdocuments schema (sentDocument []) _ "n" (takes_sentDocument nofun) (hands_sentDocument [])
    . obtain herror | ⟨_, _, herror⟩ | ⟨_, hplan, hother, hanswer⟩ :=
        halike [("n", .int 5)] rfl .null .null
      . cases herror
      . cases herror
      . exact ⟨_, _, hplan, hother, hanswer⟩
    . cases herror

def mixedDocument : Document :=
  sentDocument [sizeSelection (.int 5) ⟨1, 40⟩]

/--
With the number in both places the fields are merged and handed it, but not with the
variable in one of them.
-/
theorem not_alike
    : mixedDocument.Takes schema (sentOperation [sizeSelection (.int 5) ⟨1, 40⟩]) "n" numbersType
        ∧ mixedDocument.Hands schema (sentOperation [sizeSelection (.int 5) ⟨1, 40⟩]) "n"
        ∧ Plan.compile schema mixedDocument
          = .error [⟨.fieldConflict "size" .differentArguments, [⟨1, 22⟩, ⟨1, 40⟩]⟩]
        ∧ (∃ plan, Plan.compile schema (mixedDocument.withLiteral "n" (.int 5)) = .ok plan
          ∧ (plan.answer [("n", .int 5)] .null .null).journal.entries.head?
            = some (.invoked ⟨"Query.size", [⟨1, 22⟩, ⟨1, 40⟩], [.key "size"]⟩
              ⟨.null, [("numbers", .array [.int 5])], .null, "Query", "size"⟩))
        ∧ ¬ mixedDocument.Alike schema "n" numbersType (.int 5) [("n", .int 5)] .null .null := by
  have hcompile : Plan.compile schema mixedDocument
      = .error [⟨.fieldConflict "size" .differentArguments, [⟨1, 22⟩, ⟨1, 40⟩]⟩] := by
    cbv
  have hinline : ∃ plan, Plan.compile schema (mixedDocument.withLiteral "n" (.int 5)) = .ok plan
      ∧ (plan.answer [("n", .int 5)] .null .null).journal.entries.head?
        = some (.invoked ⟨"Query.size", [⟨1, 22⟩, ⟨1, 40⟩], [.key "size"]⟩
          ⟨.null, [("numbers", .array [.int 5])], .null, "Query", "size"⟩) := by
    refine ⟨_, rfl, ?_⟩
    cbv
  refine ⟨takes_sentDocument ?_, hands_sentDocument _, hcompile, hinline, ?_⟩
  . rw [List.forall_mem_singleton]
    exact ⟨.int 5, ⟨1, 40⟩, rfl, rfl⟩
  . obtain ⟨plan, hplan, _⟩ := hinline
    rintro (⟨_, hother⟩ | ⟨_, hother, _⟩ | ⟨_, hother, _⟩)
    . cases hplan.symm.trans hother
    . cases hcompile.symm.trans hother
    . cases hcompile.symm.trans hother

end Numbers
end GraphGateway
