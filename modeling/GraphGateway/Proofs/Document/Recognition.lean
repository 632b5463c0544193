import GraphGateway.Proofs.Document.Values

/-!
This module contains the proof that the tokens that are read as a document are exactly those the
grammar derives it from, as far as it is not nested too deep.
-/

namespace GraphGateway
namespace Parser

open Tokens (prepend prepend_append)

theorem run_position (tokens : Tokens) : position.run tokens = .ok (tokens.position, tokens) := rfl

section Selections

variable {levels : Nat} {set : Parser SelectionSet}

abbrev SetWithin (levels : Nat) : List Token → SelectionSet → Prop :=
  Within SelectionSet.Derives SelectionSet.depth levels

abbrev SelectionWithin (levels : Nat) : List Token → Selection → Prop :=
  Within Selection.Derives Selection.depth levels

def AfterSelection (next : Option Token.Kind) : Prop :=
  next = some (.punctuator .braceR) ∨ next = some (.punctuator .spread)
    ∨ ∃ name, next = some (.name name)

theorem AfterSelection.ne {next : Option Token.Kind} (h : AfterSelection next) {p : Punctuator}
    (hp : p ∉ [.braceR, .spread])
    : next ≠ some (.punctuator p) := by
  rintro rfl
  obtain h | h | ⟨name, h⟩ := h
  . cases h
    exact hp (by simp)
  . cases h
    exact hp (by simp)
  . cases h

theorem begins_set : Begins SelectionSet.Derives fun kind => kind = .punctuator .braceL := by
  rintro tokens x ⟨hne, h⟩
  exact ⟨_, _, rfl, rfl⟩

theorem head?_set {tokens : List Token} {set : SelectionSet}
    (hset : SelectionSet.Derives tokens set) (after : Tokens)
    : (prepend tokens after).head? = some (.punctuator .braceL) := by
  obtain ⟨token, rest, rfl, hkind⟩ := begins_set _ _ hset
  rw [Tokens.head?_prepend_cons, hkind]

theorem begins_node : Begins FieldNode.Derives fun kind => ∃ name, kind = .name name := by
  intro tokens x h
  cases h <;> exact ⟨_, _, rfl, _, rfl⟩

theorem fieldName_eq_ok {tokens after : Tokens} {aliasName : Option String} {name : String}
    (h : fieldName.run tokens = .ok ((aliasName, name), after))
    : (∃ start, aliasName = none ∧ tokens = prepend [⟨.name name, start⟩] after)
        ∨ ∃ first start colon next, aliasName = some first
          ∧ tokens = prepend
            [⟨.name first, start⟩, ⟨.punctuator .colon, colon⟩, ⟨.name name, next⟩] after := by
  unfold fieldName at h
  simp only [run_bind_eq_ok_iff] at h
  obtain ⟨first, _, hfirst, renamed, _, hskip, h⟩ := h
  obtain ⟨start, rfl⟩ := expectName_eq_ok hfirst
  obtain ⟨rfl, colon, rfl⟩ | ⟨rfl, rfl⟩ := skip_eq_ok hskip
  . simp only [if_true, run_bind_eq_ok_iff] at h
    obtain ⟨name, _, hname, h⟩ := h
    cases h
    obtain ⟨next, rfl⟩ := expectName_eq_ok hname
    exact .inr ⟨first, start, colon, next, rfl, rfl⟩
  . cases h
    exact .inl ⟨start, rfl, rfl⟩

theorem run_fieldName_plain (name : String) (start : Position) {after : Tokens}
    (h : after.head? ≠ some (.punctuator .colon))
    : fieldName.run (prepend [⟨.name name, start⟩] after) = .ok ((none, name), after) := by
  unfold fieldName
  rw [run_bind (run_expectName _ _ _), run_bind (run_skip_other h)]
  rfl

theorem run_fieldName_aliased (first name : String) (start colon next : Position)
    (after : Tokens)
    : fieldName.run (prepend
        [⟨.name first, start⟩, ⟨.punctuator .colon, colon⟩, ⟨.name name, next⟩] after)
        = .ok ((some first, name), after) := by
  unfold fieldName
  rw [Tokens.prepend_cons, run_bind (run_expectName _ _ _), Tokens.prepend_cons,
    run_bind (run_skip_next _ _ _)]
  rfl

theorem reads_optionalSet (hset : set.Reads (SetWithin levels) (fun _ => True))
    : (optionalSet set).Reads
        (Within (Optionally SelectionSet.Derives) (fun s => greatest SelectionSet.depth s.toList)
          levels)
        (fun next => next ≠ some (.punctuator .braceL)) := by
  constructor
  . intro tokens after x h
    unfold optionalSet at h
    rw [run_bind (run_isNext _ _)] at h
    split at h
    . simp only [run_bind_eq_ok_iff] at h
      obtain ⟨inner, _, hinner, h⟩ := h
      cases h
      obtain ⟨taken, rfl, hderives, hdepth⟩ := hset.sound hinner
      exact ⟨taken, rfl, .present hderives, by simpa [greatest] using hdepth⟩
    . cases h
      exact ⟨[], rfl, .absent, Nat.zero_le _⟩
  . rintro taken x after ⟨hderives, hdepth⟩ hstops
    unfold optionalSet
    rw [run_bind (run_isNext _ _)]
    cases hderives with
    | absent =>
      rw [Tokens.prepend_nil, decide_eq_false hstops]
      rfl
    | present hderives =>
      rw [decide_eq_true (head?_set hderives after), if_pos rfl,
        run_bind (hset.complete after ⟨hderives, by simpa [greatest] using hdepth⟩ trivial)]
      rfl

theorem FieldNode.depth_le_iff (node : FieldNode) (levels : Nat)
    : node.depth ≤ levels
        ↔ Literal.depthNamed node.arguments ≤ levels
          ∧ greatest Directive.depth node.directives ≤ levels := by
  rw [FieldNode.depth, Nat.max_le]

theorem head?_optionalSet {tokens : List Token} {inner : Option SelectionSet} {after : Tokens}
    (hinner : Optionally SelectionSet.Derives tokens inner) {p : Punctuator} (hp : p ≠ .braceL)
    (hstops : after.head? ≠ some (.punctuator p))
    : (prepend tokens after).head? ≠ some (.punctuator p) := by
  apply head?_prepend (Q := fun next => next ≠ some _) _ hstops
  intro token htoken
  simpa [begins_set.head?_optionally hinner token htoken] using hp.symm

theorem head?_directives {tokens : List Token} {ds : List Directive} {after : Tokens}
    (hds : Phrases (Directive.Derives false) tokens ds) {p : Punctuator} (hp : p ≠ .atSign)
    (hstops : after.head? ≠ some (.punctuator p))
    : (prepend tokens after).head? ≠ some (.punctuator p) := by
  apply head?_prepend (Q := fun next => next ≠ some _) _ hstops
  intro token htoken
  simpa [(begins_directive false).head?_phrases hds token htoken] using hp.symm

theorem run_fieldRest (hset : set.Reads (SetWithin levels) (fun _ => True))
    (node : FieldNode) {inner : Option SelectionSet} {first second third : List Token}
    {after : Tokens} (harguments : Parenthesized (Literal.DerivesNamed false) first node.arguments)
    (hdirectives : Phrases (Directive.Derives false) second node.directives)
    (hinner : Optionally SelectionSet.Derives third inner)
    (hdepth : (Selection.field node inner).depth ≤ levels) (hstops : AfterSelection after.head?)
    : (do
        let arguments ← arguments levels false
        let directives ← directives levels false
        return .field ⟨node.aliasName, node.name, arguments, directives, node.position⟩
          (← optionalSet set) : Parser Selection).run
        (prepend first (prepend second (prepend third after)))
        = .ok (.field node inner, after) := by
  rw [Selection.depth_field, Nat.max_le, FieldNode.depth_le_iff] at hdepth
  obtain ⟨⟨hargumentsDepth, hdirectivesDepth⟩, hinnerDepth⟩ := hdepth
  have hthird : ∀ p ∉ [Punctuator.braceR, .spread, .braceL],
      (prepend third after).head? ≠ some (.punctuator p) := by
    intro p hp
    apply head?_optionalSet hinner
    . rintro rfl
      exact hp (by simp)
    . exact hstops.ne (by simp_all)
  have hsecond : (prepend second (prepend third after)).head? ≠ some (.punctuator .parenL) :=
    head?_directives hdirectives (by simp) (hthird _ (by simp))
  rw [run_bind ((reads_arguments levels false).complete _ ⟨harguments, hargumentsDepth⟩ hsecond),
    run_bind ((reads_directives levels false).complete _ ⟨hdirectives, hdirectivesDepth⟩
      ⟨hthird _ (by simp), hthird _ (by simp)⟩),
    run_bind ((reads_optionalSet hset).complete after ⟨hinner, hinnerDepth⟩
      (hstops.ne (by simp)))]
  rfl

theorem field_sound (hset : set.Reads (SetWithin levels) (fun _ => True))
    {tokens after : Tokens} {x : Selection} (h : (field levels set).run tokens = .ok (x, after))
    : ∃ taken, tokens = prepend taken after ∧ SelectionWithin levels taken x := by
  unfold field at h
  simp only [run_bind_eq_ok_iff] at h
  obtain ⟨start, _, hstart, ⟨aliasName, name⟩, _, hrunName, as, _, hrunArguments, ds, _,
    hrunDirectives, inner, _, hrunSet, h⟩ := h
  cases hstart
  cases h
  obtain ⟨first, rfl, harguments, hargumentsDepth⟩ :=
    (reads_arguments levels false).sound hrunArguments
  obtain ⟨second, rfl, hdirectives, hdirectivesDepth⟩ :=
    (reads_directives levels false).sound hrunDirectives
  obtain ⟨third, rfl, hinner, hinnerDepth⟩ := (reads_optionalSet hset).sound hrunSet
  have hdepth : ∀ aliasName start,
      (Selection.field ⟨aliasName, name, as, ds, start⟩ inner).depth ≤ levels := by
    intro aliasName start
    rw [Selection.depth_field, Nat.max_le, FieldNode.depth_le_iff]
    exact ⟨⟨hargumentsDepth, hdirectivesDepth⟩, hinnerDepth⟩
  obtain ⟨start, rfl, rfl⟩ | ⟨first', start, colon, next, rfl, rfl⟩ := fieldName_eq_ok hrunName
  . rw [← prepend_append, ← prepend_append, ← prepend_append]
    exact ⟨_, rfl, .field (.plain harguments hdirectives) hinner, hdepth none start⟩
  . rw [← prepend_append, ← prepend_append, ← prepend_append]
    exact ⟨_, rfl, .field (.aliased harguments hdirectives) hinner, hdepth (some first') start⟩

theorem field_complete (hset : set.Reads (SetWithin levels) (fun _ => True))
    {taken : List Token} {node : FieldNode} {inner : Option SelectionSet} {after : Tokens}
    (h : SelectionWithin levels taken (.field node inner)) (hstops : AfterSelection after.head?)
    : (field levels set).run (prepend taken after) = .ok (.field node inner, after) := by
  obtain ⟨hderives, hdepth⟩ := h
  cases hderives with
  | @field _ _ tokens third hnode hinner =>
    unfold field
    cases hnode with
    | @plain name as ds first second start harguments hdirectives =>
      have hhead : (prepend first (prepend second (prepend third after))).head?
          ≠ some (.punctuator .colon) := by
        apply head?_prepend (Q := fun next => next ≠ some _)
        . intro token htoken
          simp [head?_parenthesized harguments token htoken]
        . exact head?_directives hdirectives (by simp)
            (head?_optionalSet hinner (by simp) (hstops.ne (by simp)))
      rw [prepend_append, prepend_append, prepend_append, run_bind (run_position _),
        run_bind (run_fieldName_plain _ _ hhead)]
      exact run_fieldRest hset ⟨none, name, as, ds, start⟩ harguments hdirectives hinner
        hdepth hstops
    | @aliased aliasName name as ds first second start colon next harguments hdirectives =>
      rw [prepend_append, prepend_append, prepend_append, run_bind (run_position _),
        run_bind (run_fieldName_aliased _ _ _ _ _ _)]
      exact run_fieldRest hset ⟨some aliasName, name, as, ds, start⟩ harguments hdirectives hinner
        hdepth hstops

theorem depth_inline_le_iff {condition : Option String} {directives : List Directive}
    {inner : SelectionSet} {position : Position}
    : (Selection.inline condition directives inner position).depth ≤ levels
        ↔ greatest Directive.depth directives ≤ levels ∧ SelectionSet.depth inner ≤ levels := by
  rw [Selection.depth_inline, Nat.max_le]

theorem fragmentSelection_sound (hset : set.Reads (SetWithin levels) (fun _ => True))
    {tokens after : Tokens} {x : Selection}
    (h : (fragmentSelection levels set).run tokens = .ok (x, after))
    : ∃ taken, tokens = prepend taken after ∧ SelectionWithin levels taken x := by
  have hdirectives := reads_directives levels false
  unfold fragmentSelection at h
  rw [run_bind_eq_ok_iff] at h
  obtain ⟨start, rest, hstart, h⟩ := h
  obtain rfl := expect_eq_ok hstart
  rw [run_peek] at h
  split at h
  . next name hhead =>
    obtain ⟨next, rest, rfl, _, hadvance⟩ := exists_token_of_head? hhead
    rw [run_bind hadvance] at h
    split at h
    . next hon =>
      subst hon
      simp only [run_bind_eq_ok_iff] at h
      obtain ⟨condition, _, hcondition, ds, _, hrunDirectives, inner, _, hrunSet, h⟩ := h
      cases h
      obtain ⟨third, rfl⟩ := expectName_eq_ok hcondition
      obtain ⟨first, rfl, hds, hdsDepth⟩ := hdirectives.sound hrunDirectives
      obtain ⟨second, rfl, hinner, hinnerDepth⟩ := hset.sound hrunSet
      rw [← prepend_append first]
      exact ⟨_, rfl, .inlineOn hds hinner, depth_inline_le_iff.mpr ⟨hdsDepth, hinnerDepth⟩⟩
    . next hon =>
      simp only [run_bind_eq_ok_iff] at h
      obtain ⟨ds, _, hds, h⟩ := h
      cases h
      obtain ⟨taken, rfl, hds, hdsDepth⟩ := hdirectives.sound hds
      exact ⟨_, rfl, .spread hon hds, hdsDepth⟩
  . simp only [run_bind_eq_ok_iff] at h
    obtain ⟨ds, _, hrunDirectives, inner, _, hrunSet, h⟩ := h
    cases h
    obtain ⟨first, rfl, hds, hdsDepth⟩ := hdirectives.sound hrunDirectives
    obtain ⟨second, rfl, hinner, hinnerDepth⟩ := hset.sound hrunSet
    rw [← prepend_append first]
    exact ⟨_, rfl, .inline hds hinner, depth_inline_le_iff.mpr ⟨hdsDepth, hinnerDepth⟩⟩

theorem run_directives_set (hset : set.Reads (SetWithin levels) (fun _ => True))
    {ds : List Directive} {inner : SelectionSet} {first second : List Token}
    (hds : DirectivesWithin false levels first ds) (hinner : SetWithin levels second inner)
    (after : Tokens) (build : List Directive → SelectionSet → Selection)
    : (do
        let directives ← directives levels false
        return build directives (← set) : Parser Selection).run
        (prepend first (prepend second after)) = .ok (build ds inner, after) := by
  have hhead := head?_set hinner.1 after
  rw [run_bind ((reads_directives levels false).complete _ hds (by simp [hhead])),
    run_bind (hset.complete after hinner trivial)]
  rfl

theorem run_fragmentSelection_on (condition : String) (start next third : Position)
    (tokens : List Token) (after : Tokens)
    : (fragmentSelection levels set).run
        (prepend (⟨.punctuator .spread, start⟩ :: ⟨.name "on", next⟩ :: ⟨.name condition, third⟩
          :: tokens) after)
        = (do
            let directives ← directives levels false
            return .inline (some condition) directives (← set) start : Parser Selection).run
            (prepend tokens after) := rfl

theorem run_fragmentSelection_none (start : Position) {tokens : Tokens}
    (h : ∀ name, tokens.head? ≠ some (.name name))
    : (fragmentSelection levels set).run (prepend [⟨.punctuator .spread, start⟩] tokens)
        = (do
            let directives ← directives levels false
            return .inline none directives (← set) start : Parser Selection).run tokens := by
  unfold fragmentSelection
  rw [run_bind (run_expect _ _ _), run_peek]
  split
  . next name hhead => exact absurd hhead (h name)
  . rfl

theorem run_fragmentSelection_spread {fragment : String} (hfragment : fragment ≠ "on")
    (start next : Position) (tokens : List Token) (after : Tokens)
    : (fragmentSelection levels set).run
        (prepend (⟨.punctuator .spread, start⟩ :: ⟨.name fragment, next⟩ :: tokens) after)
        = (do return .spread fragment (← directives levels false) start : Parser Selection).run
            (prepend tokens after) := by
  unfold fragmentSelection
  rw [Tokens.prepend_cons, run_bind (run_expect _ _ _), run_peek, Tokens.head?_prepend_cons]
  simp only [hfragment, if_false]
  rfl

theorem fragmentSelection_complete (hset : set.Reads (SetWithin levels) (fun _ => True))
    {taken : List Token} {x : Selection} {after : Tokens} (h : SelectionWithin levels taken x)
    (hfield : ∀ node inner, x ≠ .field node inner) (hstops : AfterSelection after.head?)
    : (fragmentSelection levels set).run (prepend taken after) = .ok (x, after) := by
  obtain ⟨hderives, hdepth⟩ := h
  cases hderives with
  | field => exact absurd rfl (hfield _ _)
  | spread hfragment hds =>
    rw [run_fragmentSelection_spread hfragment,
      run_bind ((reads_directives levels false).complete after ⟨hds, hdepth⟩
        ⟨hstops.ne (by simp), hstops.ne (by simp)⟩)]
    rfl
  | @inline ds inner first second start hds hinner =>
    obtain ⟨hdsDepth, hinnerDepth⟩ := depth_inline_le_iff.mp hdepth
    rw [Tokens.prepend_cons, prepend_append, run_fragmentSelection_none]
    . exact run_directives_set hset ⟨hds, hdsDepth⟩ ⟨hinner, hinnerDepth⟩ after _
    . intro name
      apply head?_prepend (Q := fun next => next ≠ some _)
      . intro token htoken
        simp [(begins_directive false).head?_phrases hds token htoken]
      . simp [head?_set hinner after]
  | @inlineOn condition ds inner first second start next third hds hinner =>
    obtain ⟨hdsDepth, hinnerDepth⟩ := depth_inline_le_iff.mp hdepth
    rw [run_fragmentSelection_on, prepend_append]
    exact run_directives_set hset ⟨hds, hdsDepth⟩ ⟨hinner, hinnerDepth⟩ after _

theorem begins_field_or_fragment {tokens : List Token} {x : Selection} (h : x.Derives tokens)
    : (∃ node inner, x = .field node inner)
          ∧ (∃ token rest name, tokens = token :: rest ∧ token.kind = .name name)
        ∨ (∀ node inner, x ≠ .field node inner)
          ∧ (∃ token rest, tokens = token :: rest ∧ token.kind = .punctuator .spread) := by
  cases h with
  | field hnode hset =>
    obtain ⟨token, rest, rfl, name, hkind⟩ := begins_node _ _ hnode
    exact .inl ⟨⟨_, _, rfl⟩, token, _, name, rfl, hkind⟩
  | spread => exact .inr ⟨by simp, _, _, rfl, rfl⟩
  | inline => exact .inr ⟨by simp, _, _, rfl, rfl⟩
  | inlineOn => exact .inr ⟨by simp, _, _, rfl, rfl⟩

theorem begins_selection
    : Begins Selection.Derives
        fun kind => kind ≠ .punctuator .braceR ∧ AfterSelection (some kind) := by
  intro tokens x h
  obtain ⟨_, token, rest, name, rfl, hkind⟩ | ⟨_, token, rest, rfl, hkind⟩ :=
    begins_field_or_fragment h
  . exact ⟨token, rest, rfl, by simp [hkind], .inr (.inr ⟨name, congrArg some hkind⟩)⟩
  . exact ⟨token, rest, rfl, by simp [hkind], .inr (.inl (congrArg some hkind))⟩

theorem reads_selection (hset : set.Reads (SetWithin levels) (fun _ => True))
    : (selection levels set).Reads (SelectionWithin levels) AfterSelection := by
  constructor
  . intro tokens after x h
    unfold selection at h
    rw [run_bind (run_isNext _ _)] at h
    split at h
    . exact fragmentSelection_sound hset h
    . exact field_sound hset h
  . intro taken x after hx hstops
    unfold selection
    rw [run_bind (run_isNext _ _)]
    obtain ⟨⟨node, inner, rfl⟩, token, rest, name, rfl, hkind⟩
        | ⟨hfield, token, rest, rfl, hkind⟩ :=
      begins_field_or_fragment hx.1
    . rw [Tokens.head?_prepend_cons, hkind, decide_eq_false (by simp)]
      exact field_complete hset hx hstops
    . rw [Tokens.head?_prepend_cons, hkind, decide_eq_true rfl]
      exact fragmentSelection_complete hset hx hfield hstops

theorem reads_selectionSet (levels : Nat)
    : (selectionSet levels).Reads (SetWithin levels) (fun _ => True) := by
  induction levels with
  | zero =>
    constructor
    . intro tokens after x h
      cases h
    . rintro taken x after ⟨_, hdepth⟩
      cases hdepth
  | succ levels ih =>
    -- The sets inside have one level less.
    have hitems : (someUntil .braceR (selection levels (selectionSet levels))).Reads
        (fun tokens xs => xs ≠ [] ∧ Closed (SelectionWithin levels) .braceR tokens xs)
        (fun _ => True) :=
      reads_someUntil (reads_selection ih) (begins_selection.within _ _) (.inl rfl)
    constructor
    . intro tokens after x h
      unfold selectionSet at h
      simp only [run_bind_eq_ok_iff] at h
      obtain ⟨start, _, hstart, items, _, hrunItems, h⟩ := h
      cases h
      obtain rfl := expect_eq_ok hstart
      obtain ⟨taken, rfl, hne, ⟨hclosed⟩⟩ := hitems.sound hrunItems
      obtain ⟨hphrases, hdepth⟩ := phrases_within_iff.mp hclosed
      refine ⟨_, rfl, .mk hne hphrases, ?_⟩
      rw [SelectionSet.depth_eq_greatest]
      exact Nat.succ_le_succ hdepth
    . rintro taken x after ⟨hderives, hdepth⟩ _
      rw [SelectionSet.depth_eq_greatest] at hdepth
      obtain ⟨hne, hphrases⟩ := hderives
      have hclosed := phrases_within_iff.mpr ⟨hphrases, Nat.le_of_succ_le_succ hdepth⟩
      unfold selectionSet
      rw [Tokens.prepend_cons, run_bind (run_expect _ _ _),
        run_bind (hitems.complete after ⟨hne, .mk hclosed⟩ trivial)]
      rfl

end Selections

section Definitions

theorem run_expectKeyword (word : String) (start : Position) (after : Tokens)
    : (expectKeyword word).run (prepend [⟨.name word, start⟩] after) = .ok (start, after) := by
  unfold expectKeyword
  rw [run_peek, Tokens.head?_prepend_cons, if_pos rfl]
  rfl

theorem expectKeyword_eq_ok {word : String} {tokens after : Tokens} {start : Position}
    (h : (expectKeyword word).run tokens = .ok (start, after))
    : tokens = prepend [⟨.name word, start⟩] after := by
  unfold expectKeyword at h
  rw [run_peek] at h
  split at h
  . next hhead =>
    obtain ⟨position, rest, rfl, _⟩ := exists_token_of_head? hhead
    cases h
    rfl
  . cases h

theorem Operation.depth_le_iff (op : Operation) (levels : Nat)
    : op.depth ≤ levels
        ↔ greatest VariableDefinition.depth op.variableDefinitions ≤ levels
          ∧ greatest Directive.depth op.directives ≤ levels
          ∧ SelectionSet.depth op.set ≤ levels := by
  rw [Operation.depth, Nat.max_le, Nat.max_le]

theorem operationKind_name (kind : OperationKind) : operationKind kind.name = kind := by
  cases kind <;> rfl

theorem reads_optionalName
    : optionalName.Reads (Optionally IsName) (fun next => ∀ name, next ≠ some (.name name)) := by
  constructor
  . intro tokens after x h
    unfold optionalName at h
    rw [run_peek] at h
    split at h
    . next hhead =>
      obtain ⟨position, rest, rfl, _, hadvance⟩ := exists_token_of_head? hhead
      rw [run_bind hadvance] at h
      cases h
      exact ⟨_, rfl, .present .mk⟩
    . cases h
      exact ⟨[], rfl, .absent⟩
  . intro taken x after hderives hstops
    unfold optionalName
    rw [run_peek]
    cases hderives with
    | absent =>
      rw [Tokens.prepend_nil]
      split
      . next name hhead => exact absurd hhead (hstops name)
      . rfl
    | present hname =>
      obtain ⟨⟩ := hname
      rfl

theorem operation_sound {kind : OperationKind} {start : Position} {rest after : Tokens}
    {op : Operation}
    (h : operation.run (prepend [⟨.name kind.name, start⟩] rest) = .ok (op, after))
    : ∃ taken, rest = prepend taken after
        ∧ Within Operation.Derives Operation.depth maxDepth (⟨.name kind.name, start⟩ :: taken)
          op := by
  unfold operation at h
  rw [run_bind (run_position _), run_bind (run_expectName _ _ _)] at h
  simp only [run_bind_eq_ok_iff] at h
  obtain ⟨name, _, hrunName, vs, _, hrunDefinitions, ds, _, hrunDirectives, set, _, hrunSet, h⟩ := h
  cases h
  obtain ⟨first, rfl, hname⟩ := reads_optionalName.sound hrunName
  obtain ⟨second, rfl, hvs, hvsDepth⟩ := reads_variableDefinitions.sound hrunDefinitions
  obtain ⟨third, rfl, hds, hdsDepth⟩ := (reads_directives maxDepth false).sound hrunDirectives
  obtain ⟨fourth, rfl, hset, hsetDepth⟩ := (reads_selectionSet maxDepth).sound hrunSet
  rw [operationKind_name, ← prepend_append, ← prepend_append, ← prepend_append]
  exact ⟨_, rfl, .full hname hvs hds hset,
    (Operation.depth_le_iff _ _).mpr ⟨hvsDepth, hdsDepth, hsetDepth⟩⟩

theorem fragment_sound {start : Position} {rest after : Tokens} {f : Fragment}
    (h : fragment.run (prepend [⟨.name "fragment", start⟩] rest) = .ok (f, after))
    : ∃ taken, rest = prepend taken after
        ∧ Within Fragment.Derives Fragment.depth maxDepth (⟨.name "fragment", start⟩ :: taken)
          f := by
  unfold fragment at h
  rw [run_bind (run_expectKeyword _ _ _), run_bind (run_position _)] at h
  rw [run_bind_eq_ok_iff] at h
  obtain ⟨name, _, hname, h⟩ := h
  obtain ⟨next, rfl⟩ := expectName_eq_ok hname
  split at h
  . cases h
  . next hon =>
    simp only [run_bind_eq_ok_iff] at h
    obtain ⟨_, _, hkeyword, condition, _, hcondition, ds, _, hrunDirectives, set, _, hrunSet, h⟩ :=
      h
    cases h
    obtain rfl := expectKeyword_eq_ok hkeyword
    obtain ⟨fourth, rfl⟩ := expectName_eq_ok hcondition
    obtain ⟨first, rfl, hds, hdsDepth⟩ := (reads_directives maxDepth false).sound hrunDirectives
    obtain ⟨second, rfl, hset, hsetDepth⟩ := (reads_selectionSet maxDepth).sound hrunSet
    rw [← prepend_append first]
    exact ⟨_, rfl, .mk hon hds hset, Nat.max_le.mpr ⟨hdsDepth, hsetDepth⟩⟩

theorem exists_kind_of_keyword {keyword : String}
    (h : (keyword = "query" || keyword = "mutation" || keyword = "subscription") = true)
    : ∃ kind : OperationKind, keyword = kind.name := by
  simp only [Bool.or_eq_true, decide_eq_true_eq] at h
  obtain (rfl | rfl) | rfl := h
  . exact ⟨.query, rfl⟩
  . exact ⟨.mutation, rfl⟩
  . exact ⟨.subscription, rfl⟩

theorem definition_sound {tokens after : Tokens} {x : Definition}
    (h : definition.run tokens = .ok (x, after))
    : ∃ taken, tokens = prepend taken after
        ∧ Within Definition.Derives Definition.depth maxDepth taken x := by
  unfold definition at h
  rw [run_peek] at h
  split at h
  . simp only [run_bind_eq_ok_iff] at h
    obtain ⟨start, _, hstart, set, _, hrunSet, h⟩ := h
    cases hstart
    cases h
    obtain ⟨taken, rfl, hset, hdepth⟩ := (reads_selectionSet maxDepth).sound hrunSet
    have hposition : (prepend taken after).position = set.position := by
      obtain ⟨⟩ := hset
      rfl
    rw [hposition]
    exact ⟨_, rfl, .operation (.shorthand hset), (Operation.depth_le_iff _ _).mpr
      ⟨Nat.zero_le _, Nat.zero_le _, hdepth⟩⟩
  . next keyword hhead =>
    obtain ⟨start, rest, rfl, _⟩ := exists_token_of_head? hhead
    split at h
    . next hkeyword =>
      obtain ⟨kind, rfl⟩ := exists_kind_of_keyword hkeyword
      simp only [run_bind_eq_ok_iff] at h
      obtain ⟨op, _, hop, h⟩ := h
      cases h
      obtain ⟨taken, rfl, hderives, hdepth⟩ := operation_sound hop
      exact ⟨_, rfl, .operation hderives, hdepth⟩
    . split at h
      . next hkeyword =>
        subst hkeyword
        simp only [run_bind_eq_ok_iff] at h
        obtain ⟨f, _, hf, h⟩ := h
        cases h
        obtain ⟨taken, rfl, hderives, hdepth⟩ := fragment_sound hf
        exact ⟨_, rfl, .fragment hderives, hdepth⟩
      . cases h
  . cases h

theorem head?_directives_set {first second : List Token} {ds : List Directive}
    {set : SelectionSet} (hds : Phrases (Directive.Derives false) first ds)
    (hset : SelectionSet.Derives second set) (after : Tokens)
    : (prepend first (prepend second after)).head? = some (.punctuator .atSign)
        ∨ (prepend first (prepend second after)).head? = some (.punctuator .braceL) := by
  apply head?_prepend (Q := fun next => next = some _ ∨ next = some _)
  . intro token htoken
    exact .inl (congrArg some ((begins_directive false).head?_phrases hds token htoken))
  . obtain ⟨token, rest, rfl, hkind⟩ := begins_set _ _ hset
    exact .inr (congrArg some hkind)

theorem head?_definitions_directives_set {first second third : List Token}
    {vs : List VariableDefinition} {ds : List Directive} {set : SelectionSet}
    (hvs : Parenthesized VariableDefinition.Derives first vs)
    (hds : Phrases (Directive.Derives false) second ds) (hset : SelectionSet.Derives third set)
    (after : Tokens)
    : (∀ name, (prepend first (prepend second (prepend third after))).head? ≠ some (.name name))
        ∧ (prepend second (prepend third after)).head? ≠ some (.punctuator .parenL)
        ∧ (prepend third after).head? = some (.punctuator .braceL) := by
  have hsecond := head?_directives_set hds hset after
  refine ⟨fun name => ?_, ?_, head?_set hset after⟩
  . apply head?_prepend (Q := fun next => next ≠ some _)
    . intro token htoken
      simp [head?_parenthesized hvs token htoken]
    . obtain h | h := hsecond <;> simp [h]
  . obtain h | h := hsecond <;> simp [h]

theorem run_definition_set (start : Position) (tokens : List Token) (after : Tokens)
    : definition.run (prepend (⟨.punctuator .braceL, start⟩ :: tokens) after)
        = (do return .operation ⟨.query, none, [], [], ← selectionSet maxDepth, start⟩
            : Parser Definition).run
            (prepend (⟨.punctuator .braceL, start⟩ :: tokens) after) := rfl

theorem run_definition_operation (kind : OperationKind) (start : Position)
    (tokens : List Token) (after : Tokens)
    : definition.run (prepend (⟨.name kind.name, start⟩ :: tokens) after)
        = (do return .operation (← operation) : Parser Definition).run
            (prepend (⟨.name kind.name, start⟩ :: tokens) after) := by
  cases kind <;> rfl

theorem run_definition_fragment (start : Position) (tokens : List Token) (after : Tokens)
    : definition.run (prepend (⟨.name "fragment", start⟩ :: tokens) after)
        = (do return .fragment (← fragment) : Parser Definition).run
            (prepend (⟨.name "fragment", start⟩ :: tokens) after) := rfl

theorem operation_complete {kind : OperationKind} {start : Position}
    {name : Option String} {vs : List VariableDefinition} {ds : List Directive}
    {set : SelectionSet} {first second third fourth : List Token} (after : Tokens)
    (hname : Optionally IsName first name)
    (hvs : Parenthesized VariableDefinition.Derives second vs)
    (hds : Phrases (Directive.Derives false) third ds) (hset : SelectionSet.Derives fourth set)
    (hdepth : (Operation.mk kind name vs ds set start).depth ≤ maxDepth)
    : operation.run
        (prepend (⟨.name kind.name, start⟩ :: (first ++ second ++ third ++ fourth)) after)
        = .ok (⟨kind, name, vs, ds, set, start⟩, after) := by
  obtain ⟨hvsDepth, hdsDepth, hsetDepth⟩ := (Operation.depth_le_iff _ _).mp hdepth
  obtain ⟨hsecond, hparen, hfourth⟩ := head?_definitions_directives_set hvs hds hset after
  unfold operation
  rw [Tokens.prepend_cons, prepend_append, prepend_append, prepend_append,
    run_bind (run_position _), run_bind (run_expectName _ _ _),
    run_bind (reads_optionalName.complete _ hname hsecond),
    run_bind (reads_variableDefinitions.complete _ ⟨hvs, hvsDepth⟩ hparen),
    run_bind ((reads_directives maxDepth false).complete _ ⟨hds, hdsDepth⟩ (by simp [hfourth])),
    run_bind ((reads_selectionSet maxDepth).complete after ⟨hset, hsetDepth⟩ trivial),
    operationKind_name]
  rfl

theorem fragment_complete {name condition : String} {ds : List Directive} {set : SelectionSet}
    {first second : List Token} {start next third fourth : Position} (after : Tokens)
    (hname : name ≠ "on") (hds : DirectivesWithin false maxDepth first ds)
    (hset : SetWithin maxDepth second set)
    : fragment.run (prepend (⟨.name "fragment", start⟩ :: ⟨.name name, next⟩ :: ⟨.name "on", third⟩
        :: ⟨.name condition, fourth⟩ :: (first ++ second)) after)
        = .ok (⟨name, condition, ds, set, start⟩, after) := by
  have hhead := head?_set hset.1 after
  unfold fragment
  rw [Tokens.prepend_cons, run_bind (run_expectKeyword _ _ _), run_bind (run_position _),
    Tokens.prepend_cons, run_bind (run_expectName _ _ _), if_neg hname, Tokens.prepend_cons,
    run_bind (run_expectKeyword _ _ _), Tokens.prepend_cons, run_bind (run_expectName _ _ _),
    prepend_append,
    run_bind ((reads_directives maxDepth false).complete _ hds (by simp [hhead])),
    run_bind ((reads_selectionSet maxDepth).complete after hset trivial)]
  rfl

theorem definition_complete {taken : List Token} {x : Definition} (after : Tokens)
    (h : Within Definition.Derives Definition.depth maxDepth taken x)
    : definition.run (prepend taken after) = .ok (x, after) := by
  obtain ⟨hop | hf, hdepth⟩ := h
  . cases hop with
    | shorthand hset =>
      obtain ⟨_, _, hsetDepth⟩ := (Operation.depth_le_iff _ _).mp hdepth
      have hrun := (reads_selectionSet maxDepth).complete after ⟨hset, hsetDepth⟩ trivial
      obtain ⟨⟩ := hset
      rw [run_definition_set, run_bind hrun]
      rfl
    | full hname hvs hds hset =>
      rw [run_definition_operation,
        run_bind (operation_complete after hname hvs hds hset hdepth)]
      rfl
  . obtain ⟨hname, hds, hset⟩ := hf
    obtain ⟨hdsDepth, hsetDepth⟩ := Nat.max_le.mp hdepth
    rw [run_definition_fragment,
      run_bind (fragment_complete after hname ⟨hds, hdsDepth⟩ ⟨hset, hsetDepth⟩)]
    rfl

theorem begins_definition : Begins Definition.Derives fun _ => True := by
  rintro tokens x (⟨⟨h⟩ | _⟩ | ⟨⟨_⟩⟩)
  . obtain ⟨token, rest, rfl, _⟩ := begins_set _ _ h
    exact ⟨token, rest, rfl, trivial⟩
  . exact ⟨_, _, rfl, trivial⟩
  . exact ⟨_, _, rfl, trivial⟩

theorem rest_eq_nil_of_head?_isNone {tokens : Tokens} (h : tokens.head?.isNone = true)
    : tokens.rest = [] := by
  simpa [Tokens.head?] using h

theorem definitions_go_sound {rounds : List Token} {tokens after : Tokens}
    {xs : List Definition} (h : (definitions.go rounds).run tokens = .ok (xs, after))
    : xs ≠ [] ∧ Phrases (Within Definition.Derives Definition.depth maxDepth) tokens.rest xs := by
  unfold definitions.go at h
  rw [run_bind_eq_ok_iff] at h
  obtain ⟨first, middle, hfirst, h⟩ := h
  obtain ⟨taken, rfl, hx⟩ := definition_sound hfirst
  rw [run_peek] at h
  split at h
  . next hend =>
    cases h
    refine ⟨List.cons_ne_nil _ _, ?_⟩
    rw [Tokens.prepend, rest_eq_nil_of_head?_isNone hend]
    exact .cons hx .nil
  . cases rounds with
    | nil => cases h
    | cons token left =>
      simp only [run_bind_eq_ok_iff] at h
      obtain ⟨others, _, hothers, h⟩ := h
      cases h
      exact ⟨List.cons_ne_nil _ _, .cons hx (definitions_go_sound hothers).2⟩
termination_by rounds.length

theorem definitions_go_complete {rounds taken : List Token} {x : Definition}
    {xs : List Definition}
    (h : Phrases (Within Definition.Derives Definition.depth maxDepth) taken (x :: xs))
    (hlength : xs.length ≤ rounds.length) (stop : Position)
    : (definitions.go rounds).run ⟨taken, stop⟩ = .ok (x :: xs, ⟨[], stop⟩) := by
  induction xs generalizing taken x rounds with
  | nil =>
    obtain - | ⟨hfirst, - | -⟩ := h
    have hrun : definition.run ⟨_ ++ [], stop⟩ = .ok (x, ⟨[], stop⟩) :=
      definition_complete ⟨[], stop⟩ hfirst
    unfold definitions.go
    rw [run_bind hrun, run_peek]
    rfl
  | cons y ys ih =>
    cases h with
    | @cons first rest _ _ hfirst hrest =>
      cases rounds with
      | nil => cases hlength
      | cons token rounds =>
        have hrun : definition.run ⟨first ++ rest, stop⟩ = .ok (x, ⟨rest, stop⟩) :=
          definition_complete ⟨rest, stop⟩ hfirst
        have hmore : (Tokens.mk rest stop).head?.isNone = false := by
          obtain - | ⟨hsecond, _⟩ := hrest
          obtain ⟨token, tokens, rfl, _⟩ := begins_definition _ _ hsecond.1
          rfl
        unfold definitions.go
        rw [run_bind hrun, run_peek, hmore]
        simp only [Bool.false_eq_true, if_false]
        rw [run_bind (ih hrest (Nat.le_of_succ_le_succ hlength))]
        rfl

end Definitions

end Parser

/-- The tokens that are read as a document are exactly those the grammar derives it from. -/
theorem Document.ofTokens_eq_ok_iff (tokens : Tokens) (document : Document)
    : ofTokens tokens = .ok document
        ↔ document.Derives tokens.rest ∧ document.depth ≤ 128 := by
  constructor
  . intro h
    obtain ⟨⟨definitions, after⟩, hrun, h⟩ := bind_eq_ok h
    cases h
    obtain ⟨hne, hphrases⟩ := Parser.definitions_go_sound hrun
    obtain ⟨hphrases, hdepth⟩ := Parser.phrases_within_iff.mp hphrases
    exact ⟨⟨hne, hphrases⟩, hdepth⟩
  . rintro ⟨⟨hne, hphrases⟩, hdepth⟩
    obtain ⟨definitions⟩ := document
    obtain ⟨x, xs, rfl⟩ := List.exists_cons_of_ne_nil hne
    have hlength := Parser.begins_definition.length_le hphrases
    have hwithin := Parser.phrases_within_iff.mpr ⟨hphrases, hdepth⟩
    have hrun : Parser.definitions.run tokens = .ok (x :: xs, ⟨[], tokens.stop⟩) :=
      Parser.definitions_go_complete hwithin (Nat.le_trans (Nat.le_succ _) hlength) tokens.stop
    unfold ofTokens
    rw [hrun]
    rfl

end GraphGateway
