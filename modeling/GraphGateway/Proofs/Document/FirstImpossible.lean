import GraphGateway.Proofs.Document.Continuations
import Mathlib

/-!
This module contains the proof that a text which is not a document for one of its tokens is refused
at the first token with which no document goes on.

What the grammar derives is refused for its depth at most, and a refusal for a token depends on the
tokens up to it only.
-/

namespace GraphGateway
namespace Parser

open Tokens (prepend prepend_append)

variable {α β : Type}

/-- The parser reads `x`, unless it refuses it for something else than a token. -/
def Allows (p : Parser α) (tokens : Tokens) (x : α) (after : Tokens) : Prop :=
  p.run tokens = .ok (x, after) ∨ ∃ e, p.run tokens = .error e ∧ e.cause.code ≠ .unexpectedToken

theorem Allows.bind {p : Parser α} {f : α → Parser β} {tokens middle after : Tokens} {x : α} {y : β}
    (hp : p.Allows tokens x middle) (hf : (f x).Allows middle y after)
    : (p >>= f).Allows tokens y after := by
  obtain hp | ⟨e, hp, hcode⟩ := hp
  . obtain hf | ⟨e, hf, hcode⟩ := hf
    . exact .inl (by rw [run_bind hp, hf])
    . exact .inr ⟨e, by rw [run_bind hp, hf], hcode⟩
  . exact .inr ⟨e, run_bind_error hp, hcode⟩

theorem Allows.take {p : Parser α} {f : α → Parser β} {token : Token} {taken : List Token}
    {rest after : Tokens} {x : α} {y : β} (hf : (f x).Allows (prepend taken rest) y after)
    (hrun : ∀ rest, p.run (prepend [token] rest) = .ok (x, rest))
    : (p >>= f).Allows (prepend (token :: taken) rest) y after := by
  have hp : p.Allows (prepend [token] (prepend taken rest)) x (prepend taken rest) := .inl (hrun _)
  exact hp.bind hf

theorem Allows.of_run_eq {p q : Parser α} {tokens others after : Tokens} {x : α}
    (h : q.Allows others x after) (hrun : p.run tokens = q.run others)
    : p.Allows tokens x after := by
  unfold Allows at *
  rwa [hrun]

theorem Predicts.allows {p q : Parser α} {Phrase : List Token → α → Prop} (h : Predicts p q Phrase)
    {tokens after : Tokens} {x : α} (hrun : q.run tokens = .ok (x, after))
    : p.Allows tokens x after := by
  cases hp : p.run tokens with
  | ok result =>
    obtain ⟨taken, rfl, hsame⟩ := (h.decides tokens).ok hp
    cases hrun.symm.trans (hsame (.refl _))
    exact .inl hp
  | error e =>
    refine .inr ⟨e, hp, fun hcode => ?_⟩
    obtain ⟨taken, after, rfl, _, _, _, hsame⟩ := (h.decides tokens).error hp hcode
    cases hrun.symm.trans (hsame (.refl _))

theorem allows_of_reads {p : Nat → Parser α} {Phrase : List Token → α → Prop} {depth : α → Nat}
    {Stops : Option Token.Kind → Prop} {levels : Nat}
    (hpredicts : ∀ {more}, levels ≤ more → Predicts (p levels) (p more) Phrase)
    (hreads : ∀ levels, (p levels).Reads (Within Phrase depth levels) Stops)
    {taken : List Token} {x : α} (hx : Phrase taken x) {after : Tokens} (hstops : Stops after.head?)
    : (p levels).Allows (prepend taken after) x after :=
  (hpredicts (Nat.le_max_left levels (depth x))).allows
    ((hreads _).complete after ⟨hx, Nat.le_max_right _ _⟩ hstops)

section Loops

variable {item : Parser α} {Phrase : List Token → α → Prop} {Stops : Option Token.Kind → Prop}
  {close : Punctuator}

theorem allows_someUntil (htakes : item.Takes)
    (hitem : ∀ {taken x} after, Phrase taken x → Stops after.head? →
      item.Allows (prepend taken after) x after)
    (hbegins : Begins Phrase fun kind => kind ≠ .punctuator close ∧ Stops (some kind))
    (hclose : Stops (some (.punctuator close))) {tokens : List Token} {x : α} {xs : List α}
    (hxs : Phrases Phrase tokens (x :: xs)) (stop : Position) (after : Tokens)
    : (someUntil close item).Allows (prepend tokens (prepend [⟨.punctuator close, stop⟩] after))
        (x :: xs) after := by
  refine Allows.of_run_eq ?_ (run_someUntil htakes _)
  induction xs generalizing tokens x with
  | nil =>
    obtain - | ⟨hfirst, - | -⟩ := hxs
    rw [List.append_nil]
    refine (hitem (prepend [⟨.punctuator close, stop⟩] after) hfirst hclose).bind ?_
    exact .bind (.inl (run_skip_next _ _ _)) (.inl rfl)
  | cons y ys ih =>
    cases hxs with
    | @cons first rest _ _ hfirst hrest =>
      have hnext : ∃ kind,
          (prepend rest (prepend [⟨.punctuator close, stop⟩] after)).head? = some kind
            ∧ kind ≠ .punctuator close ∧ Stops (some kind) := by
        obtain - | ⟨hsecond, _⟩ := hrest
        obtain ⟨token, others, rfl, hkind⟩ := hbegins _ _ hsecond
        exact ⟨token.kind, rfl, hkind⟩
      obtain ⟨kind, hhead, hne, hstops⟩ := hnext
      rw [prepend_append]
      refine (hitem _ hfirst (hhead ▸ hstops)).bind ?_
      refine .bind (.inl (run_skip_other (by simpa [hhead] using hne))) ?_
      exact (Allows.of_run_eq (ih hrest) (run_someUntil htakes _)).bind (.inl rfl)

theorem allows_parenthesized (Stops : Option Token.Kind → Prop) (htakes : item.Takes)
    (hitem : ∀ {taken x} after, Phrase taken x → Stops after.head? →
      item.Allows (prepend taken after) x after)
    (hbegins : Begins Phrase fun kind => kind ≠ .punctuator .parenR ∧ Stops (some kind))
    (hclose : Stops (some (.punctuator .parenR))) {taken : List Token} {xs : List α}
    {after : Tokens}
    (hxs : Parenthesized Phrase taken xs) (hstops : after.head? ≠ some (.punctuator .parenL))
    : (do if ← skip .parenL then someUntil .parenR item else return [] : Parser (List α)).Allows
        (prepend taken after) xs after := by
  cases hxs with
  | absent => exact .bind (.inl (run_skip_other hstops)) (.inl rfl)
  | present hne hxs =>
    obtain ⟨x, others, rfl⟩ := List.exists_cons_of_ne_nil hne
    rw [Tokens.prepend_cons, prepend_append]
    refine .bind (.inl (run_skip_next _ _ _)) ?_
    exact allows_someUntil htakes hitem hbegins hclose hxs _ after

end Loops

section Productions

variable {taken : List Token} {after : Tokens}

theorem allows_directives {levels : Nat} {constant : Bool} {ds : List Directive}
    (hds : Phrases (Directive.Derives constant) taken ds)
    (hstops : after.head? ≠ some (.punctuator .atSign) ∧ after.head? ≠ some (.punctuator .parenL))
    : (directives levels constant).Allows (prepend taken after) ds after :=
  allows_of_reads (predicts_directives constant) (reads_directives · constant) hds hstops

theorem allows_selectionSet (levels : Nat) {set : SelectionSet} (hset : set.Derives taken)
    (after : Tokens)
    : (selectionSet levels).Allows (prepend taken after) set after :=
  allows_of_reads predicts_selectionSet reads_selectionSet hset trivial

theorem allows_variableDefinition {x : VariableDefinition} (hx : x.Derives taken)
    (hstops : after.head? = some (.punctuator .dollar) ∨ after.head? = some (.punctuator .parenR))
    : variableDefinition.Allows (prepend taken after) x after := by
  cases hx with
  | @mk name type default ds first second third start next colon htype hdefault hdirectives =>
    obtain ⟨hsecond, hthird, hafter⟩ := head?_default_directives hdefault hdirectives hstops
    unfold variableDefinition
    refine .take (.take (.take ?_ (run_expect _ _)) (run_expectName _ _)) (run_expect _ _)
    rw [prepend_append, prepend_append]
    refine (allows_of_reads predicts_typeRef reads_typeRef htype hsecond).bind ?_
    refine (allows_of_reads predicts_defaultValue reads_defaultValue hdefault hthird).bind ?_
    exact (allows_directives hdirectives hafter).bind (.inl rfl)

theorem allows_variableDefinitions {vs : List VariableDefinition}
    (hvs : Parenthesized VariableDefinition.Derives taken vs)
    (hstops : after.head? ≠ some (.punctuator .parenL))
    : variableDefinitions.Allows (prepend taken after) vs after := by
  refine allows_parenthesized (fun next => next = some _ ∨ next = some _)
    (reads_variableDefinition.takes (begins_variableDefinition.within _ _))
    (fun _ => allows_variableDefinition) ?_ (.inr rfl) hvs hstops
  refine begins_variableDefinition.mono ?_
  rintro _ rfl
  exact ⟨by simp, .inl rfl⟩

theorem allows_operation {kind : OperationKind} {name : Option String}
    {vs : List VariableDefinition} {ds : List Directive} {set : SelectionSet}
    {first second third fourth : List Token} {start : Position}
    (hname : Optionally IsName first name)
    (hvs : Parenthesized VariableDefinition.Derives second vs)
    (hds : Phrases (Directive.Derives false) third ds) (hset : SelectionSet.Derives fourth set)
    : operation.Allows
        (prepend (⟨.name kind.name, start⟩ :: (first ++ second ++ third ++ fourth)) after)
        ⟨kind, name, vs, ds, set, start⟩ after := by
  obtain ⟨hsecond, hparen, hfourth⟩ := head?_definitions_directives_set hvs hds hset after
  unfold operation
  refine .bind (.inl (run_position _)) (.take ?_ (run_expectName _ _))
  rw [prepend_append, prepend_append, prepend_append]
  refine .bind (.inl (reads_optionalName.complete _ hname hsecond)) ?_
  refine (allows_variableDefinitions hvs hparen).bind ?_
  refine (allows_directives hds (by simp [hfourth])).bind ?_
  refine (allows_selectionSet maxDepth hset after).bind (.inl ?_)
  rw [operationKind_name]
  rfl

theorem allows_fragment {f : Fragment} (hf : f.Derives taken) (after : Tokens)
    : fragment.Allows (prepend taken after) f after := by
  obtain ⟨hname, hds, hset⟩ := hf
  have hhead := head?_set hset after
  unfold fragment
  refine .take (.bind (.inl (run_position _)) (.take ?_ (run_expectName _ _)))
    (run_expectKeyword _ _)
  rw [if_neg hname]
  refine .take (.take ?_ (run_expectName _ _)) (run_expectKeyword _ _)
  rw [prepend_append]
  refine (allows_directives hds (by simp [hhead])).bind ?_
  exact (allows_selectionSet maxDepth hset after).bind (.inl rfl)

theorem allows_definition {x : Definition} (hx : x.Derives taken) (after : Tokens)
    : definition.Allows (prepend taken after) x after := by
  cases hx with
  | fragment hf =>
    have hfragment := allows_fragment hf after
    obtain ⟨hname, hds, hset⟩ := hf
    exact (hfragment.bind (.inl rfl)).of_run_eq (run_definition_fragment _ _ _)
  | operation hop =>
    cases hop with
    | full hname hvs hds hset =>
      exact ((allows_operation hname hvs hds hset).bind (.inl rfl)).of_run_eq
        (run_definition_operation _ _ _ _)
    | shorthand hset =>
      have hrun := allows_selectionSet maxDepth hset after
      obtain ⟨hne, hitems⟩ := hset
      exact (hrun.bind (.inl rfl)).of_run_eq (run_definition_set _ _ _)

theorem allows_definitions {x : Definition} {xs : List Definition} (stop : Position)
    (hxs : Phrases Definition.Derives taken (x :: xs))
    : definitions.Allows ⟨taken, stop⟩ (x :: xs) ⟨[], stop⟩ := by
  refine Allows.of_run_eq ?_ (run_definitions _)
  induction xs generalizing taken x with
  | nil =>
    obtain - | ⟨hfirst, - | -⟩ := hxs
    exact (allows_definition hfirst ⟨[], stop⟩).bind (.inl rfl)
  | cons y ys ih =>
    cases hxs with
    | @cons first rest _ _ hfirst hrest =>
      refine (allows_definition hfirst ⟨rest, stop⟩).bind ?_
      have hmore : (Tokens.mk rest stop).head?.isNone = false := by
        obtain - | ⟨hsecond, _⟩ := hrest
        obtain ⟨token, tokens, rfl, _⟩ := begins_definition _ _ hsecond
        rfl
      refine Allows.of_run_eq ?_ (run_peek _ _)
      rw [hmore]
      exact (Allows.of_run_eq (ih hrest) (run_definitions _)).bind (.inl rfl)

end Productions
end Parser

namespace Document

/-- Tokens with which some document begins. -/
def Viable (tokens : List Token) : Prop :=
  ∃ rest document, Derives (tokens ++ rest) document

/-- No document goes on with the next token, or ends if there is none. -/
def Stuck (taken : List Token) (after : Tokens) : Prop :=
  match after.rest with
  | [] => ∀ document, ¬ Derives taken document
  | token :: _ => ¬ Viable (taken ++ [token])

theorem ofTokens_eq_error {tokens : Tokens} {e : SyntaxError} (h : ofTokens tokens = .error e)
    : Parser.definitions.run tokens = .error e := by
  obtain h | ⟨_, _, h⟩ := bind_eq_error h
  . exact h
  . cases h

theorem not_derives_of_unexpectedToken {tokens : Tokens} {e : SyntaxError}
    (h : Parser.definitions.run tokens = .error e) (hcode : e.cause.code = .unexpectedToken)
    (document : Document)
    : ¬ document.Derives tokens.rest := by
  rintro ⟨hne, hdefinitions⟩
  obtain ⟨x, xs, hxs⟩ := List.exists_cons_of_ne_nil hne
  rw [hxs] at hdefinitions
  obtain hok | ⟨e', herror, hother⟩ := Parser.allows_definitions tokens.stop hdefinitions
  . cases h.symm.trans hok
  . cases h.symm.trans herror
    exact hother hcode

/--
A text that is refused for one of its tokens is refused at the first token with which no document
goes on, and the error names that token.
-/
theorem refused_at_first_impossible {text : String} {tokens : Tokens} {e : SyntaxError}
    (htokens : Tokens.ofText text = .ok tokens) (h : ofText text = .error e)
    (hcode : e.code = "UNEXPECTED_TOKEN")
    : ∃ taken after, tokens = Tokens.prepend taken after ∧ e.position = after.position
        ∧ e.Finds after.head? ∧ Viable taken ∧ Stuck taken after := by
  unfold ofText at h
  rw [htokens] at h
  have hrun := ofTokens_eq_error h
  have hcode : e.cause.code = .unexpectedToken := by
    unfold SyntaxError.code at hcode
    cases hcause : e.cause.code with
    | unexpectedToken => rfl
    | unexpectedCharacter | unterminatedString | invalidLiteral | maxDepthExceeded =>
      rw [hcause] at hcode
      simp [SyntaxError.Code.name] at hcode
  obtain ⟨taken, after, rfl, hposition, hfinds, hviable, hsame⟩ :=
    (Parser.decides_definitions tokens).error hrun hcode
  refine ⟨taken, after, rfl, hposition, hfinds, hviable, ?_⟩
  unfold Stuck
  split
  . next hrest =>
    intro document hdocument
    refine not_derives_of_unexpectedToken hrun hcode document ?_
    rw [Tokens.prepend, hrest, List.append_nil]
    exact hdocument
  . next token rest hrest =>
    rintro ⟨others, document, hdocument⟩
    have halike : Tokens.Alike ⟨token :: others, after.stop⟩ after := ⟨by rw [hrest]; rfl, rfl⟩
    refine not_derives_of_unexpectedToken (hsame halike) hcode document ?_
    rw [List.append_assoc] at hdocument
    exact hdocument

theorem refused_at_first_impossible_bracket
    : let text := "\x7ba(x:[$])\x7d"
      let tokens : Tokens :=
        ⟨[⟨.punctuator .braceL, ⟨1, 1⟩⟩, ⟨.name "a", ⟨1, 2⟩⟩, ⟨.punctuator .parenL, ⟨1, 3⟩⟩,
          ⟨.name "x", ⟨1, 4⟩⟩, ⟨.punctuator .colon, ⟨1, 5⟩⟩, ⟨.punctuator .bracketL, ⟨1, 6⟩⟩,
          ⟨.punctuator .dollar, ⟨1, 7⟩⟩, ⟨.punctuator .bracketR, ⟨1, 8⟩⟩,
          ⟨.punctuator .parenR, ⟨1, 9⟩⟩, ⟨.punctuator .braceR, ⟨1, 10⟩⟩], ⟨1, 11⟩⟩
      let e : SyntaxError := ⟨.expectedToken .name (some (.punctuator .bracketR)), ⟨1, 8⟩⟩
      Tokens.ofText text = .ok tokens ∧ ofText text = .error e ∧ e.code = "UNEXPECTED_TOKEN"
        ∧ ∃ taken after, tokens = Tokens.prepend taken after ∧ e.position = after.position
          ∧ e.Finds after.head? ∧ Viable taken ∧ Stuck taken after := by
  intro text tokens e
  have htokens : Tokens.ofText text = .ok tokens := by
    cbv
  have h : ofText text = .error e := by
    unfold ofText
    rw [htokens]
    rfl
  exact ⟨htokens, h, rfl, refused_at_first_impossible htokens h rfl⟩

end Document
end GraphGateway
