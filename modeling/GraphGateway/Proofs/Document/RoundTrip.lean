import GraphGateway.Proofs.Document.Spelling

/-!
This module contains the proof that a document that is written as a text is read back from it,
however its words are spelled and whatever ignored characters stand between them.
-/

namespace GraphGateway

/-- After a number comes a word, and no spread, whose points would be taken for a decimal point. -/
def Followed : List Word → Prop
  | [] => True
  | word :: rest =>
    (word.isNumber = true → ∃ next ∈ rest.head?, next ≠ .punctuator .spread) ∧ Followed rest

section Followed

variable {words rest : List Word}

theorem Followed.append (hwords : Followed words) (hrest : Followed rest)
    : Followed (words ++ rest) := by
  induction words with
  | nil => exact hrest
  | cons word words ih =>
    obtain ⟨hword, hwords⟩ := hwords
    refine ⟨?_, ih hwords⟩
    intro hnumber
    obtain ⟨next, hnext, hne⟩ := hword hnumber
    refine ⟨next, ?_, hne⟩
    cases words with
    | nil => cases hnext
    | cons => exact hnext

theorem followed_punctuator (p : Punctuator)
    : Followed (.punctuator p :: rest) ↔ Followed rest := by
  simp [Followed, Word.isNumber]

theorem followed_name (s : String) : Followed (.name s :: rest) ↔ Followed rest := by
  simp [Followed, Word.isNumber]

theorem Followed.enclosed (hwords : Followed words) (opening close : Punctuator)
    : Followed (.punctuator opening :: (words ++ [.punctuator close])) := by
  rw [followed_punctuator]
  exact hwords.append ((followed_punctuator close).mpr trivial)

def Unspread (words : List Word) : Prop :=
  ∀ word ∈ words, word ≠ .punctuator .spread

theorem Unspread.append (hwords : Unspread words) (hrest : Unspread rest)
    : Unspread (words ++ rest) :=
  List.forall_mem_append.mpr ⟨hwords, hrest⟩

theorem Unspread.cons {word : Word} (hword : word ≠ .punctuator .spread) (hrest : Unspread rest)
    : Unspread (word :: rest) :=
  List.forall_mem_cons.mpr ⟨hword, hrest⟩

theorem unspread_nil : Unspread [] := by
  simp [Unspread]

theorem Unspread.followed (h : Unspread words) {close : Punctuator} (hclose : close ≠ .spread)
    : Followed (words ++ [.punctuator close]) := by
  induction words with
  | nil => simp [Followed, Word.isNumber]
  | cons word words ih =>
    have hwords : Unspread words := fun word hmem => h word (List.mem_cons_of_mem _ hmem)
    refine ⟨fun _ => ?_, ih hwords⟩
    cases words with
    | nil => exact ⟨_, rfl, by simpa using hclose⟩
    | cons next words => exact ⟨next, rfl, hwords next List.mem_cons_self⟩

theorem Unspread.parenthesized (h : Unspread words) : Unspread (parenthesized words) := by
  cases words with
  | nil => exact unspread_nil
  | cons word words =>
    exact .cons (by simp) (.append h (.cons (by simp) unspread_nil))

theorem Unspread.followed_parenthesized (h : Unspread words)
    : Followed (GraphGateway.parenthesized words) := by
  cases words with
  | nil => exact trivial
  | cons word words => exact (followed_punctuator _).mpr (h.followed (by simp))

theorem unspread_flatMap {α : Type} {words : α → List Word} {xs : List α}
    (h : ∀ x, Unspread (words x))
    : Unspread (xs.flatMap words) := by
  intro word hmem
  obtain ⟨x, _, hx⟩ := List.mem_flatMap.mp hmem
  exact h x word hx

theorem followed_flatMap {α : Type} {words : α → List Word} {xs : List α}
    (h : ∀ x, Followed (words x))
    : Followed (xs.flatMap words) := by
  induction xs with
  | nil => exact trivial
  | cons x xs ih =>
    rw [List.flatMap_cons]
    exact (h x).append ih

mutual

theorem Literal.unspread_words (l : Literal) : Unspread l.words := by
  cases l with
  | list items =>
    exact .cons (by simp) ((unspread_wordsItems items).append (.cons (by simp) unspread_nil))
  | object fields =>
    exact .cons (by simp) ((unspread_wordsNamed fields).append (.cons (by simp) unspread_nil))
  | _ => simp [words, Unspread]

theorem Literal.unspread_wordsItems (items : List Literal) : Unspread (wordsItems items) := by
  cases items with
  | nil => exact unspread_nil
  | cons item rest => exact (unspread_words item).append (unspread_wordsItems rest)

theorem Literal.unspread_wordsNamed (fields : List (String × Literal))
    : Unspread (wordsNamed fields) := by
  cases fields with
  | nil => exact unspread_nil
  | cons field rest =>
    obtain ⟨name, value⟩ := field
    exact .cons (by simp)
      (.cons (by simp) ((unspread_words value).append (unspread_wordsNamed rest)))

end

theorem Directive.unspread_words (directive : Directive) : Unspread directive.words :=
  .cons (by simp) (.cons (by simp) (Literal.unspread_wordsNamed _).parenthesized)

theorem Directive.followed_words (directive : Directive) : Followed directive.words := by
  rw [words, followed_punctuator, followed_name]
  exact (Literal.unspread_wordsNamed _).followed_parenthesized

theorem TypeRef.unspread_words (type : TypeRef) : Unspread type.words := by
  induction type with
  | named name => exact .cons (by simp) unspread_nil
  | list inner ih => exact .cons (by simp) (ih.append (.cons (by simp) unspread_nil))
  | nonNull inner ih => exact ih.append (.cons (by simp) unspread_nil)

theorem VariableDefinition.unspread_words (definition : VariableDefinition)
    : Unspread definition.words := by
  have hdefault : Unspread (Literal.defaultWords definition.default) := by
    cases definition.default with
    | none => exact unspread_nil
    | some value => exact .cons (by simp) (Literal.unspread_words value)
  exact .cons (by simp) (.cons (by simp) (.cons (by simp)
    (((TypeRef.unspread_words _).append hdefault).append
      (unspread_flatMap Directive.unspread_words))))

theorem FieldNode.followed_words (node : FieldNode) : Followed node.words := by
  have hname : Followed node.nameWords := by
    unfold nameWords
    split <;> simp [Followed, Word.isNumber]
  exact (hname.append (Literal.unspread_wordsNamed _).followed_parenthesized).append
    (followed_flatMap Directive.followed_words)

mutual

theorem Selection.followed_words (selection : Selection) : Followed selection.words := by
  match selection with
  | .field node none => exact FieldNode.followed_words node
  | .field node (some ⟨items, _⟩) =>
    exact (FieldNode.followed_words node).append ((followed_wordsAll items).enclosed _ _)
  | .spread fragment directives _ =>
    rw [words, followed_punctuator, followed_name]
    exact followed_flatMap Directive.followed_words
  | .inline condition directives ⟨items, _⟩ _ =>
    have hcondition : Followed (conditionWords condition) := by
      cases condition <;> simp [conditionWords, Followed, Word.isNumber]
    rw [words, followed_punctuator]
    exact (hcondition.append (followed_flatMap Directive.followed_words)).append
      ((followed_wordsAll items).enclosed _ _)

theorem Selection.followed_wordsAll (items : List Selection) : Followed (wordsAll items) := by
  cases items with
  | nil => exact trivial
  | cons item rest => exact (followed_words item).append (followed_wordsAll rest)

end

theorem SelectionSet.followed_words (set : SelectionSet) : Followed (SelectionSet.words set) :=
  (Selection.followed_wordsAll set.items).enclosed _ _

theorem Operation.followed_words (op : Operation) : Followed op.words := by
  have hname : Followed (op.name.toList.map .name) := by
    cases op.name <;> simp [Followed, Word.isNumber]
  have hdefinitions : Followed
      (GraphGateway.parenthesized (op.variableDefinitions.flatMap VariableDefinition.words)) :=
    (unspread_flatMap VariableDefinition.unspread_words).followed_parenthesized
  rw [words, followed_name]
  exact ((hname.append hdefinitions).append (followed_flatMap Directive.followed_words)).append
    (SelectionSet.followed_words op.set)

theorem Fragment.followed_words (f : Fragment) : Followed f.words := by
  rw [words, followed_name, followed_name, followed_name, followed_name]
  exact (followed_flatMap Directive.followed_words).append (SelectionSet.followed_words f.set)

theorem Definition.followed_of_printed {definition : Definition} (h : definition.Printed words)
    : Followed words := by
  cases h with
  | operation op => exact Operation.followed_words op
  | shorthand set => exact SelectionSet.followed_words set
  | fragment f => exact Fragment.followed_words f

theorem followed_of_phrases {definitions : List Definition}
    (h : Phrases Definition.Printed words definitions)
    : Followed words := by
  induction h with
  | nil => exact trivial
  | cons hfirst _ ih => exact (Definition.followed_of_printed hfirst).append ih

end Followed

section Scanning

open Lexeme

def IsBoundary (words : List Word) (c : Char) : Prop :=
  isNameContinue c = false ∧ c ≠ '"' ∧ (c = '.' → words.head? = some (.punctuator .spread))

theorem heads_of_ignored {gap : List Char} (hgap : Ignored gap) (words : List Word)
    : Heads (IsBoundary words) gap := by
  have hblank : ∀ c ∈ [' ', '\t', '\n', '\r', ',', '\ufeff'],
      isNameContinue c = false ∧ c ≠ '"' ∧ c ≠ '.' := by
    simp only [List.forall_mem_cons]
    refine ⟨?_, ?_, ?_, ?_, ?_, ?_, by simp⟩ <;> decide
  cases hgap with
  | nil => simp [Heads]
  | @blank c rest hc =>
    obtain ⟨hcontinue, hquote, hpoint⟩ := hblank c hc
    rintro _ ⟨⟩
    exact ⟨hcontinue, hquote, fun h => absurd h hpoint⟩
  | comment =>
    rintro _ ⟨⟩
    exact ⟨by decide, by decide, fun h => absurd h (by decide)⟩

theorem heads_symbol (p : Punctuator) (words : List Word) (rest : List Char)
    : Heads (IsBoundary (.punctuator p :: words)) (p.symbol ++ rest) := by
  cases p <;> rintro _ ⟨⟩ <;> exact ⟨by decide, by decide, by simp⟩

theorem heads_of_rendered {words : List Word} {rest : List Char} (h : Rendered true words rest)
    : Heads (IsBoundary words) rest := by
  cases h with
  | stop hgap => exact heads_of_ignored hgap []
  | @word _ word words gap spelling rest hgap hseparate hspelling hrest =>
    cases gap with
    | cons c gap => exact heads_of_ignored hgap _
    | nil =>
      -- Of two words with nothing between them, one is a punctuator.
      cases hspelling with
      | punctuator p => exact heads_symbol p words rest
      | _ => exact absurd rfl (hseparate rfl rfl)

theorem isDigit_of_isNameContinue {c : Char} (h : isNameContinue c = false)
    : c.isDigit = false ∧ isNameStart c = false := by
  simp only [isNameContinue, Char.isAlphanum, Bool.or_eq_false_iff] at h
  exact ⟨h.2.2, by simp [isNameStart, h]⟩

theorem ends_of_rendered {word : Word} {words : List Word} {rest : List Char}
    (hfollowed : Followed (word :: words)) (h : Rendered (!word.isPunctuator) words rest)
    : Ends word rest := by
  have hnumber : word.isNumber = true → Heads (IsBoundary words) rest → EndsNumber rest := by
    intro hword hheads c hc
    obtain ⟨hcontinue, _, hspread⟩ := hheads c hc
    obtain ⟨hdigit, hstart⟩ := isDigit_of_isNameContinue hcontinue
    refine ⟨hdigit, ?_⟩
    -- A point could only be the first of a spread, which does not follow a number in any document.
    obtain ⟨next, hnext, hne⟩ := hfollowed.1 hword
    have hpoint : c ≠ '.' := by
      intro hc
      rw [hspread hc] at hnext
      exact hne (Option.some.inj hnext).symm
    simp [continuesNumber, hpoint, hstart]
  cases word with
  | punctuator => exact trivial
  | name => exact fun c hc => (heads_of_rendered h c hc).1
  | int => exact hnumber rfl (heads_of_rendered h)
  | float => exact hnumber rfl (heads_of_rendered h)
  | string =>
    intro hquote
    exact (heads_of_rendered h '"' hquote).2.1 rfl

theorem not_ignored_of_scan {c : Char} {rest : List Char} {lexeme : Lexeme}
    (h : scan c rest = .ok lexeme)
    : isIgnored c = false ∧ c ≠ '#' := by
  constructor
  . cases hc : isIgnored c with
    | false => rfl
    | true =>
      simp only [isIgnored, Bool.or_eq_true, decide_eq_true_eq] at hc
      obtain ((((rfl | rfl) | rfl) | rfl) | rfl) | rfl := hc <;> cases h
  . rintro rfl
    cases h

theorem scanFrom_eq_nil {text : List Char} (h : (splitIgnored text).2 = []) (position : Position)
    : Tokens.scanFrom position text = .ok ([], position.after (splitIgnored text).1) := by
  unfold Tokens.scanFrom
  split
  . rfl
  . next heq =>
    rw [h] at heq
    cases heq

theorem scanFrom_eq_cons {text rest : List Char} {c : Char} {lexeme : Lexeme}
    (h : (splitIgnored text).2 = c :: rest) (hscan : scan c rest = .ok lexeme)
    (position : Position)
    : Tokens.scanFrom position text
        = (do
            let start := position.after (splitIgnored text).1
            let (tokens, stop) ← Tokens.scanFrom (start.after lexeme.spelling) lexeme.rest
            return (⟨lexeme.kind, start⟩ :: tokens, stop)) := by
  rw [Tokens.scanFrom]
  split
  . next heq =>
    rw [h] at heq
    cases heq
  . next c' rest' heq =>
    rw [h] at heq
    cases heq
    split
    . next hscan' =>
      rw [hscan] at hscan'
      cases hscan'
    . next hscan' =>
      rw [hscan] at hscan'
      cases hscan'
      rfl

theorem exists_scanFrom_of_rendered {separate : Bool} {words : List Word} {text : List Char}
    (h : Rendered separate words text) (hfollowed : Followed words) (position : Position)
    : ∃ tokens stop, Tokens.scanFrom position text = .ok (tokens, stop) ∧ Means tokens words := by
  -- Each scan takes one gap and one spelling, and goes on at the position after them.
  induction h generalizing position with
  | @stop _ gap hgap =>
    have hsplit := splitIgnored_append_of_ignored hgap [] (by simp [Heads])
    rw [List.append_nil] at hsplit
    exact ⟨[], _, scanFrom_eq_nil (congrArg Prod.snd hsplit) position, rfl⟩
  | @word _ word words gap spelling rest hgap hseparate hspelling hrest ih =>
    obtain ⟨c, text, kind, rfl, hscan, hkind⟩ :=
      exists_scan_of_spells hspelling (ends_of_rendered hfollowed hrest)
    have hsplit := splitIgnored_append_of_ignored hgap (c :: text ++ rest) (by
      rintro _ ⟨⟩
      exact not_ignored_of_scan hscan)
    obtain ⟨tokens, stop, htokens, hmeans⟩ :=
      ih hfollowed.2 ((position.after gap).after (c :: text))
    refine ⟨⟨kind, position.after gap⟩ :: tokens, stop, ?_, ?_⟩
    . rw [scanFrom_eq_cons (congrArg Prod.snd hsplit) hscan, hsplit]
      dsimp only
      rw [htokens]
      rfl
    . rw [Means] at hmeans ⊢
      rw [List.map_cons, hkind, hmeans]

theorem rendered_stripMark {words : List Word} {text : List Char} (hfollowed : Followed words)
    (h : Rendered false words text)
    : Rendered false words (Tokens.stripMark text) := by
  unfold Tokens.stripMark
  split
  . next rest =>
    have hrest : ∀ {gap : List Char}, Ignored ('\ufeff' :: gap) → Ignored gap := by
      intro gap hgap
      cases hgap with
      | blank _ hrest => exact hrest
    generalize htext : '\ufeff' :: rest = text at h
    cases h with
    | stop hgap =>
      subst htext
      exact .stop (hrest hgap)
    | @word _ _ _ gap _ _ hgap hseparate hspelling hrendered =>
      cases gap with
      | nil =>
        obtain ⟨c, after, kind, rfl, hscan, _⟩ :=
          exists_scan_of_spells hspelling (ends_of_rendered hfollowed hrendered)
        cases htext
        cases (not_ignored_of_scan hscan).1
      | cons c gap =>
        cases htext
        exact .word (hrest hgap) (fun h => absurd h Bool.false_ne_true) hspelling hrendered
  . exact h

end Scanning

/--
Printing then parsing gives the document back: every text in which the words of a document are set
is read as this document, up to the positions of its nodes.
-/
theorem Document.ofText_of_rendered {document : Document} {words : List Word} {text : String}
    (hdocument : document.Printable) (hwords : document.Printed words)
    (htext : Rendered false words text.toList)
    : ∃ parsed, ofText text = .ok parsed ∧ parsed.unplaced = document.unplaced := by
  have hfollowed : Followed words := followed_of_phrases hwords
  obtain ⟨tokens, stop, hscan, hmeans⟩ :=
    exists_scanFrom_of_rendered (rendered_stripMark hfollowed htext) hfollowed .start
  obtain ⟨parsed, hparsed, hunplaced⟩ :=
    exists_ofTokens_of_means ⟨tokens, stop⟩ hdocument hwords hmeans
  refine ⟨parsed, ?_, hunplaced⟩
  unfold ofText Tokens.ofText
  rw [hscan]
  exact hparsed

theorem Document.ofText_of_rendered_argument
    : ∃ parsed, ofText "\x7ba(n:-3) #c\n\x7d" = .ok parsed
        ∧ parsed.unplaced = ⟨[.operation ⟨.query, none, [], [],
          ⟨[.field ⟨none, "a", [("n", .int (-3))], [], .start⟩ none], .start⟩, .start⟩]⟩ := by
  let set : SelectionSet := ⟨[.field ⟨none, "a", [("n", .int (-3))], [], .start⟩ none], .start⟩
  have hset : SelectionSet.Printable set :=
    ⟨by simp [set], ⟨⟨⟨by decide, by decide⟩, trivial⟩, by simp⟩, trivial⟩
  have hdocument : Document.Printable ⟨[.operation ⟨.query, none, [], [], set, .start⟩]⟩ :=
    ⟨by simp, by simpa using ⟨by simp, by simp, hset⟩, by decide⟩
  have hprinted : Document.Printed ⟨[.operation ⟨.query, none, [], [], set, .start⟩]⟩
      (SelectionSet.words set ++ []) := .cons (.shorthand set .start) .nil
  have hname : ∀ c, Lexeme.isNameStart c = true → IsNameText [c] := by
    intro c hc
    exact ⟨c, [], rfl, hc, by simp⟩
  have hrendered : Rendered false (SelectionSet.words set ++ [])
      ([] ++ (['\x7b'] ++ ([] ++ (['a'] ++ ([] ++ (['('] ++ ([] ++ (['n'] ++ ([] ++ ([':']
        ++ ([] ++ (['-', '3'] ++ ([] ++ ([')'] ++ ([' ', '#', 'c', '\n'] ++ (['\x7d']
        ++ [])))))))))))))))) := by
    refine .word .nil (by simp) (.punctuator .braceL) ?_
    refine .word .nil (by simp [Word.isPunctuator]) (.name (hname 'a' (by decide))) ?_
    refine .word .nil (by simp [Word.isPunctuator]) (.punctuator .parenL) ?_
    refine .word .nil (by simp [Word.isPunctuator]) (.name (hname 'n' (by decide))) ?_
    refine .word .nil (by simp [Word.isPunctuator]) (.punctuator .colon) ?_
    refine .word .nil (by simp [Word.isPunctuator]) (.int (-3)) ?_
    refine .word .nil (by simp [Word.isPunctuator]) (.punctuator .parenR) ?_
    refine .word (.blank (by simp) ?_) (by simp) (.punctuator .braceR) (.stop .nil)
    exact @Ignored.comment ['c'] [] '\n' (by simp) (by simp) .nil
  exact Document.ofText_of_rendered hdocument hprinted hrendered

end GraphGateway
