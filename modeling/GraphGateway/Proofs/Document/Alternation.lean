import GraphGateway.Proofs.Document.Lexemes
import GraphGateway.Proofs.Document.RoundTrip

/-!
This module contains the proof that the tokens of a text are all of it: nothing but ignored
characters stands between their lexemes, each lexeme is as long as it can be, and each token stands
at the position of its lexeme.
-/

namespace GraphGateway

namespace Position

def ofText (before : List Char) : Position :=
  ⟨1 + before.count '\n', 1 + (before.rtakeWhile (· ≠ '\n')).length⟩

def Before (p q : Position) : Prop :=
  p.line < q.line ∨ p.line = q.line ∧ p.column < q.column

theorem after_start (before : List Char) : start.after before = ofText before := by
  induction before using List.reverseRecOn with
  | nil => rfl
  | append_singleton before c ih =>
    rw [after_append, ih, after, List.foldl_cons, List.foldl_nil, next]
    split
    . next hc =>
      subst hc
      rw [ofText, ofText, List.rtakeWhile_concat_neg _ _ _ (by simp)]
      simp [Nat.add_assoc]
    . next hc =>
      rw [ofText, ofText, List.rtakeWhile_concat_pos _ _ _ (by simpa using hc)]
      simp [hc, Nat.add_assoc]

theorem after_ofText (before text : List Char)
    : (ofText before).after text = ofText (before ++ text) := by
  rw [← after_start, ← after_start, after_append]

theorem Before.trans {p q r : Position} (hpq : p.Before q) (hqr : q.Before r) : p.Before r := by
  unfold Before at hpq hqr ⊢
  omega

instance : Trans Before Before Before :=
  ⟨Before.trans⟩

theorem before_next (p : Position) (c : Char) : p.Before (p.next c) := by
  unfold Before next
  split <;> simp

theorem Before.after {p q : Position} (h : p.Before q) (text : List Char)
    : p.Before (q.after text) := by
  induction text generalizing q with
  | nil => exact h
  | cons c text ih => exact ih (h.trans (before_next q c))

theorem before_after (p : Position) {text : List Char} (h : text ≠ [])
    : p.Before (p.after text) := by
  cases text with
  | nil => exact absurd rfl h
  | cons c text => exact (before_next p c).after text

end Position

theorem Ignored.append {gap rest : List Char} (hgap : Ignored gap) (hrest : Ignored rest)
    : Ignored (gap ++ rest) := by
  induction hgap with
  | nil => exact hrest
  | blank hc _ ih => exact .blank hc ih
  | comment htext hstop _ ih =>
    rw [List.cons_append, List.append_assoc]
    exact .comment htext hstop ih

/-- What is ignored at the end of a text. The last comment need not end with its line. -/
inductive IgnoredToEnd : List Char → Prop where
  | ignored {gap : List Char} (hgap : Ignored gap) : IgnoredToEnd gap
  | comment {gap text : List Char} (hgap : Ignored gap) (htext : ∀ c ∈ text, c ∉ ['\n', '\r'])
    : IgnoredToEnd (gap ++ '#' :: text)

theorem IgnoredToEnd.append {gap rest : List Char} (hgap : Ignored gap) (hrest : IgnoredToEnd rest)
    : IgnoredToEnd (gap ++ rest) := by
  cases hrest with
  | ignored hrest => exact .ignored (hgap.append hrest)
  | comment hrest htext =>
    rw [← List.append_assoc]
    exact .comment (hgap.append hrest) htext

namespace Lexeme

def Skips (gap rest : List Char) : Prop :=
  IgnoredToEnd gap ∧ (rest ≠ [] → Ignored gap)

theorem Skips.append {gap skipped rest : List Char} (hgap : Ignored gap) (h : Skips skipped rest)
    : Skips (gap ++ skipped) rest :=
  ⟨h.1.append hgap, fun hrest => hgap.append (h.2 hrest)⟩

theorem mem_of_isIgnored {c : Char} (h : isIgnored c = true)
    : c ∈ [' ', '\t', '\n', '\r', ',', '\ufeff'] := by
  simp only [isIgnored, Bool.or_eq_true, decide_eq_true_eq] at h
  obtain ((((rfl | rfl) | rfl) | rfl) | rfl) | rfl := h <;> simp

theorem skips_go (text : List Char)
    : Skips (splitIgnored.go false text).1 (splitIgnored.go false text).2
        ∧ ∀ seen : List Char, (∀ c ∈ seen, c ∉ ['\n', '\r']) →
          Skips ('#' :: (seen ++ (splitIgnored.go true text).1)) (splitIgnored.go true text).2 := by
  -- Inside of a comment, `seen` is what has been read of it.
  induction text with
  | nil =>
    refine ⟨⟨.ignored .nil, fun h => absurd rfl h⟩, fun seen hseen => ?_⟩
    refine ⟨?_, fun h => absurd rfl h⟩
    rw [splitIgnored.go, List.append_nil]
    exact .comment .nil hseen
  | cons c text ih =>
    obtain ⟨hfalse, htrue⟩ := ih
    constructor
    . rw [splitIgnored.go, Bool.false_and, Bool.false_or]
      split
      . next hc => exact hfalse.append (.blank (mem_of_isIgnored hc) .nil)
      . split
        . next hc =>
          subst hc
          exact htrue [] (by simp)
        . exact ⟨.ignored .nil, fun _ => .nil⟩
    . intro seen hseen
      rw [splitIgnored.go, Bool.true_and]
      cases hc : endsComment c with
      | false =>
        have hseen : ∀ d ∈ seen ++ [c], d ∉ ['\n', '\r'] := by
          rw [List.forall_mem_append, List.forall_mem_singleton]
          exact ⟨hseen, by simpa [endsComment] using hc⟩
        have hskips := htrue (seen ++ [c]) hseen
        rw [List.append_assoc] at hskips
        exact hskips
      | true =>
        have hstop : c ∈ ['\n', '\r'] := by simpa [endsComment] using hc
        have hignored : isIgnored c = true := by
          simp only [List.mem_cons, List.not_mem_nil, or_false] at hstop
          obtain rfl | rfl := hstop <;> rfl
        have hskips := hfalse.append (.comment hseen hstop .nil)
        rw [List.cons_append, List.append_assoc] at hskips
        rw [Bool.not_true, Bool.false_or, if_pos hignored]
        exact hskips

theorem skips_splitIgnored (text : List Char)
    : Skips (splitIgnored text).1 (splitIgnored text).2 :=
  (skips_go text).1

end Lexeme

theorem Token.Kind.Spells.ne_nil {kind : Token.Kind} {spelling : List Char}
    (h : kind.Spells spelling)
    : spelling ≠ [] := by
  cases h with
  | punctuator p => cases p <;> simp [Punctuator.symbol]
  | name h =>
    obtain ⟨c, rest, rfl, _⟩ := h
    simp
  | int h => simp [(Lexeme.isDigits_whole h).1]
  | float h => simp [(Lexeme.isDigits_whole h).1]
  | string => simp
  | block => simp

namespace Tokens

/--
The tokens that stand in a text after another one. No token has a longer spelling at its place, and
each token has the position at which its lexeme begins.
-/
inductive Covers : List Char → List Char → List Token → Prop where
  | stop {before gap : List Char} (hgap : IgnoredToEnd gap) : Covers before gap []
  | token {before gap spelling rest : List Char} {token : Token} {tokens : List Token}
    (hgap : Ignored gap) (hspelling : token.kind.Spells spelling)
    (hlongest : ∀ kind other, Token.Kind.Spells kind other → other <+: spelling ++ rest →
      other <+: spelling)
    (hposition : token.position = Position.ofText (before ++ gap))
    (hrest : Covers (before ++ gap ++ spelling) rest tokens)
    : Covers before (gap ++ (spelling ++ rest)) (token :: tokens)

theorem scanFrom_eq_ok {position stop : Position} {text : List Char} {tokens : List Token}
    (h : scanFrom position text = .ok (tokens, stop))
    : (Lexeme.splitIgnored text).2 = [] ∧ tokens = []
        ∧ stop = position.after (Lexeme.splitIgnored text).1
      ∨ ∃ c rest lexeme after, (Lexeme.splitIgnored text).2 = c :: rest
        ∧ Lexeme.scan c rest = .ok lexeme
        ∧ tokens = ⟨lexeme.kind, position.after (Lexeme.splitIgnored text).1⟩ :: after
        ∧ scanFrom ((position.after (Lexeme.splitIgnored text).1).after lexeme.spelling) lexeme.rest
          = .ok (after, stop) := by
  rw [scanFrom] at h
  split at h
  . next hrest =>
    cases h
    exact .inl ⟨hrest, rfl, rfl⟩
  . next c rest hrest =>
    split at h
    . cases h
    . next lexeme hscan =>
      obtain ⟨⟨after, last⟩, hafter, h⟩ := bind_eq_ok h
      cases h
      exact .inr ⟨c, rest, lexeme, after, hrest, hscan, rfl, hafter⟩

theorem covers_of_scanFrom {before text : List Char} {tokens : List Token} {stop : Position}
    (h : scanFrom (.ofText before) text = .ok (tokens, stop))
    : Covers before text tokens ∧ stop = .ofText (before ++ text) := by
  induction hlength : text.length using Nat.strongRecOn generalizing before text tokens with
  | ind n ih =>
    have hsplit := Lexeme.splitIgnored_append text
    have hskips := Lexeme.skips_splitIgnored text
    obtain ⟨hrest, rfl, rfl⟩ | ⟨c, rest, lexeme, after, hrest, hscan, rfl, hafter⟩ :=
      scanFrom_eq_ok h
    . rw [hrest, List.append_nil] at hsplit
      rw [hsplit] at hskips ⊢
      exact ⟨.stop hskips.1, Position.after_ofText before text⟩
    . have hlt := length_lt_of_scan hrest hscan
      rw [Position.after_ofText, Position.after_ofText] at hafter
      obtain ⟨hcovers, rfl⟩ := ih _ (hlength ▸ hlt) hafter rfl
      generalize (Lexeme.splitIgnored text).1 = gap at *
      rw [hrest, ← Lexeme.scan_append hscan] at hsplit
      subst hsplit
      refine ⟨.token (hskips.2 (by simp [hrest])) (Lexeme.spells_of_scan hscan) ?_
        (Position.after_ofText before gap) hcovers, by simp⟩
      intro kind other hother hbegins
      rw [Lexeme.scan_append hscan] at hbegins
      have hle := Lexeme.length_le_of_scan hscan hother hbegins
      rw [← Lexeme.scan_append hscan] at hbegins
      exact List.prefix_of_prefix_length_le hbegins (List.prefix_append _ _) hle

theorem Covers.pairwise {before text : List Char} {tokens : List Token}
    (h : Covers before text tokens)
    : (tokens.map Token.position ++ [Position.ofText (before ++ text)]).Pairwise
        Position.Before := by
  have hfrom (p : Position) (hp : p.Before (.ofText before))
      : (p :: (tokens.map Token.position ++ [Position.ofText (before ++ text)])).IsChain
          Position.Before := by
    induction h generalizing p with
    | @stop before gap hgap =>
      have hstop := hp.after gap
      rw [Position.after_ofText] at hstop
      exact .cons_cons hstop (.singleton _)
    | @token before gap spelling rest token tokens hgap hspelling _ hposition _ ih =>
      have htoken := hp.after gap
      rw [Position.after_ofText, ← hposition] at htoken
      have hrest := Position.before_after token.position hspelling.ne_nil
      rw [hposition, Position.after_ofText, ← hposition] at hrest
      have hchain := ih token.position hrest
      rw [List.append_assoc (before ++ gap), List.append_assoc before] at hchain
      exact .cons_cons htoken hchain
  have hzero : Position.Before ⟨0, 0⟩ (.ofText before) := .inl (Nat.add_pos_left Nat.one_pos _)
  exact (hfrom _ hzero).tail.pairwise

/--
The tokens of a text, without a byte order mark at its beginning, cover it. Their positions
increase, and the end comes after them all.
-/
theorem covers_of_ofText {text : String} {tokens : Tokens} (h : ofText text = .ok tokens)
    : Covers [] (stripMark text.toList) tokens.rest
        ∧ tokens.stop = .ofText (stripMark text.toList)
        ∧ (tokens.rest.map Token.position ++ [tokens.stop]).Pairwise Position.Before := by
  obtain ⟨⟨rest, stop⟩, hscan, h⟩ := bind_eq_ok h
  cases h
  have hscan : scanFrom (.ofText []) (stripMark text.toList) = .ok (rest, stop) := hscan
  obtain ⟨hcovers, rfl⟩ := covers_of_scanFrom hscan
  exact ⟨hcovers, rfl, hcovers.pairwise⟩

theorem covers_of_ofText_float
    : let text := "\ufeff\x7ba #b\n\"\\n\" -1.5E2"
      let tokens : List Token :=
        [ ⟨.punctuator .braceL, ⟨1, 1⟩⟩, ⟨.name "a", ⟨1, 2⟩⟩, ⟨.string "\n", ⟨2, 1⟩⟩,
          ⟨.float "-1.5e2", ⟨2, 6⟩⟩
        ]
      ofText text = .ok ⟨tokens, ⟨2, 12⟩⟩ ∧ Covers [] (stripMark text.toList) tokens
        ∧ ⟨2, 12⟩ = Position.ofText (stripMark text.toList)
        ∧ (tokens.map Token.position ++ [Position.mk 2 12]).Pairwise Position.Before := by
  intro text tokens
  have hscan : ofText text = .ok ⟨tokens, ⟨2, 12⟩⟩ := by
    decide +kernel
  exact ⟨hscan, covers_of_ofText hscan⟩

end Tokens

end GraphGateway
