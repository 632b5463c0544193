import GraphGateway.Proofs.Document.Grammar

/-!
This module contains what it means that a parser reads the phrases of some kind, and that loops over
such a parser read sequences of its phrases.
-/

namespace GraphGateway

namespace Tokens

def prepend (taken : List Token) (tokens : Tokens) : Tokens :=
  { tokens with rest := taken ++ tokens.rest }

theorem prepend_nil (tokens : Tokens) : prepend [] tokens = tokens := rfl

theorem prepend_cons (token : Token) (taken : List Token) (tokens : Tokens)
    : prepend (token :: taken) tokens = prepend [token] (prepend taken tokens) := rfl

theorem prepend_append (first second : List Token) (tokens : Tokens)
    : prepend (first ++ second) tokens = prepend first (prepend second tokens) := by
  simp [prepend]

theorem head?_prepend_cons (token : Token) (taken : List Token) (tokens : Tokens)
    : (prepend (token :: taken) tokens).head? = some token.kind := rfl

end Tokens

namespace Parser

open Tokens (prepend prepend_append)

variable {α β : Type}

theorem run_bind_eq_ok_iff {p : Parser α} {f : α → Parser β} {tokens after : Tokens} {y : β}
    : (p >>= f).run tokens = .ok (y, after)
        ↔ ∃ x middle, p.run tokens = .ok (x, middle) ∧ (f x).run middle = .ok (y, after) := by
  rw [StateT.run_bind]
  constructor
  . intro h
    obtain ⟨⟨x, middle⟩, hp, h⟩ := bind_eq_ok h
    exact ⟨x, middle, hp, h⟩
  . rintro ⟨x, middle, hp, h⟩
    rw [hp]
    exact h

theorem run_bind {p : Parser α} {tokens middle : Tokens} {x : α}
    (h : p.run tokens = .ok (x, middle)) (f : α → Parser β)
    : (p >>= f).run tokens = (f x).run middle := by
  rw [StateT.run_bind, h]
  rfl

theorem run_peek (f : Option Token.Kind → Parser β) (tokens : Tokens)
    : (peek >>= f).run tokens = (f tokens.head?).run tokens := rfl

theorem run_advance (token : Token) (taken : List Token) (after : Tokens)
    : advance.run (prepend (token :: taken) after) = .ok ((), prepend taken after) := rfl

theorem run_isNext (p : Punctuator) (tokens : Tokens)
    : (isNext p).run tokens = .ok (decide (tokens.head? = some (.punctuator p)), tokens) := rfl

theorem exists_token_of_head? {tokens : Tokens} {kind : Token.Kind} (h : tokens.head? = some kind)
    : ∃ position rest, tokens = prepend [⟨kind, position⟩] rest ∧ tokens.position = position
        ∧ (advance.run tokens = .ok ((), rest)) := by
  obtain ⟨tokens, stop⟩ := tokens
  cases tokens with
  | nil => cases h
  | cons token rest =>
    obtain ⟨kind', position⟩ := token
    cases h
    exact ⟨position, ⟨rest, stop⟩, rfl, rfl, rfl⟩

theorem run_skip_next (p : Punctuator) (position : Position) (after : Tokens)
    : (skip p).run (prepend [⟨.punctuator p, position⟩] after) = .ok (true, after) := by
  unfold skip
  rw [run_bind (run_isNext _ _), Tokens.head?_prepend_cons, decide_eq_true rfl]
  rfl

theorem run_skip_other {p : Punctuator} {tokens : Tokens}
    (h : tokens.head? ≠ some (.punctuator p))
    : (skip p).run tokens = .ok (false, tokens) := by
  unfold skip
  rw [run_bind (run_isNext _ _), decide_eq_false h]
  rfl

theorem skip_eq_ok {p : Punctuator} {tokens after : Tokens} {b : Bool}
    (h : (skip p).run tokens = .ok (b, after))
    : b = true ∧ (∃ position, tokens = prepend [⟨.punctuator p, position⟩] after)
        ∨ b = false ∧ tokens = after := by
  by_cases hhead : tokens.head? = some (.punctuator p)
  . obtain ⟨position, rest, rfl, _⟩ := exists_token_of_head? hhead
    rw [run_skip_next] at h
    cases h
    exact .inl ⟨rfl, position, rfl⟩
  . rw [run_skip_other hhead] at h
    cases h
    exact .inr ⟨rfl, rfl⟩

theorem run_expect (p : Punctuator) (position : Position) (after : Tokens)
    : (expect p).run (prepend [⟨.punctuator p, position⟩] after) = .ok (position, after) := by
  unfold expect
  rw [run_bind (run_isNext _ _), Tokens.head?_prepend_cons, decide_eq_true rfl]
  rfl

theorem expect_eq_ok {p : Punctuator} {tokens after : Tokens} {position : Position}
    (h : (expect p).run tokens = .ok (position, after))
    : tokens = prepend [⟨.punctuator p, position⟩] after := by
  by_cases hhead : tokens.head? = some (.punctuator p)
  . obtain ⟨position, rest, rfl, _⟩ := exists_token_of_head? hhead
    rw [run_expect] at h
    cases h
    rfl
  . unfold expect at h
    rw [run_bind (run_isNext _ _), decide_eq_false hhead] at h
    cases h

theorem run_expectName (name : String) (position : Position) (after : Tokens)
    : expectName.run (prepend [⟨.name name, position⟩] after) = .ok (name, after) := rfl

theorem expectName_eq_ok {tokens after : Tokens} {name : String}
    (h : expectName.run tokens = .ok (name, after))
    : ∃ position, tokens = prepend [⟨.name name, position⟩] after := by
  unfold expectName at h
  rw [run_peek] at h
  split at h
  . next hhead =>
    obtain ⟨position, rest, rfl, _⟩ := exists_token_of_head? hhead
    cases h
    exact ⟨position, rfl⟩
  . cases h

/--
A parser reads the phrases of a kind: whatever it takes is such a phrase, and it takes the whole of
a phrase that is followed by a token at which it stops.
-/
structure Reads (p : Parser α) (Phrase : List Token → α → Prop) (Stops : Option Token.Kind → Prop)
    : Prop where
  sound : ∀ {tokens after : Tokens} {x : α}, p.run tokens = .ok (x, after) →
    ∃ taken, tokens = prepend taken after ∧ Phrase taken x
  complete : ∀ {taken : List Token} {x : α} (after : Tokens), Phrase taken x → Stops after.head? →
    p.run (prepend taken after) = .ok (x, after)

theorem Reads.congr {p : Parser α} {Phrase Other : List Token → α → Prop}
    {Stops : Option Token.Kind → Prop} (h : p.Reads Phrase Stops)
    (hphrase : ∀ tokens x, Phrase tokens x ↔ Other tokens x)
    : p.Reads Other Stops := by
  constructor
  . intro tokens after x hrun
    obtain ⟨taken, htokens, hx⟩ := h.sound hrun
    exact ⟨taken, htokens, (hphrase _ _).mp hx⟩
  . intro taken x after hx hstops
    exact h.complete after ((hphrase _ _).mpr hx) hstops

def Within (Phrase : List Token → α → Prop) (depth : α → Nat) (levels : Nat)
    (tokens : List Token) (x : α)
    : Prop :=
  Phrase tokens x ∧ depth x ≤ levels

theorem phrases_within_iff {Phrase : List Token → α → Prop} {depth : α → Nat} {levels : Nat}
    {tokens : List Token} {xs : List α}
    : Phrases (Within Phrase depth levels) tokens xs
        ↔ Within (Phrases Phrase) (greatest depth) levels tokens xs := by
  unfold Within
  rw [greatest_le_iff]
  constructor
  . intro h
    induction h with
    | nil => exact ⟨.nil, by simp⟩
    | cons hfirst _ ih => exact ⟨.cons hfirst.1 ih.1, by simpa using ⟨hfirst.2, ih.2⟩⟩
  . rintro ⟨h, hdepth⟩
    induction h with
    | nil => exact .nil
    | cons hfirst _ ih =>
      rw [List.forall_mem_cons] at hdepth
      exact .cons ⟨hfirst, hdepth.1⟩ (ih hdepth.2)

theorem parenthesized_within_iff {Phrase : List Token → α → Prop} {depth : α → Nat}
    {levels : Nat} {tokens : List Token} {xs : List α}
    : Parenthesized (Within Phrase depth levels) tokens xs
        ↔ Within (Parenthesized Phrase) (greatest depth) levels tokens xs := by
  constructor
  . rintro (- | ⟨hne, h⟩)
    . exact ⟨.absent, Nat.zero_le _⟩
    . obtain ⟨h, hdepth⟩ := phrases_within_iff.mp h
      exact ⟨.present hne h, hdepth⟩
  . rintro ⟨- | ⟨hne, h⟩, hdepth⟩
    . exact .absent
    . exact .present hne (phrases_within_iff.mpr ⟨h, hdepth⟩)

/-- Phrases of a kind have at least one token, and the first one is of some kind. -/
def Begins (Phrase : List Token → α → Prop) (P : Token.Kind → Prop) : Prop :=
  ∀ tokens x, Phrase tokens x → ∃ token rest, tokens = token :: rest ∧ P token.kind

theorem Begins.mono {Phrase : List Token → α → Prop} {P Q : Token.Kind → Prop}
    (h : Begins Phrase P) (hPQ : ∀ kind, P kind → Q kind)
    : Begins Phrase Q := by
  intro tokens x hphrase
  obtain ⟨token, rest, rfl, hkind⟩ := h _ _ hphrase
  exact ⟨token, rest, rfl, hPQ _ hkind⟩

theorem Begins.within {Phrase : List Token → α → Prop} {P : Token.Kind → Prop}
    (h : Begins Phrase P) (depth : α → Nat) (levels : Nat)
    : Begins (Within Phrase depth levels) P := by
  rintro tokens x ⟨hphrase, _⟩
  exact h _ _ hphrase

theorem Begins.length_le {Phrase : List Token → α → Prop} {P : Token.Kind → Prop}
    (h : Begins Phrase P) {tokens : List Token} {xs : List α} (hxs : Phrases Phrase tokens xs)
    : xs.length ≤ tokens.length := by
  induction hxs with
  | nil => exact Nat.le_refl _
  | cons hfirst _ ih =>
    obtain ⟨token, rest, rfl, _⟩ := h _ _ hfirst
    simp only [List.length_cons, List.length_append]
    omega

theorem head?_prepend {taken : List Token} {after : Tokens} {Q : Option Token.Kind → Prop}
    (htaken : ∀ token ∈ taken.head?, Q (some token.kind)) (hafter : Q after.head?)
    : Q (prepend taken after).head? := by
  cases taken with
  | nil => exact hafter
  | cons token rest => exact htaken token rfl

theorem Begins.head?_phrases {Phrase : List Token → α → Prop} {P : Token.Kind → Prop}
    (h : Begins Phrase P) {tokens : List Token} {xs : List α} (hxs : Phrases Phrase tokens xs)
    : ∀ token ∈ tokens.head?, P token.kind := by
  cases hxs with
  | nil => simp
  | cons hfirst _ =>
    obtain ⟨token, rest, rfl, hkind⟩ := h _ _ hfirst
    simpa using hkind

theorem Begins.head?_optionally {Phrase : List Token → α → Prop} {P : Token.Kind → Prop}
    (h : Begins Phrase P) {tokens : List Token} {x : Option α} (hx : Optionally Phrase tokens x)
    : ∀ token ∈ tokens.head?, P token.kind := by
  cases hx with
  | absent => simp
  | present hx =>
    obtain ⟨token, rest, rfl, hkind⟩ := h _ _ hx
    simpa using hkind

theorem head?_parenthesized {Phrase : List Token → α → Prop} {tokens : List Token}
    {xs : List α} (hxs : Parenthesized Phrase tokens xs)
    : ∀ token ∈ tokens.head?, token.kind = .punctuator .parenL := by
  cases hxs <;> simp

inductive Closed (Phrase : List Token → α → Prop) (close : Punctuator)
    : List Token → List α → Prop where
  | mk {tokens : List Token} {xs : List α} {stop : Position} (h : Phrases Phrase tokens xs)
    : Closed Phrase close (tokens ++ [⟨.punctuator close, stop⟩]) xs

section Loops

variable {Phrase : List Token → α → Prop} {Stops : Option Token.Kind → Prop} {item : Parser α}
  {close opening : Punctuator}

theorem Closed.singleton {tokens : List Token} {x : α} (hx : Phrase tokens x) (stop : Position)
    : Closed Phrase close (tokens ++ [⟨.punctuator close, stop⟩]) [x] := by
  have h : Phrases Phrase tokens [x] := List.append_nil tokens ▸ .cons hx .nil
  exact .mk h

theorem Closed.cons {first rest : List Token} {x : α} {xs : List α} (hx : Phrase first x)
    (hxs : Closed Phrase close rest xs)
    : Closed Phrase close (first ++ rest) (x :: xs) := by
  cases hxs with
  | mk hxs =>
    rw [← List.append_assoc]
    exact .mk (.cons hx hxs)

theorem someUntil_go_sound (hitem : item.Reads Phrase Stops) {rounds : List Token}
    {tokens after : Tokens} {xs : List α}
    (h : (someUntil.go close item rounds).run tokens = .ok (xs, after))
    : ∃ taken, tokens = prepend taken after ∧ xs ≠ [] ∧ Closed Phrase close taken xs := by
  unfold someUntil.go at h
  simp only [run_bind_eq_ok_iff] at h
  obtain ⟨first, middle, hfirst, closes, last, hskip, h⟩ := h
  obtain ⟨taken, rfl, hphrase⟩ := hitem.sound hfirst
  obtain ⟨rfl, stop, rfl⟩ | ⟨rfl, rfl⟩ := skip_eq_ok hskip
  . cases h
    exact ⟨_, (prepend_append ..).symm, List.cons_ne_nil _ _, .singleton hphrase stop⟩
  . cases rounds with
    | nil => cases h
    | cons token left =>
      simp only [Bool.false_eq_true, if_false, run_bind_eq_ok_iff] at h
      obtain ⟨others, last, hothers, h⟩ := h
      cases h
      obtain ⟨rest, rfl, _, hrest⟩ := someUntil_go_sound hitem hothers
      exact ⟨_, (prepend_append ..).symm, List.cons_ne_nil _ _, .cons hphrase hrest⟩
termination_by rounds.length

theorem someUntil_go_complete (hitem : item.Reads Phrase Stops)
    (hbegins : Begins Phrase fun kind => kind ≠ .punctuator close ∧ Stops (some kind))
    (hclose : Stops (some (.punctuator close))) {tokens : List Token} {x : α} {xs : List α}
    (hxs : Phrases Phrase tokens (x :: xs)) {rounds : List Token}
    (hlength : xs.length ≤ rounds.length) (stop : Position) (after : Tokens)
    : (someUntil.go close item rounds).run
        (prepend tokens (prepend [⟨.punctuator close, stop⟩] after))
        = .ok (x :: xs, after) := by
  induction xs generalizing tokens x rounds with
  | nil =>
    obtain - | ⟨hfirst, - | -⟩ := hxs
    unfold someUntil.go
    rw [List.append_nil,
      run_bind (hitem.complete (prepend [⟨.punctuator close, stop⟩] after) hfirst hclose),
      run_bind (run_skip_next _ _ _)]
    rfl
  | cons y ys ih =>
    cases hxs with
    | @cons first rest _ _ hfirst hrest =>
      cases rounds with
      | nil => cases hlength
      | cons token rounds =>
        have hstops : Stops (prepend rest (prepend [⟨.punctuator close, stop⟩] after)).head? :=
          head?_prepend (fun token htoken => (hbegins.head?_phrases hrest token htoken).2) hclose
        have hother : (prepend rest (prepend [⟨.punctuator close, stop⟩] after)).head?
            ≠ some (.punctuator close) := by
          obtain - | ⟨hsecond, _⟩ := hrest
          obtain ⟨token, tokens, rfl, hne, _⟩ := hbegins _ _ hsecond
          simpa [Tokens.head?_prepend_cons] using hne
        unfold someUntil.go
        rw [prepend_append, run_bind (hitem.complete _ hfirst hstops),
          run_bind (run_skip_other hother)]
        simp only [Bool.false_eq_true, if_false]
        rw [run_bind (ih hrest (Nat.le_of_succ_le_succ hlength))]
        rfl

theorem reads_someUntil (hitem : item.Reads Phrase Stops)
    (hbegins : Begins Phrase fun kind => kind ≠ .punctuator close ∧ Stops (some kind))
    (hclose : Stops (some (.punctuator close)))
    : (someUntil close item).Reads
        (fun tokens xs => xs ≠ [] ∧ Closed Phrase close tokens xs) (fun _ => True) := by
  constructor
  . intro tokens after xs h
    exact someUntil_go_sound hitem h
  . rintro taken xs after ⟨hne, hclosed⟩ _
    cases hclosed with
    | @mk tokens _ stop hxs =>
      obtain ⟨x, others, rfl⟩ := List.exists_cons_of_ne_nil hne
      -- Every item takes a token, so that the rounds do not run out.
      have hlength := hbegins.length_le hxs
      rw [prepend_append]
      apply someUntil_go_complete hitem hbegins hclose hxs
      simp only [Tokens.prepend, List.length_cons, List.length_append] at hlength ⊢
      omega

theorem manyUntil_sound (hitem : item.Reads Phrase Stops) {tokens after : Tokens} {xs : List α}
    (h : (manyUntil close item).run tokens = .ok (xs, after))
    : ∃ taken, tokens = prepend taken after ∧ Closed Phrase close taken xs := by
  unfold manyUntil at h
  simp only [run_bind_eq_ok_iff] at h
  obtain ⟨closes, middle, hskip, h⟩ := h
  obtain ⟨rfl, position, rfl⟩ | ⟨rfl, rfl⟩ := skip_eq_ok hskip
  . cases h
    exact ⟨_, rfl, @Closed.mk _ _ _ [] [] position .nil⟩
  . obtain ⟨taken, rfl, _, hclosed⟩ := someUntil_go_sound hitem h
    exact ⟨taken, rfl, hclosed⟩

theorem reads_manyUntil (hitem : item.Reads Phrase Stops)
    (hbegins : Begins Phrase fun kind => kind ≠ .punctuator close ∧ Stops (some kind))
    (hclose : Stops (some (.punctuator close)))
    : (manyUntil close item).Reads (Closed Phrase close) (fun _ => True) := by
  have hsome := reads_someUntil hitem hbegins hclose
  constructor
  . intro tokens after xs h
    exact manyUntil_sound hitem h
  . intro taken xs after hclosed _
    unfold manyUntil
    cases xs with
    | nil =>
      obtain ⟨- | -⟩ := hclosed
      rw [List.nil_append, run_bind (run_skip_next _ _ _)]
      rfl
    | cons x xs =>
      have hother : (prepend taken after).head? ≠ some (.punctuator close) := by
        obtain ⟨- | ⟨hfirst, _⟩⟩ := hclosed
        obtain ⟨token, rest, rfl, hne, _⟩ := hbegins _ _ hfirst
        simpa [Tokens.head?_prepend_cons] using hne
      rw [run_bind (run_skip_other hother)]
      exact hsome.complete after ⟨List.cons_ne_nil _ _, hclosed⟩ trivial

theorem manyFrom_go_sound (hitem : item.Reads Phrase Stops) {rounds : List Token}
    {tokens after : Tokens} {xs : List α}
    (h : (manyFrom.go opening item rounds).run tokens = .ok (xs, after))
    : ∃ taken, tokens = prepend taken after ∧ Phrases Phrase taken xs := by
  induction rounds generalizing tokens xs with
  | nil =>
    cases h
    exact ⟨[], rfl, .nil⟩
  | cons token rounds ih =>
    unfold manyFrom.go at h
    rw [run_bind (run_isNext _ _)] at h
    split at h
    . simp only [run_bind_eq_ok_iff] at h
      obtain ⟨first, middle, hfirst, others, last, hothers, h⟩ := h
      cases h
      obtain ⟨taken, rfl, hphrase⟩ := hitem.sound hfirst
      obtain ⟨rest, rfl, hrest⟩ := ih hothers
      exact ⟨_, (prepend_append ..).symm, .cons hphrase hrest⟩
    . cases h
      exact ⟨[], rfl, .nil⟩

theorem manyFrom_go_complete (hitem : item.Reads Phrase Stops)
    (hbegins : Begins Phrase fun kind => kind = .punctuator opening)
    (hopening : Stops (some (.punctuator opening))) {tokens : List Token} {xs : List α}
    (hxs : Phrases Phrase tokens xs) {rounds : List Token} (hlength : xs.length ≤ rounds.length)
    {after : Tokens} (hother : after.head? ≠ some (.punctuator opening))
    (hstops : Stops after.head?)
    : (manyFrom.go opening item rounds).run (prepend tokens after) = .ok (xs, after) := by
  induction hxs generalizing rounds with
  | nil =>
    cases rounds with
    | nil => rfl
    | cons token rounds =>
      unfold manyFrom.go
      rw [run_bind (run_isNext _ _), Tokens.prepend_nil, decide_eq_false hother]
      rfl
  | @cons first rest x xs hfirst hrest ih =>
    cases rounds with
    | nil => cases hlength
    | cons token rounds =>
      have hnext : Stops (prepend rest after).head? :=
        head?_prepend (fun token htoken => hbegins.head?_phrases hrest token htoken ▸ hopening)
          hstops
      have hhead : (prepend (first ++ rest) after).head? = some (.punctuator opening) := by
        obtain ⟨token, tokens, rfl, hkind⟩ := hbegins _ _ hfirst
        rw [List.cons_append, Tokens.head?_prepend_cons, hkind]
      unfold manyFrom.go
      rw [run_bind (run_isNext _ _), decide_eq_true hhead, prepend_append, if_pos rfl,
        run_bind (hitem.complete _ hfirst hnext), run_bind (ih (Nat.le_of_succ_le_succ hlength))]
      rfl

theorem reads_manyFrom (hitem : item.Reads Phrase Stops)
    (hbegins : Begins Phrase fun kind => kind = .punctuator opening)
    (hopening : Stops (some (.punctuator opening)))
    : (manyFrom opening item).Reads (Phrases Phrase)
        (fun next => next ≠ some (.punctuator opening) ∧ Stops next) := by
  constructor
  . intro tokens after xs h
    exact manyFrom_go_sound hitem h
  . rintro taken xs after hxs ⟨hother, hstops⟩
    have hlength := hbegins.length_le hxs
    refine manyFrom_go_complete hitem hbegins hopening hxs ?_ hother hstops
    simp only [Tokens.prepend, List.length_append]
    omega

theorem parenthesized_sound (hitem : item.Reads Phrase Stops) {tokens after : Tokens} {xs : List α}
    (h : (do if ← skip .parenL then someUntil .parenR item else return []
        : Parser (List α)).run tokens
      = .ok (xs, after))
    : ∃ taken, tokens = prepend taken after ∧ Parenthesized Phrase taken xs := by
  simp only [run_bind_eq_ok_iff] at h
  obtain ⟨opens, middle, hskip, h⟩ := h
  obtain ⟨rfl, position, rfl⟩ | ⟨rfl, rfl⟩ := skip_eq_ok hskip
  . obtain ⟨taken, rfl, hne, ⟨hxs⟩⟩ := someUntil_go_sound hitem h
    exact ⟨_, rfl, .present hne hxs⟩
  . cases h
    exact ⟨[], rfl, .absent⟩

theorem reads_parenthesized (hitem : item.Reads Phrase Stops)
    (hbegins : Begins Phrase fun kind => kind ≠ .punctuator .parenR ∧ Stops (some kind))
    (hclose : Stops (some (.punctuator .parenR)))
    : (do if ← skip .parenL then someUntil .parenR item else return [] : Parser (List α)).Reads
        (Parenthesized Phrase) (fun next => next ≠ some (.punctuator .parenL)) := by
  have hsome := reads_someUntil hitem hbegins hclose
  constructor
  . intro tokens after xs h
    exact parenthesized_sound hitem h
  . intro taken xs after hphrase hother
    cases hphrase with
    | absent =>
      rw [Tokens.prepend_nil, run_bind (run_skip_other hother)]
      rfl
    | present hne hxs =>
      rw [Tokens.prepend_cons, run_bind (run_skip_next _ _ _)]
      exact hsome.complete after ⟨hne, .mk hxs⟩ trivial

end Loops

end Parser
end GraphGateway
