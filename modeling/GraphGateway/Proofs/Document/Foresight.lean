import GraphGateway.Proofs.Document.Recognition

/-!
This module contains what it means that a parser decides by the next token alone: where it does not
accept a token, the tokens before it can be completed, and whatever comes after that token, it is
not accepted. Sequences of such parsers, and loops over them, decide in the same way.
-/

namespace GraphGateway

def SyntaxError.Finds (e : SyntaxError) (found : Option Token.Kind) : Prop :=
  e.cause = .unexpectedToken found ∨ ∃ expected, e.cause = .expectedToken expected found

namespace Tokens

def Alike (tokens others : Tokens) : Prop :=
  tokens.rest.head? = others.rest.head? ∧ tokens.stop = others.stop

theorem Alike.refl (tokens : Tokens) : tokens.Alike tokens := ⟨rfl, rfl⟩

theorem Alike.prepend {tokens others : Tokens} (h : tokens.Alike others) (taken : List Token)
    : (prepend taken tokens).Alike (prepend taken others) := by
  refine ⟨?_, h.2⟩
  unfold Tokens.prepend
  simp only [List.head?_append, h.1]

theorem Alike.head? {tokens others : Tokens} (h : tokens.Alike others)
    : tokens.head? = others.head? := by
  rw [Tokens.head?, Tokens.head?, h.1]

theorem Alike.position {tokens others : Tokens} (h : tokens.Alike others)
    : tokens.position = others.position := by
  obtain ⟨rest, stop⟩ := tokens
  obtain ⟨rest', stop'⟩ := others
  obtain ⟨hhead, rfl⟩ := h
  cases rest <;> cases rest' <;> cases hhead <;> rfl

theorem Alike.exists_prepend {tokens others : Tokens} {token : Token}
    (h : others.Alike (Tokens.prepend [token] tokens))
    : ∃ rest, others = Tokens.prepend [token] rest := by
  obtain ⟨others, stop⟩ := others
  obtain ⟨hhead, _⟩ := h
  cases others with
  | nil => cases hhead
  | cons first rest =>
    cases hhead
    exact ⟨⟨rest, stop⟩, rfl⟩

theorem prepend_right_injective {first second : List Token} {tokens : Tokens}
    (h : prepend first tokens = prepend second tokens)
    : first = second := by
  have hrest : first ++ tokens.rest = second ++ tokens.rest := congrArg Tokens.rest h
  exact List.append_cancel_right hrest

end Tokens

namespace Parser

open Tokens (prepend prepend_append)

variable {α β : Type}

/--
What `p` does on some tokens, `q` does on all tokens that are the same up to the one that comes
next. If it is a complaint about a token, what was taken before can go on, and the complaint is
about the next token.
-/
structure Decides (p q : Parser α) (Goes : List Token → Prop) (tokens : Tokens) : Prop where
  ok : ∀ {x after}, p.run tokens = .ok (x, after) →
    ∃ taken, tokens = prepend taken after ∧
      ∀ {other : Tokens}, other.Alike after → q.run (prepend taken other) = .ok (x, other)
  error : ∀ {e}, p.run tokens = .error e → e.cause.code = .unexpectedToken →
    ∃ taken after, tokens = prepend taken after ∧ e.position = after.position
      ∧ e.Finds after.head? ∧ (∃ rest, Goes (taken ++ rest))
      ∧ ∀ {other : Tokens}, other.Alike after → q.run (prepend taken other) = .error e

section Rules

variable {p q : Parser α} {f g : α → Parser β} {Goes : List Token → Prop} {tokens : Tokens}

theorem Decides.mono {More : List Token → Prop} (h : Decides p q Goes tokens)
    (hgoes : ∀ taken, Goes taken → ∃ rest, More (taken ++ rest))
    : Decides p q More tokens := by
  refine ⟨h.ok, fun hrun hcode => ?_⟩
  obtain ⟨taken, after, rfl, hposition, hfinds, ⟨rest, hrest⟩, hsame⟩ := h.error hrun hcode
  obtain ⟨more, hmore⟩ := hgoes _ hrest
  exact ⟨taken, after, rfl, hposition, hfinds, ⟨rest ++ more, by rwa [← List.append_assoc]⟩, hsame⟩

theorem Decides.congr {p' q' : Parser α} (h : Decides p q Goes tokens)
    (hp : p'.run tokens = p.run tokens) (hq : ∀ tokens, q'.run tokens = q.run tokens)
    : Decides p' q' Goes tokens := by
  constructor
  . intro x after hrun
    simpa only [hq] using h.ok (hp ▸ hrun)
  . intro e hrun hcode
    simpa only [hq] using h.error (hp ▸ hrun) hcode

theorem run_bind_eq_error {e : SyntaxError} (h : (p >>= f).run tokens = .error e)
    : p.run tokens = .error e
        ∨ ∃ x middle, p.run tokens = .ok (x, middle) ∧ (f x).run middle = .error e := by
  rw [StateT.run_bind] at h
  obtain h | ⟨⟨x, middle⟩, hp, hf⟩ := bind_eq_error h
  . exact .inl h
  . exact .inr ⟨x, middle, hp, hf⟩

theorem run_bind_error {e : SyntaxError} (h : p.run tokens = .error e)
    : (p >>= f).run tokens = .error e := by
  rw [StateT.run_bind, h]
  rfl

theorem Decides.bind (h : Decides p q Goes tokens)
    (hrest : ∀ {x taken after}, p.run tokens = .ok (x, after) → tokens = prepend taken after →
      Decides (f x) (g x) (fun rest => Goes (taken ++ rest)) after)
    : Decides (p >>= f) (q >>= g) Goes tokens := by
  constructor
  . intro y after hrun
    obtain ⟨x, middle, hx, hy⟩ := run_bind_eq_ok_iff.mp hrun
    obtain ⟨first, htokens, hfirst⟩ := h.ok hx
    obtain ⟨second, rfl, hsecond⟩ := (hrest hx htokens).ok hy
    refine ⟨first ++ second, by rw [htokens, prepend_append], fun hother => ?_⟩
    rw [prepend_append, run_bind (hfirst (hother.prepend second)), hsecond hother]
  . intro e hrun hcode
    obtain hp | ⟨x, middle, hx, hf⟩ := run_bind_eq_error hrun
    . obtain ⟨taken, after, htokens, hposition, hfinds, hgoes, hsame⟩ := h.error hp hcode
      exact ⟨taken, after, htokens, hposition, hfinds, hgoes, fun hother =>
        run_bind_error (hsame hother)⟩
    . obtain ⟨first, htokens, hfirst⟩ := h.ok hx
      obtain ⟨second, after, rfl, hposition, hfinds, ⟨rest, hgoes⟩, hsame⟩ :=
        (hrest hx htokens).error hf hcode
      refine ⟨first ++ second, after, by rw [htokens, prepend_append], hposition, hfinds,
        ⟨rest, by rwa [List.append_assoc]⟩, fun hother => ?_⟩
      rw [prepend_append, run_bind (hfirst (hother.prepend second)), hsame hother]

theorem decides_pure (x : α) : Decides (pure x) (pure x) Goes tokens := by
  constructor
  . intro y after hrun
    cases hrun
    exact ⟨[], rfl, fun _ => rfl⟩
  . intro e hrun
    cases hrun

theorem decides_complaint {cause : SyntaxError.Cause}
    (hfinds : SyntaxError.Finds ⟨cause, tokens.position⟩ tokens.head?) (hgoes : ∃ rest, Goes rest)
    (hp : p.run tokens = .error ⟨cause, tokens.position⟩)
    (hq : ∀ {other : Tokens}, other.Alike tokens → q.run other = .error ⟨cause, tokens.position⟩)
    : Decides p q Goes tokens := by
  constructor
  . intro x after hrun
    cases hp.symm.trans hrun
  . intro e hrun _
    cases hp.symm.trans hrun
    exact ⟨[], tokens, rfl, rfl, hfinds, hgoes, hq⟩

theorem decides_fail {cause : SyntaxError.Cause}
    (hfinds : SyntaxError.Finds ⟨cause, tokens.position⟩ tokens.head?) (hgoes : ∃ rest, Goes rest)
    : Decides (fail cause : Parser α) (fail cause) Goes tokens := by
  refine decides_complaint hfinds hgoes rfl fun hother => ?_
  rw [← hother.position]
  rfl

theorem decides_failOther {cause : SyntaxError.Cause} (hcode : cause.code ≠ .unexpectedToken)
    : Decides (fail cause) q Goes tokens := by
  constructor
  . intro x after hrun
    cases hrun
  . intro e hrun hsame
    cases hrun
    exact absurd hsame hcode

theorem decides_unexpected (hgoes : ∃ rest, Goes rest)
    : Decides (unexpected : Parser α) unexpected Goes tokens := by
  refine decides_complaint (.inl rfl) hgoes rfl fun hother => ?_
  rw [← hother.position, ← hother.head?]
  rfl

theorem Decides.look {γ : Type} {r : Parser γ} {f g : γ → Parser β} {view : Tokens → γ}
    (h : Decides (f (view tokens)) (g (view tokens)) Goes tokens)
    (hrun : ∀ tokens, r.run tokens = .ok (view tokens, tokens))
    (hview : ∀ {tokens others : Tokens}, tokens.Alike others → view tokens = view others)
    : Decides (r >>= f) (r >>= g) Goes tokens := by
  constructor
  . intro y after hy
    rw [run_bind (hrun _)] at hy
    obtain ⟨taken, rfl, hsame⟩ := h.ok hy
    refine ⟨taken, rfl, fun hother => ?_⟩
    rw [run_bind (hrun _), hview (hother.prepend taken), hsame hother]
  . intro e he hcode
    rw [run_bind (hrun _)] at he
    obtain ⟨taken, after, rfl, hposition, hfinds, hgoes, hsame⟩ := h.error he hcode
    refine ⟨taken, after, rfl, hposition, hfinds, hgoes, fun hother => ?_⟩
    rw [run_bind (hrun _), hview (hother.prepend taken), hsame hother]

theorem Decides.peek {f g : Option Token.Kind → Parser β}
    (h : Decides (f tokens.head?) (g tokens.head?) Goes tokens)
    : Decides (peek >>= f) (peek >>= g) Goes tokens :=
  h.look (fun _ => rfl) Tokens.Alike.head?

theorem Decides.position {f g : Position → Parser β}
    (h : Decides (f tokens.position) (g tokens.position) Goes tokens)
    : Decides (position >>= f) (position >>= g) Goes tokens :=
  h.look run_position Tokens.Alike.position

theorem Decides.isNext {f g : Bool → Parser β} {p : Punctuator}
    (h : Decides (f (decide (tokens.head? = some (.punctuator p))))
      (g (decide (tokens.head? = some (.punctuator p)))) Goes tokens)
    : Decides (isNext p >>= f) (isNext p >>= g) Goes tokens :=
  h.look (run_isNext p) fun hother => by rw [hother.head?]

theorem Decides.after {p' q' : Parser α} {token : Token} {after : Tokens}
    (h : Decides p q (fun rest => Goes (token :: rest)) after)
    (hp : ∀ after, p'.run (prepend [token] after) = p.run after)
    (hq : ∀ after, q'.run (prepend [token] after) = q.run after)
    : Decides p' q' Goes (prepend [token] after) := by
  constructor
  . intro y last hy
    rw [hp] at hy
    obtain ⟨taken, rfl, hsame⟩ := h.ok hy
    refine ⟨token :: taken, rfl, fun hother => ?_⟩
    rw [Tokens.prepend_cons, hq, hsame hother]
  . intro e he hcode
    rw [hp] at he
    obtain ⟨taken, last, rfl, hposition, hfinds, ⟨rest, hgoes⟩, hsame⟩ := h.error he hcode
    refine ⟨token :: taken, last, rfl, hposition, hfinds, ⟨rest, hgoes⟩, fun hother => ?_⟩
    rw [Tokens.prepend_cons, hq, hsame hother]

theorem Decides.take {γ : Type} {r : Parser γ} {f g : γ → Parser β} {x : γ} {token : Token}
    {after : Tokens} (h : Decides (f x) (g x) (fun rest => Goes (token :: rest)) after)
    (hrun : ∀ after, r.run (prepend [token] after) = .ok (x, after))
    : Decides (r >>= f) (r >>= g) Goes (prepend [token] after) :=
  h.after (fun _ => run_bind (hrun _) _) (fun _ => run_bind (hrun _) _)

theorem decides_expect {p : Punctuator} (hgoes : ∃ rest, Goes rest)
    : Decides (expect p) (expect p) Goes tokens := by
  unfold expect
  refine .isNext ?_
  by_cases hhead : tokens.head? = some (.punctuator p)
  . obtain ⟨start, after, rfl, _⟩ := exists_token_of_head? hhead
    rw [decide_eq_true hhead]
    exact .position (.take (decides_pure _) (run_advance _ []))
  . rw [decide_eq_false hhead]
    exact .peek (decides_fail (.inr ⟨_, rfl⟩) hgoes)

theorem Decides.expect {f g : Position → Parser β} {p : Punctuator} (hgoes : ∃ rest, Goes rest)
    (h : ∀ {start after}, Decides (f start) (g start)
      (fun rest => Goes (⟨.punctuator p, start⟩ :: rest)) after)
    : Decides (expect p >>= f) (expect p >>= g) Goes tokens := by
  refine (decides_expect hgoes).bind fun hrun htaken => ?_
  obtain rfl := expect_eq_ok hrun
  obtain rfl := Tokens.prepend_right_injective htaken
  exact h

theorem decides_expectName (hgoes : ∃ rest, Goes rest)
    : Decides expectName expectName Goes tokens := by
  unfold expectName
  refine .peek ?_
  cases hhead : tokens.head? with
  | none => exact decides_fail (.inr ⟨_, congrArg _ hhead.symm⟩) hgoes
  | some kind =>
    obtain ⟨start, after, rfl, _⟩ := exists_token_of_head? hhead
    cases kind with
    | name name => exact .take (decides_pure _) (run_advance _ [])
    | punctuator | int | float | string =>
      exact decides_fail (.inr ⟨_, rfl⟩) hgoes

theorem Decides.expectName {f g : String → Parser β} (hgoes : ∃ rest, Goes rest)
    (h : ∀ {name start after}, Decides (f name) (g name)
      (fun rest => Goes (⟨.name name, start⟩ :: rest)) after)
    : Decides (expectName >>= f) (expectName >>= g) Goes tokens := by
  refine (decides_expectName hgoes).bind fun hrun htaken => ?_
  obtain ⟨start, rfl⟩ := expectName_eq_ok hrun
  obtain rfl := Tokens.prepend_right_injective htaken
  exact h

theorem decides_expectKeyword {word : String} (hgoes : ∃ rest, Goes rest)
    : Decides (expectKeyword word) (expectKeyword word) Goes tokens := by
  unfold expectKeyword
  refine .peek ?_
  by_cases hhead : tokens.head? = some (.name word)
  . obtain ⟨start, after, rfl, _⟩ := exists_token_of_head? hhead
    rw [if_pos hhead]
    exact .position (.take (decides_pure _) (run_advance _ []))
  . rw [if_neg hhead]
    exact decides_fail (.inr ⟨_, rfl⟩) hgoes

theorem Decides.expectKeyword {f g : Position → Parser β} {word : String}
    (hgoes : ∃ rest, Goes rest)
    (h : ∀ {start after}, Decides (f start) (g start)
      (fun rest => Goes (⟨.name word, start⟩ :: rest)) after)
    : Decides (expectKeyword word >>= f) (expectKeyword word >>= g) Goes tokens := by
  refine (decides_expectKeyword hgoes).bind fun hrun htaken => ?_
  obtain rfl := expectKeyword_eq_ok hrun
  obtain rfl := Tokens.prepend_right_injective htaken
  exact h

theorem Decides.skip {f g : Bool → Parser β} {p : Punctuator}
    (hnext : ∀ {start after}, Decides (f true) (g true)
      (fun rest => Goes (⟨.punctuator p, start⟩ :: rest)) after)
    (hother : Decides (f false) (g false) Goes tokens)
    : Decides (skip p >>= f) (skip p >>= g) Goes tokens := by
  by_cases hhead : tokens.head? = some (.punctuator p)
  . obtain ⟨start, after, rfl, _⟩ := exists_token_of_head? hhead
    exact hnext.take (run_skip_next p start)
  . unfold Parser.skip
    simp only [bind_assoc]
    refine .isNext ?_
    rw [decide_eq_false hhead]
    exact hother

end Rules

def Takes (p : Parser α) : Prop :=
  ∀ {tokens after : Tokens} {x : α}, p.run tokens = .ok (x, after) →
    after.rest.length < tokens.rest.length

theorem Reads.takes {p : Parser α} {Phrase : List Token → α → Prop}
    {Stops : Option Token.Kind → Prop} {P : Token.Kind → Prop} (h : p.Reads Phrase Stops)
    (hbegins : Begins Phrase P)
    : p.Takes := by
  intro tokens after x hrun
  obtain ⟨taken, rfl, hphrase⟩ := h.sound hrun
  obtain ⟨token, rest, rfl, _⟩ := hbegins _ _ hphrase
  simp only [prepend, List.length_append, List.length_cons]
  omega

/--
A parser reads phrases of a kind and decides by the next token how such a phrase goes on, in the
same way as another one does.
-/
structure Predicts (p q : Parser α) (Phrase : List Token → α → Prop) : Prop where
  sound : ∀ {tokens after : Tokens} {x : α}, p.run tokens = .ok (x, after) →
    ∃ taken, tokens = prepend taken after ∧ Phrase taken x
  decides : ∀ tokens, Decides p q (fun taken => ∃ x, Phrase taken x) tokens

theorem Reads.predicts {p q : Parser α} {Phrase : List Token → α → Prop} {depth : α → Nat}
    {levels : Nat} {Stops : Option Token.Kind → Prop}
    (h : p.Reads (Within Phrase depth levels) Stops)
    (hdecides : ∀ tokens, Decides p q (fun taken => ∃ x, Phrase taken x) tokens)
    : Predicts p q Phrase := by
  refine ⟨fun hrun => ?_, hdecides⟩
  obtain ⟨taken, rfl, hphrase, _⟩ := h.sound hrun
  exact ⟨taken, rfl, hphrase⟩

theorem Predicts.reads {p q : Parser α} {Phrase : List Token → α → Prop}
    (h : Predicts p q Phrase)
    : p.Reads Phrase (fun _ => False) :=
  ⟨h.sound, fun _ _ hstops => hstops.elim⟩

theorem Begins.length_lt {Phrase : List Token → α → Prop} {P : Token.Kind → Prop}
    (h : Begins Phrase P) {taken : List Token} {x : α} (hx : Phrase taken x) (after : Tokens)
    : after.rest.length < (prepend taken after).rest.length := by
  obtain ⟨token, rest, rfl, _⟩ := h _ _ hx
  simp only [prepend, List.length_append, List.length_cons]
  omega

theorem Predicts.bind {p q : Parser α} {Phrase : List Token → α → Prop} {f g : α → Parser β}
    {Goes : List Token → Prop} {tokens : Tokens} (h : Predicts p q Phrase)
    (hgoes : ∀ {taken x}, Phrase taken x → ∃ rest, Goes (taken ++ rest))
    (hrest : ∀ {x taken after}, Phrase taken x → tokens = prepend taken after →
      Decides (f x) (g x) (fun rest => Goes (taken ++ rest)) after)
    : Decides (p >>= f) (q >>= g) Goes tokens := by
  refine ((h.decides tokens).mono fun taken ⟨x, hx⟩ => hgoes hx).bind fun hrun htaken => ?_
  obtain ⟨_, rfl, hphrase⟩ := h.sound hrun
  obtain rfl := Tokens.prepend_right_injective htaken
  exact hrest hphrase rfl

section Loops

variable {item other : Parser α} {Phrase : List Token → α → Prop} {P : Token.Kind → Prop}
  {close opening : Punctuator}

theorem run_bind_congr {p : Parser α} {f g : α → Parser β} {tokens : Tokens}
    (h : ∀ {x after}, p.run tokens = .ok (x, after) → (f x).run after = (g x).run after)
    : (p >>= f).run tokens = (p >>= g).run tokens := by
  rw [StateT.run_bind, StateT.run_bind]
  cases hp : p.run tokens with
  | error e => rfl
  | ok result => exact h hp

/--
A loop over the tokens that are left when it begins goes on as it began, since there are rounds
enough if every round takes a token.
-/
theorem run_loop (go : List Token → Parser β) (step : Parser β → Parser β)
    (hgo : ∀ token rounds, go (token :: rounds) = step (go rounds))
    (hnil : ∀ p {tokens : Tokens}, tokens.rest = [] → (go []).run tokens = (step p).run tokens)
    (hstep : ∀ {p q tokens}, (∀ {after : Tokens}, after.rest.length < tokens.rest.length →
      p.run after = q.run after) → (step p).run tokens = (step q).run tokens)
    {loop : Parser β} (hloop : ∀ tokens, loop.run tokens = (go tokens.rest).run tokens)
    (tokens : Tokens)
    : loop.run tokens = (step loop).run tokens := by
  -- More rounds make no difference as soon as there is one for each token.
  have hrounds : ∀ (rounds : List Token) {more : List Token} {tokens : Tokens},
      tokens.rest.length ≤ rounds.length → tokens.rest.length ≤ more.length →
      (go rounds).run tokens = (go more).run tokens := by
    intro rounds
    induction rounds with
    | nil =>
      intro more tokens hrounds _
      have hrest : tokens.rest = [] := List.length_eq_zero_iff.mp (Nat.le_zero.mp hrounds)
      cases more with
      | nil => rfl
      | cons token more => rw [hgo, hnil _ hrest]
    | cons token rounds ih =>
      intro more tokens hrounds hmore
      rw [hgo]
      cases more with
      | nil =>
        have hrest : tokens.rest = [] := List.length_eq_zero_iff.mp (Nat.le_zero.mp hmore)
        exact (hnil _ hrest).symm
      | cons token more =>
        rw [hgo]
        simp only [List.length_cons] at hrounds hmore
        exact hstep fun hless => ih (by omega) (by omega)
  rw [hloop]
  cases hrest : tokens.rest with
  | nil => exact hnil _ hrest
  | cons token rest =>
    rw [hgo]
    refine hstep fun hless => ?_
    rw [hrest, List.length_cons] at hless
    rw [hloop]
    exact hrounds rest (Nat.le_of_lt_succ hless) (Nat.le_refl _)

theorem run_someUntil (h : item.Takes) (tokens : Tokens)
    : (someUntil close item).run tokens
        = (do
            let first ← item
            if ← skip close then return [first]
            else return first :: (← someUntil close item) : Parser (List α)).run tokens := by
  let step (loop : Parser (List α)) : Parser (List α) := do
    let first ← item
    if ← skip close then return [first] else return first :: (← loop)
  refine run_loop (someUntil.go close item) step (fun _ _ => ?_) (fun p {tokens} hrest => ?_)
    (fun {p q tokens} hless => ?_) (fun _ => rfl) tokens
  . rw [someUntil.go]
  . unfold someUntil.go
    refine run_bind_congr fun hitem => ?_
    have htakes := h hitem
    rw [hrest] at htakes
    cases htakes
  . refine run_bind_congr fun hitem => run_bind_congr fun hskip => ?_
    obtain ⟨rfl, _⟩ | ⟨rfl, rfl⟩ := skip_eq_ok hskip
    . rfl
    . simp only [Bool.false_eq_true, if_false]
      rw [StateT.run_bind, StateT.run_bind, hless (h hitem)]

theorem predicts_someUntil (close : Punctuator) (hitem : Predicts item other Phrase)
    (hbegins : Begins Phrase P) (hother : other.Takes)
    : Predicts (someUntil close item) (someUntil close other)
        (fun tokens xs => xs ≠ [] ∧ Closed Phrase close tokens xs) := by
  refine ⟨fun h => someUntil_go_sound hitem.reads h, fun tokens => ?_⟩
  -- The loop goes on with fewer tokens.
  induction hlength : tokens.rest.length using Nat.strongRecOn generalizing tokens with
  | ind length ih =>
    subst hlength
    refine Decides.congr ?_ (run_someUntil (hitem.reads.takes hbegins) tokens)
      (run_someUntil hother)
    refine hitem.bind ?_ ?_
    . intro taken x hx
      exact ⟨_, _, List.cons_ne_nil _ _, .singleton hx .start⟩
    . rintro x taken after hx rfl
      refine .skip (decides_pure _) ?_
      simp only [Bool.false_eq_true, if_false]
      refine ((ih _ (hbegins.length_lt hx after) after rfl).mono ?_).bind fun _ _ => decides_pure _
      rintro others ⟨xs, -, hxs⟩
      exact ⟨[], x :: xs, List.cons_ne_nil _ _, by simpa using .cons hx hxs⟩

theorem predicts_manyUntil (hitem : Predicts item other Phrase) (hbegins : Begins Phrase P)
    (hother : other.Takes)
    : Predicts (manyUntil close item) (manyUntil close other) (Closed Phrase close) := by
  refine ⟨fun h => manyUntil_sound hitem.reads h, fun tokens => ?_⟩
  have hsome := predicts_someUntil close hitem hbegins hother
  unfold manyUntil
  refine .skip (decides_pure _) ((hsome.decides tokens).mono ?_)
  rintro taken ⟨xs, -, hxs⟩
  exact ⟨[], xs, by simpa using hxs⟩

theorem run_manyFrom (h : item.Takes) (tokens : Tokens)
    : (manyFrom opening item).run tokens
        = (do
            if ← isNext opening then
              let first ← item
              return first :: (← manyFrom opening item)
            else return [] : Parser (List α)).run tokens := by
  let step (loop : Parser (List α)) : Parser (List α) := do
    if ← isNext opening then
      let first ← item
      return first :: (← loop)
    else return []
  refine run_loop (manyFrom.go opening item) step (fun _ _ => ?_) (fun p {tokens} hrest => ?_)
    (fun {p q tokens} hless => ?_) (fun _ => rfl) tokens
  . rw [manyFrom.go]
  . have hhead : tokens.head? ≠ some (.punctuator opening) := by simp [Tokens.head?, hrest]
    rw [run_bind (run_isNext _ _), decide_eq_false hhead]
    rfl
  . rw [run_bind (run_isNext _ _), run_bind (run_isNext _ _)]
    split
    . refine run_bind_congr fun hitem => ?_
      rw [StateT.run_bind, StateT.run_bind, hless (h hitem)]
    . rfl

theorem predicts_manyFrom (hitem : Predicts item other Phrase) (hbegins : Begins Phrase P)
    (hother : other.Takes)
    : Predicts (manyFrom opening item) (manyFrom opening other) (Phrases Phrase) := by
  refine ⟨fun h => manyFrom_go_sound hitem.reads h, fun tokens => ?_⟩
  induction hlength : tokens.rest.length using Nat.strongRecOn generalizing tokens with
  | ind length ih =>
    subst hlength
    refine Decides.congr ?_ (run_manyFrom (hitem.reads.takes hbegins) tokens)
      (run_manyFrom hother)
    refine .isNext ?_
    split
    . refine hitem.bind ?_ ?_
      . intro taken x hx
        exact ⟨[], _, .cons hx .nil⟩
      . rintro x taken after hx rfl
        refine ((ih _ (hbegins.length_lt hx after) after rfl).mono ?_).bind
          fun _ _ => decides_pure _
        rintro others ⟨xs, hxs⟩
        exact ⟨[], x :: xs, by simpa using .cons hx hxs⟩
    . exact decides_pure _

theorem predicts_parenthesized (hitem : Predicts item other Phrase) (hbegins : Begins Phrase P)
    (hother : other.Takes)
    : Predicts (do if ← skip .parenL then someUntil .parenR item else return [] : Parser (List α))
        (do if ← skip .parenL then someUntil .parenR other else return [] : Parser (List α))
        (Parenthesized Phrase) := by
  refine ⟨fun h => parenthesized_sound hitem.reads h, fun tokens => ?_⟩
  have hsome := predicts_someUntil .parenR hitem hbegins hother
  refine .skip (fun {start after} => ?_) (decides_pure _)
  refine (hsome.decides after).mono ?_
  rintro taken ⟨xs, hne, ⟨hxs⟩⟩
  exact ⟨[], xs, by simpa using .present hne hxs⟩

end Loops

end Parser
end GraphGateway
