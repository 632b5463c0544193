import GraphGateway.Proofs.Document.Descent
import GraphGateway.Proofs.Document.Reads

/-!
This module contains what it means that a descent does what a parser does and keeps within bounds,
and the proof that loops do so. A loop of the parser has no more rounds than there are tokens; that
of the descent does not run out of fuel since each of its rounds takes a token.
-/

namespace GraphGateway

namespace Parser

variable {α : Type}

def untilClosed (closed : Parser Bool) (item : Parser α) (rounds : List Token)
    : Parser (List α) := do
  let first ← item
  if ← closed then
    return [first]
  else
    match rounds with
    | [] => unexpected
    | _ :: rounds => return first :: (← untilClosed closed item rounds)

theorem someUntil_go_eq (close : Punctuator) (item : Parser α) (rounds : List Token)
    : someUntil.go close item rounds = untilClosed (skip close) item rounds := by
  induction rounds with
  | nil => rfl
  | cons token rounds ih =>
    rw [someUntil.go, untilClosed]
    simp only [ih]

def untilSkipped (close : Punctuator) (item : Parser α) (rounds : List Token)
    : Parser (List α) := do
  if ← skip close then
    return []
  else
    someUntil.go close item rounds

theorem someUntil_go_cons (close : Punctuator) (item : Parser α) (token : Token)
    (rounds : List Token)
    : someUntil.go close item (token :: rounds)
        = do return (← item) :: (← untilSkipped close item rounds) := by
  rw [someUntil.go]
  refine bind_congr fun first => ?_
  unfold untilSkipped
  rw [bind_assoc]
  refine bind_congr fun closes => ?_
  cases closes with
  | true => rfl
  | false => rfl

theorem run_manyUntil (close : Punctuator) (item : Parser α) (tokens : Tokens)
    : (manyUntil close item).run tokens = (untilSkipped close item tokens.rest).run tokens := by
  unfold manyUntil untilSkipped
  by_cases hhead : tokens.head? = some (.punctuator close)
  . obtain ⟨position, rest, rfl, -, -⟩ := exists_token_of_head? hhead
    rw [run_bind (run_skip_next ..), run_bind (run_skip_next ..)]
    rfl
  . rw [run_bind (run_skip_other hhead), run_bind (run_skip_other hhead)]
    rfl

end Parser

namespace Descent

open GraphGateway.Parser (maxDepth)

variable {α β : Type}

/-- Not too many levels are open, and no loop has begun more rounds than it found tokens left. -/
def Note.Bounded : Note → Prop
  | level depth => depth ≤ maxDepth
  | round number left => number ≤ left

/-- The cursor is at a token or at the end, and everything noted is within bounds. -/
structure State.Sound (tokens : Tokens) (s : State) : Prop where
  cursor : s.cursor ≤ tokens.rest.length
  depth : s.depth ≤ maxDepth
  notes : ∀ note ∈ s.notes, note.Bounded

theorem State.sound_start (tokens : Tokens) : State.start.Sound tokens :=
  ⟨Nat.zero_le _, Nat.zero_le _, nofun⟩

/--
A descent ends within bounds, with what a parser gives for the tokens from the cursor on. If that is
a result, the cursor is then at `least` or after it, and `depth` levels are open.
-/
inductive Follows (tokens : Tokens) (depth least : Nat) (m : Descent α) (p : Parser α) (s : State)
    : Prop where
  | ok {x : α} {s' : State} (hm : m.outcome tokens s = some (.ok x, s'))
    (hp : p.run (tokens.from s.cursor) = .ok (x, tokens.from s'.cursor)) (hs : s'.Sound tokens)
    (hdepth : s'.depth = depth) (hleast : least ≤ s'.cursor)
  | error {e : SyntaxError} {s' : State} (hm : m.outcome tokens s = some (.error (.refused e), s'))
    (hp : p.run (tokens.from s.cursor) = .error e) (hs : s'.Sound tokens)

/--
A descent follows a parser from wherever that many levels are left, and takes at
least that many tokens.
-/
def Keeps (tokens : Tokens) (levels least : Nat) (m : Descent α) (p : Parser α) : Prop :=
  ∀ s : State, s.Sound tokens → s.depth + levels = maxDepth →
    Follows tokens s.depth (s.cursor + least) m p s

section Rules

variable {tokens : Tokens} {depth depth' least least' levels : Nat} {m : Descent α} {p : Parser α}
  {f : α → Descent β} {g : α → Parser β} {q : Parser β} {s : State}

theorem outcome_bind_of_ok {x : α} {s' : State} (h : m.outcome tokens s = some (.ok x, s'))
    : (m >>= f).outcome tokens s = (f x).outcome tokens s' := by
  unfold outcome at h ⊢
  rw [ReaderT.run_bind, ExceptT.run_bind, StateT.run_bind, h]
  rfl

theorem outcome_bind_of_error {e : Stop} {s' : State} (h : m.outcome tokens s = some (.error e, s'))
    : (m >>= f).outcome tokens s = some (.error e, s') := by
  unfold outcome at h ⊢
  rw [ReaderT.run_bind, ExceptT.run_bind, StateT.run_bind, h]
  rfl

theorem Follows.bind (h : Follows tokens depth least m p s)
    (hf : ∀ x s', s'.Sound tokens → s'.depth = depth → least ≤ s'.cursor →
      Follows tokens depth' least' (f x) (g x) s')
    : Follows tokens depth' least' (m >>= f) (p >>= g) s := by
  cases h with
  | ok hm hp hs hdepth hleast =>
    have hm := outcome_bind_of_ok (f := f) hm
    have hp := Parser.run_bind hp g
    cases hf _ _ hs hdepth hleast with
    | ok hm' hp' hs' hdepth' hleast' => exact .ok (hm.trans hm') (hp.trans hp') hs' hdepth' hleast'
    | error hm' hp' hs' => exact .error (hm.trans hm') (hp.trans hp') hs'
  | error hm hp hs =>
    refine .error (outcome_bind_of_error hm) ?_ hs
    rw [StateT.run_bind, hp]
    rfl

theorem Follows.mono (h : Follows tokens depth least m p s) (hdepth : depth = depth')
    (hleast : least' ≤ least)
    : Follows tokens depth' least' m p s := by
  subst hdepth
  cases h with
  | ok hm hp hs hdepth hle => exact .ok hm hp hs hdepth (Nat.le_trans hleast hle)
  | error hm hp hs => exact .error hm hp hs

theorem Follows.congr {p' : Parser α} (h : Follows tokens depth least m p s)
    (hrun : p'.run (tokens.from s.cursor) = p.run (tokens.from s.cursor))
    : Follows tokens depth least m p' s := by
  cases h with
  | ok hm hp hs hdepth hle => exact .ok hm (hrun.trans hp) hs hdepth hle
  | error hm hp hs => exact .error hm (hrun.trans hp) hs

/-- A step of the descent that the parser does not make, and that does not move the cursor. -/
theorem Follows.step {x : α} {s' : State} (h : Follows tokens depth least (f x) q s')
    (hm : m.outcome tokens s = some (.ok x, s')) (hcursor : s'.cursor = s.cursor)
    : Follows tokens depth least (m >>= f) q s := by
  have hm := outcome_bind_of_ok (f := f) hm
  cases h with
  | ok hm' hp hs hdepth hle => exact .ok (hm.trans hm') (hcursor ▸ hp) hs hdepth hle
  | error hm' hp hs => exact .error (hm.trans hm') (hcursor ▸ hp) hs

theorem Follows.look {x : α} (h : Follows tokens depth least (f x) (g x) s)
    (hm : m.outcome tokens s = some (.ok x, s))
    (hp : p.run (tokens.from s.cursor) = .ok (x, tokens.from s.cursor))
    : Follows tokens depth least (m >>= f) (p >>= g) s :=
  (h.step hm rfl).congr (Parser.run_bind hp g)

theorem Follows.pure {x : α} (hs : s.Sound tokens) (hdepth : s.depth = depth)
    (hle : least ≤ s.cursor)
    : Follows tokens depth least (pure x) (pure x) s :=
  .ok rfl rfl hs hdepth hle

theorem Keeps.pure {x : α} : Keeps tokens levels 0 (pure x) (pure x) :=
  fun _ hs _ => .pure hs rfl (Nat.le_refl _)

theorem Keeps.mono (h : Keeps tokens levels least m p) (hle : least' ≤ least)
    : Keeps tokens levels least' m p :=
  fun s hs hlevels => (h s hs hlevels).mono rfl (by omega)

theorem Keeps.bind_left (h : Keeps tokens levels least m p)
    (hf : ∀ x, Keeps tokens levels 0 (f x) (g x))
    : Keeps tokens levels least (m >>= f) (p >>= g) := by
  intro s hs hlevels
  refine (h s hs hlevels).bind fun x s' hs' hdepth hle => ?_
  exact (hf x s' hs' (by omega)).mono hdepth hle

theorem Keeps.bind_right (h : Keeps tokens levels least' m p)
    (hf : ∀ x, Keeps tokens levels least (f x) (g x))
    : Keeps tokens levels least (m >>= f) (p >>= g) := by
  intro s hs hlevels
  refine (h s hs hlevels).bind fun x s' hs' hdepth hle => ?_
  exact (hf x s' hs' (by omega)).mono hdepth (by omega)

end Rules

/-! ### The cursor -/

section Cursor

variable {tokens : Tokens} {depth least levels : Nat} {q : Parser β} {s : State} {kind : Token.Kind}

theorem lt_of_head? (h : (tokens.from s.cursor).head? = some kind)
    : s.cursor < tokens.rest.length := by
  refine Nat.lt_of_not_le fun hle => ?_
  have hnil : (tokens.from s.cursor).rest = [] := List.drop_of_length_le hle
  rw [Tokens.head?, hnil] at h
  cases h

theorem head?_eq_none (h : tokens.rest.length ≤ s.cursor)
    : (tokens.from s.cursor).head? = none := by
  have hnil : (tokens.from s.cursor).rest = [] := List.drop_of_length_le h
  rw [Tokens.head?, hnil]
  rfl

def State.next (s : State) : State :=
  { s with cursor := s.cursor + 1 }

theorem State.Sound.next (hs : s.Sound tokens) (h : s.cursor < tokens.rest.length)
    : s.next.Sound tokens :=
  ⟨h, hs.depth, hs.notes⟩

theorem Follows.peek {f : Option Token.Kind → Descent α} {g : Option Token.Kind → Parser α}
    (h : Follows tokens depth least (f (tokens.from s.cursor).head?)
      (g (tokens.from s.cursor).head?) s)
    : Follows tokens depth least (peek >>= f) (Parser.peek >>= g) s :=
  h.look rfl rfl

theorem Follows.position {f : Position → Descent α} {g : Position → Parser α}
    (h : Follows tokens depth least (f (tokens.from s.cursor).position)
      (g (tokens.from s.cursor).position) s)
    : Follows tokens depth least (position >>= f) (Parser.position >>= g) s :=
  h.look rfl rfl

theorem outcome_isNext (p : Punctuator) (tokens : Tokens) (s : State)
    : (isNext p).outcome tokens s
        = some (.ok (decide ((tokens.from s.cursor).head? = some (.punctuator p))), s) := rfl

theorem Follows.isNext {p : Punctuator} {f : Bool → Descent α} {g : Bool → Parser α}
    (h : Follows tokens depth least
      (f (decide ((tokens.from s.cursor).head? = some (.punctuator p))))
      (g (decide ((tokens.from s.cursor).head? = some (.punctuator p)))) s)
    : Follows tokens depth least (isNext p >>= f) (Parser.isNext p >>= g) s :=
  h.look rfl rfl

theorem outcome_advance (tokens : Tokens) (s : State)
    : advance.outcome tokens s
        = some (.ok (), if s.cursor < tokens.rest.length then s.next else s) := rfl

theorem run_advance_from (tokens : Tokens) (cursor : Nat)
    : Parser.advance.run (tokens.from cursor) = .ok ((), tokens.from (cursor + 1)) := by
  have hdrop : (tokens.rest.drop cursor).drop 1 = tokens.rest.drop (cursor + 1) := List.drop_drop
  exact congrArg (fun rest => Except.ok ((), Tokens.mk rest tokens.stop)) hdrop

theorem Follows.advance {f : Unit → Descent α} {g : Unit → Parser α}
    (h : Follows tokens depth least (f ()) (g ()) s.next)
    (hhead : (tokens.from s.cursor).head? = some kind)
    : Follows tokens depth least (advance >>= f) (Parser.advance >>= g) s := by
  have hm := outcome_advance tokens s
  rw [if_pos (lt_of_head? hhead)] at hm
  have hm := outcome_bind_of_ok (f := f) hm
  have hp := Parser.run_bind (run_advance_from tokens s.cursor) g
  cases h with
  | ok hm' hp' hs hdepth hle => exact .ok (hm.trans hm') (hp.trans hp') hs hdepth hle
  | error hm' hp' hs => exact .error (hm.trans hm') (hp.trans hp') hs

theorem Keeps.advance {f : Unit → Descent α} {g : Unit → Parser α}
    (h : Keeps tokens levels 0 (f ()) (g ())) (hs : s.Sound tokens)
    (hlevels : s.depth + levels = maxDepth) (hhead : (tokens.from s.cursor).head? = some kind)
    : Follows tokens s.depth (s.cursor + 1) (Descent.advance >>= f) (Parser.advance >>= g) s :=
  .advance (h s.next (hs.next (lt_of_head? hhead)) hlevels) hhead

theorem follows_fail {cause : SyntaxError.Cause} (hs : s.Sound tokens)
    : Follows tokens depth least (fail cause : Descent α) (Parser.fail cause) s :=
  .error rfl rfl hs

theorem follows_unexpected (hs : s.Sound tokens)
    : Follows tokens depth least (unexpected : Descent α) Parser.unexpected s :=
  .error rfl rfl hs

theorem follows_stop {cause : SyntaxError.Cause} (hs : s.Sound tokens)
    : Follows tokens depth least
        (do
          let start ← Descent.position
          Descent.advance
          stop cause start : Descent α)
        (Parser.fail cause) s := by
  refine .error rfl rfl ?_
  change (if s.cursor < tokens.rest.length then s.next else s).Sound tokens
  split
  . next hlt => exact hs.next hlt
  . exact hs

theorem keeps_position : Keeps tokens levels 0 position Parser.position :=
  fun _ hs _ => .ok rfl rfl hs rfl (Nat.le_refl _)

theorem keeps_peek : Keeps tokens levels 0 peek Parser.peek :=
  fun _ hs _ => .ok rfl rfl hs rfl (Nat.le_refl _)

theorem keeps_isNext (p : Punctuator) : Keeps tokens levels 0 (isNext p) (Parser.isNext p) :=
  fun _ hs _ => .ok rfl rfl hs rfl (Nat.le_refl _)

theorem keeps_skip (p : Punctuator) : Keeps tokens levels 0 (skip p) (Parser.skip p) := by
  intro s hs _
  unfold skip Parser.skip
  refine .isNext ?_
  by_cases hhead : (tokens.from s.cursor).head? = some (.punctuator p)
  . rw [decide_eq_true hhead]
    exact .advance (.pure (hs.next (lt_of_head? hhead)) rfl (Nat.le_succ _)) hhead
  . rw [decide_eq_false hhead]
    exact .pure hs rfl (Nat.le_refl _)

theorem keeps_expect (p : Punctuator) : Keeps tokens levels 1 (expect p) (Parser.expect p) := by
  intro s hs _
  unfold expect Parser.expect
  refine .isNext ?_
  by_cases hhead : (tokens.from s.cursor).head? = some (.punctuator p)
  . rw [decide_eq_true hhead]
    refine .position (.advance ?_ hhead)
    exact .pure (hs.next (lt_of_head? hhead)) rfl (Nat.le_refl _)
  . rw [decide_eq_false hhead]
    exact .peek (follows_fail hs)

theorem keeps_expectName : Keeps tokens levels 1 expectName Parser.expectName := by
  intro s hs _
  unfold expectName Parser.expectName
  refine .peek ?_
  cases hhead : (tokens.from s.cursor).head? with
  | none => exact follows_stop hs
  | some kind =>
    cases kind with
    | name name =>
      refine .step (.advance ?_ hhead) rfl rfl
      exact .pure (hs.next (lt_of_head? hhead)) rfl (Nat.le_refl _)
    | punctuator | int | float | string => exact follows_stop hs

theorem keeps_expectKeyword (word : String)
    : Keeps tokens levels 1 (expectKeyword word) (Parser.expectKeyword word) := by
  intro s hs _
  unfold expectKeyword Parser.expectKeyword
  refine .peek ?_
  by_cases hhead : (tokens.from s.cursor).head? = some (.name word)
  . rw [if_pos hhead, if_pos hhead]
    refine .position (.advance ?_ hhead)
    exact .pure (hs.next (lt_of_head? hhead)) rfl (Nat.le_refl _)
  . rw [if_neg hhead, if_neg hhead]
    exact follows_fail hs

end Cursor

/-! ### Levels and rounds -/

section Steps

variable {tokens : Tokens} {depth least levels : Nat} {q : Parser α} {s : State}

theorem Follows.note {f : Unit → Descent α} {n : Note} (hs : s.Sound tokens) (hn : n.Bounded)
    (h : ∀ s', s'.Sound tokens → s'.depth = s.depth → s'.cursor = s.cursor →
      Follows tokens depth least (f ()) q s')
    : Follows tokens depth least (Descent.note n >>= f) q s := by
  refine (h { s with notes := n :: s.notes } ?_ rfl rfl).step rfl rfl
  exact ⟨hs.cursor, hs.depth, List.forall_mem_cons.mpr ⟨hn, hs.notes⟩⟩

theorem outcome_get (f : State → Descent α) (tokens : Tokens) (s : State)
    : (get >>= f).outcome tokens s = (f s).outcome tokens s := rfl

theorem Follows.descend {f : Unit → Descent α} (hs : s.Sound tokens) (hlt : s.depth < maxDepth)
    (h : ∀ s', s'.Sound tokens → s'.depth = s.depth + 1 → s'.cursor = s.cursor →
      Follows tokens depth least (f ()) q s')
    : Follows tokens depth least (Descent.descend >>= f) q s := by
  have hm : Descent.descend.outcome tokens s
      = some (.ok (), ⟨s.cursor, s.depth + 1, .level (s.depth + 1) :: s.notes⟩) := by
    unfold Descent.descend
    rw [outcome_get, if_neg (Nat.not_le_of_lt hlt)]
    rfl
  refine .step (h _ ?_ ?_ ?_) hm rfl
  . exact ⟨hs.cursor, hlt, List.forall_mem_cons.mpr ⟨hlt, hs.notes⟩⟩
  . rfl
  . rfl

theorem follows_tooDeep {f : Unit → Descent α} (hs : s.Sound tokens) (h : s.depth = maxDepth)
    : Follows tokens depth least (Descent.descend >>= f) (Parser.fail (.tooDeep maxDepth)) s := by
  refine .error ?_ rfl hs
  refine outcome_bind_of_error ?_
  unfold Descent.descend
  rw [outcome_get, if_pos (Nat.le_of_eq h.symm)]
  rfl

theorem Follows.ascend {f : Unit → Descent α} {open' : Nat} (hs : s.Sound tokens)
    (hdepth : s.depth = open' + 1)
    (h : ∀ s', s'.Sound tokens → s'.depth = open' → s'.cursor = s.cursor →
      Follows tokens depth least (f ()) q s')
    : Follows tokens depth least (Descent.ascend >>= f) q s := by
  have hm : Descent.ascend.outcome tokens s = some (.ok (), { s with depth := open' }) := by
    unfold Descent.ascend
    rw [outcome_get, hdepth]
    rfl
  refine .step (h _ ?_ ?_ ?_) hm rfl
  . have hle := hs.depth
    exact ⟨hs.cursor, (by omega : open' ≤ maxDepth), hs.notes⟩
  . rfl
  . rfl

theorem Follows.left {f : Nat → Descent α} (hs : s.Sound tokens)
    (h : ∀ n, n + s.cursor = tokens.rest.length + 1 → Follows tokens depth least (f n) q s)
    : Follows tokens depth least (Descent.left >>= f) q s := by
  have hcursor := hs.cursor
  exact (h (tokens.rest.length + 1 - s.cursor) (by omega)).step rfl rfl

theorem follows_deeper {kind : Token.Kind} {content : Descent α} {content' : Parser α}
    {wrap : α → Descent β} {wrap' : α → Parser β}
    (hcontent : Keeps tokens levels 0 content content')
    (hwrap : ∀ x, Keeps tokens (levels + 1) 0 (wrap x) (wrap' x)) (hs : s.Sound tokens)
    (hlevels : s.depth + (levels + 1) = maxDepth) (hhead : (tokens.from s.cursor).head? = some kind)
    : Follows tokens s.depth (s.cursor + 1)
        (do
          descend
          advance
          let x ← content
          ascend
          wrap x)
        (do
          Parser.advance
          let x ← content'
          wrap' x) s := by
  refine .descend hs (by omega) fun s₁ hs₁ hdepth₁ hcursor₁ => ?_
  rw [← hcursor₁] at hhead
  refine .advance ?_ hhead
  have hnext := hs₁.next (lt_of_head? hhead)
  have hlevels₁ : s₁.next.depth + levels = maxDepth := by
    rw [State.next, hdepth₁]
    omega
  refine (hcontent _ hnext hlevels₁).bind fun x s₂ hs₂ hdepth₂ hcursor₂ => ?_
  refine .ascend hs₂ (hdepth₂.trans hdepth₁) fun s₃ hs₃ hdepth₃ hcursor₃ => ?_
  refine (hwrap x s₃ hs₃ (by omega)).mono hdepth₃ ?_
  rw [hcursor₃, ← hcursor₁]
  exact hcursor₂

end Steps

/-! ### Loops -/

section Loops

variable {tokens : Tokens} {levels left : Nat} {item : Descent α} {p : Parser α} {s : State}
  {rounds : List Token}

theorem length_rest_from (tokens : Tokens) (cursor : Nat)
    : (tokens.from cursor).rest.length = tokens.rest.length - cursor :=
  List.length_drop

theorem follows_untilClosed {closed : Descent Bool} {closed' : Parser Bool} {fuel round : Nat}
    (hitem : Keeps tokens levels 1 item p) (hclosed : Keeps tokens levels 0 closed closed')
    (hs : s.Sound tokens) (hlevels : s.depth + levels = maxDepth)
    (hfuel : tokens.rest.length < s.cursor + fuel)
    (hrounds : tokens.rest.length ≤ s.cursor + rounds.length)
    (hround : tokens.rest.length + round ≤ s.cursor + left)
    : Follows tokens s.depth (s.cursor + 1) (untilClosed closed item left fuel round)
        (Parser.untilClosed closed' p rounds) s := by
  have hcursor := hs.cursor
  induction fuel generalizing s round rounds with
  | zero => omega
  | succ fuel ih =>
    rw [untilClosed, Parser.untilClosed]
    refine .note hs (by omega : round ≤ left) fun s₁ hs₁ hdepth₁ hcursor₁ => ?_
    refine (hitem s₁ hs₁ (hdepth₁ ▸ hlevels)).bind fun first s₂ hs₂ hdepth₂ hcursor₂ => ?_
    refine (hclosed s₂ hs₂ (by omega)).bind fun closes s₃ hs₃ hdepth₃ hcursor₃ => ?_
    have hle := hs₃.cursor
    cases closes with
    | true => exact .pure hs₃ (by omega) (by omega)
    | false =>
      cases rounds with
      | nil =>
        -- There was a token left for this round, and the item took it.
        rw [List.length_nil] at hrounds
        omega
      | cons token rounds =>
        rw [List.length_cons] at hrounds
        have hothers : Follows tokens s₃.depth (s₃.cursor + 1)
            (untilClosed closed item left fuel (round + 1))
            (Parser.untilClosed closed' p rounds) s₃ :=
          ih hs₃ (by omega) (by omega) (by omega) (by omega) hle
        refine hothers.bind fun others s₄ hs₄ hdepth₄ hcursor₄ => ?_
        exact .pure hs₄ (by omega) (by omega)

theorem keeps_untilClosed {closed : Descent Bool} {closed' : Parser Bool} {fuel : Nat}
    (hfuel : tokens.rest.length + levels < fuel) (hitem : Keeps tokens levels 1 item p)
    (hclosed : Keeps tokens levels 0 closed closed')
    : Keeps tokens levels 1 (do untilClosed closed item (← Descent.left) fuel 1)
        (do Parser.untilClosed closed' p (← get).rest) := by
  intro s hs hlevels
  refine .left hs fun left hleft => ?_
  refine .congr (p := Parser.untilClosed closed' p (tokens.from s.cursor).rest) ?_ rfl
  refine follows_untilClosed hitem hclosed hs hlevels (by omega) ?_ (by omega)
  rw [length_rest_from]
  omega

theorem keeps_someUntil {fuel : Nat} (hfuel : tokens.rest.length + levels < fuel)
    (close : Punctuator) (hitem : Keeps tokens levels 1 item p)
    : Keeps tokens levels 1 (someUntil fuel close item) (Parser.someUntil close p) := by
  unfold Parser.someUntil
  simp only [Parser.someUntil_go_eq]
  exact keeps_untilClosed hfuel hitem (keeps_skip close)

theorem follows_untilSkipped {close : Punctuator} {fuel round : Nat}
    (hitem : Keeps tokens levels 1 item p) (hs : s.Sound tokens)
    (hlevels : s.depth + levels = maxDepth) (hfuel : tokens.rest.length < s.cursor + fuel)
    (hrounds : tokens.rest.length ≤ s.cursor + rounds.length)
    (hround : tokens.rest.length + round ≤ s.cursor + left)
    : Follows tokens s.depth s.cursor (untilSkipped close item left fuel round)
        (Parser.untilSkipped close p rounds) s := by
  have hcursor := hs.cursor
  induction fuel generalizing s round rounds with
  | zero => omega
  | succ fuel ih =>
    rw [untilSkipped]
    refine (keeps_skip close s hs hlevels).bind fun closes s₁ hs₁ hdepth₁ hcursor₁ => ?_
    have hle₁ := hs₁.cursor
    cases closes with
    | true => exact .pure hs₁ hdepth₁ hcursor₁
    | false =>
      refine .note hs₁ (by omega : round ≤ left) fun s₂ hs₂ hdepth₂ hcursor₂ => ?_
      have hfirst := hitem s₂ hs₂ (by omega)
      cases rounds with
      | nil =>
        rw [Parser.someUntil.go]
        refine hfirst.bind fun first s₃ hs₃ hdepth₃ hcursor₃ => ?_
        have hle₃ := hs₃.cursor
        rw [List.length_nil] at hrounds
        omega
      | cons token rounds =>
        rw [Parser.someUntil_go_cons]
        refine hfirst.bind fun first s₃ hs₃ hdepth₃ hcursor₃ => ?_
        have hle₃ := hs₃.cursor
        rw [List.length_cons] at hrounds
        have hothers : Follows tokens s₃.depth s₃.cursor
            (untilSkipped close item left fuel (round + 1))
            (Parser.untilSkipped close p rounds) s₃ :=
          ih hs₃ (by omega) (by omega) (by omega) (by omega) hle₃
        refine hothers.bind fun others s₄ hs₄ hdepth₄ hcursor₄ => ?_
        exact .pure hs₄ (by omega) (by omega)

theorem keeps_manyUntil {fuel : Nat} (hfuel : tokens.rest.length + levels < fuel)
    (close : Punctuator) (hitem : Keeps tokens levels 1 item p)
    : Keeps tokens levels 0 (manyUntil fuel close item) (Parser.manyUntil close p) := by
  intro s hs hlevels
  refine .left hs fun left hleft => ?_
  refine .congr (p := Parser.untilSkipped close p (tokens.from s.cursor).rest) ?_
    (Parser.run_manyUntil ..)
  refine follows_untilSkipped hitem hs hlevels (by omega) ?_ (by omega)
  rw [length_rest_from]
  omega

theorem follows_whileNext {opening : Punctuator} {fuel round : Nat}
    (hitem : Keeps tokens levels 1 item p) (hs : s.Sound tokens)
    (hlevels : s.depth + levels = maxDepth) (hfuel : tokens.rest.length < s.cursor + fuel)
    (hrounds : tokens.rest.length ≤ s.cursor + rounds.length)
    (hround : tokens.rest.length + round ≤ s.cursor + left)
    : Follows tokens s.depth s.cursor (whileNext opening item left fuel round)
        (Parser.manyFrom.go opening p rounds) s := by
  have hcursor := hs.cursor
  induction fuel generalizing s round rounds with
  | zero => omega
  | succ fuel ih =>
    rw [whileNext]
    cases rounds with
    | nil =>
      have hm : (isNext opening).outcome tokens s = some (.ok false, s) := by
        rw [outcome_isNext, head?_eq_none hrounds]
        rfl
      exact .step (.pure hs rfl (Nat.le_refl _)) hm rfl
    | cons token rounds =>
      rw [Parser.manyFrom.go]
      refine .isNext ?_
      by_cases hhead : (tokens.from s.cursor).head? = some (.punctuator opening)
      . rw [decide_eq_true hhead]
        refine .note hs (by omega : round ≤ left) fun s₁ hs₁ hdepth₁ hcursor₁ => ?_
        refine (hitem s₁ hs₁ (hdepth₁ ▸ hlevels)).bind fun first s₂ hs₂ hdepth₂ hcursor₂ => ?_
        have hle := hs₂.cursor
        rw [List.length_cons] at hrounds
        have hothers : Follows tokens s₂.depth s₂.cursor
            (whileNext opening item left fuel (round + 1))
            (Parser.manyFrom.go opening p rounds) s₂ :=
          ih hs₂ (by omega) (by omega) (by omega) (by omega) hle
        refine hothers.bind fun others s₃ hs₃ hdepth₃ hcursor₃ => ?_
        exact .pure hs₃ (by omega) (by omega)
      . rw [decide_eq_false hhead]
        exact .pure hs rfl (Nat.le_refl _)

theorem keeps_manyFrom {fuel : Nat} (hfuel : tokens.rest.length + levels < fuel)
    (opening : Punctuator) (hitem : Keeps tokens levels 1 item p)
    : Keeps tokens levels 0 (manyFrom fuel opening item) (Parser.manyFrom opening p) := by
  intro s hs hlevels
  refine .left hs fun left hleft => ?_
  refine .congr (p := Parser.manyFrom.go opening p (tokens.from s.cursor).rest) ?_ rfl
  refine follows_whileNext hitem hs hlevels (by omega) ?_ (by omega)
  rw [length_rest_from]
  omega

end Loops

end Descent
end GraphGateway
