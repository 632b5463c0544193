import GraphGateway.Proofs.Document.Printing

/-!
This module contains the spellings of words and the texts in which they are set, with characters
between them that are ignored, and the proof that each spelling is read as one lexeme.
-/

namespace GraphGateway

/-- Blanks, commas, byte order marks and comments, each with the end of its line. -/
inductive Ignored : List Char → Prop where
  | nil : Ignored []
  | blank {c : Char} {rest : List Char} (hc : c ∈ [' ', '\t', '\n', '\r', ',', '\ufeff'])
    (hrest : Ignored rest)
    : Ignored (c :: rest)
  | comment {text rest : List Char} {stop : Char} (htext : ∀ c ∈ text, c ∉ ['\n', '\r'])
    (hstop : stop ∈ ['\n', '\r']) (hrest : Ignored rest)
    : Ignored ('#' :: (text ++ stop :: rest))

def IsNameText (text : List Char) : Prop :=
  ∃ c rest, text = c :: rest ∧ Lexeme.isNameStart c = true
    ∧ ∀ d ∈ rest, Lexeme.isNameContinue d = true

def IsDigits (text : List Char) : Prop :=
  text ≠ [] ∧ ∀ c ∈ text, c.isDigit = true

/-- The parts of a number; the fraction has its point and the exponent its letter. -/
structure IsNumberText (sign whole fraction exponent : List Char) : Prop where
  sign : sign = [] ∨ sign = ['-']
  whole : whole = ['0'] ∨ IsDigits whole ∧ whole.head? ≠ some '0'
  fraction : fraction = [] ∨ ∃ digits, fraction = '.' :: digits ∧ IsDigits digits
  exponent : exponent = [] ∨ ∃ letter sign digits, exponent = letter :: (sign ++ digits)
    ∧ letter ∈ ['e', 'E'] ∧ sign ∈ [[], ['+'], ['-']] ∧ IsDigits digits

def simpleEscapes : List (Char × Char) :=
  [ ('"', '"'), ('\\', '\\'), ('/', '/'), ('b', '\x08'), ('f', '\x0c'), ('n', '\n'), ('r', '\r'),
    ('t', '\t')
  ]

inductive IsStringText : List Char → List Char → Prop where
  | nil : IsStringText [] []
  | raw {c : Char} {text value : List Char} (hc : c ∉ ['"', '\\', '\n', '\r'])
    (h : IsStringText text value)
    : IsStringText (c :: text) (c :: value)
  | escape {letter c : Char} {text value : List Char} (hc : (letter, c) ∈ simpleEscapes)
    (h : IsStringText text value)
    : IsStringText ('\\' :: letter :: text) (c :: value)
  | unicode {first second third fourth : Nat} {a b c d char : Char} {text value : List Char}
    (ha : Lexeme.hexValue? a = some first) (hb : Lexeme.hexValue? b = some second)
    (hc : Lexeme.hexValue? c = some third) (hd : Lexeme.hexValue? d = some fourth)
    (hchar : ((first * 16 + second) * 16 + third) * 16 + fourth = char.toNat)
    (h : IsStringText text value)
    : IsStringText ('\\' :: 'u' :: a :: b :: c :: d :: text) (char :: value)

inductive IsBlockText : List Char → List Char → Prop where
  | close : IsBlockText ['"', '"', '"'] []
  | escape {text value : List Char} (h : IsBlockText text value)
    : IsBlockText ('\\' :: '"' :: '"' :: '"' :: text) ('"' :: '"' :: '"' :: value)
  | raw {c : Char} {text value : List Char} (hclose : ¬ ['"', '"', '"'] <+: c :: text)
    (hescape : ¬ ['\\', '"', '"', '"'] <+: c :: text) (h : IsBlockText text value)
    : IsBlockText (c :: text) (c :: value)

/-- An integer has one spelling; a float has every spelling that reads as it. -/
inductive Word.Spells : Word → List Char → Prop where
  | punctuator (p : Punctuator) : Word.Spells (.punctuator p) p.symbol
  | name {text : List Char} (h : IsNameText text) : Word.Spells (.name (String.ofList text)) text
  | int (n : Int) : Word.Spells (.int n) (toString n).toList
  | float {sign whole fraction exponent : List Char}
    (h : IsNumberText sign whole fraction exponent) (hfloat : fraction ≠ [] ∨ exponent ≠ [])
    : Word.Spells
        (.float (.ofLiteral (Lexeme.lowerExponent (sign ++ whole ++ fraction ++ exponent))))
        (sign ++ whole ++ fraction ++ exponent)
  | string {text value : List Char} (h : IsStringText text value)
    : Word.Spells (.string (String.ofList value)) ('"' :: (text ++ ['"']))
  | block {text value : List Char} (h : IsBlockText text value)
    : Word.Spells (.string (String.ofList (BlockString.value value)))
        ('"' :: '"' :: '"' :: text)

def Word.isPunctuator : Word → Bool
  | .punctuator _ => true
  | _ => false

def Word.isNumber : Word → Bool
  | .int _ | .float _ => true
  | _ => false

/--
Words in a text. Two neighbours that are not punctuators have something between them; `separate`
says whether the word before the text is none.
-/
inductive Rendered : Bool → List Word → List Char → Prop where
  | stop {separate : Bool} {gap : List Char} (hgap : Ignored gap) : Rendered separate [] gap
  | word {separate : Bool} {word : Word} {words : List Word} {gap spelling rest : List Char}
    (hgap : Ignored gap) (hseparate : separate = true → word.isPunctuator = false → gap ≠ [])
    (hspelling : word.Spells spelling) (hrest : Rendered (!word.isPunctuator) words rest)
    : Rendered separate (word :: words) (gap ++ (spelling ++ rest))

namespace Lexeme

def Heads (P : Char → Prop) (text : List Char) : Prop :=
  ∀ c ∈ text.head?, P c

theorem heads_append {P : Char → Prop} {text rest : List Char} (htext : Heads P text)
    (hrest : Heads P rest)
    : Heads P (text ++ rest) := by
  cases text with
  | nil => exact hrest
  | cons c text => exact htext

theorem go_comment {text : List Char} (htext : ∀ c ∈ text, c ∉ ['\n', '\r']) {stop : Char}
    (hstop : stop ∈ ['\n', '\r']) (rest : List Char)
    : splitIgnored.go true (text ++ stop :: rest)
        = (text ++ stop :: (splitIgnored rest).1, (splitIgnored rest).2) := by
  induction text with
  | nil =>
    simp only [List.mem_cons, List.not_mem_nil, or_false] at hstop
    obtain rfl | rfl := hstop <;> rfl
  | cons c text ih =>
    rw [List.forall_mem_cons] at htext
    have hc : endsComment c = false := by simpa [endsComment] using htext.1
    rw [List.cons_append, splitIgnored.go, hc, Bool.not_false, Bool.and_true, Bool.true_or,
      if_pos rfl, ih htext.2]
    rfl

theorem splitIgnored_append_of_ignored {gap : List Char} (hgap : Ignored gap)
    (text : List Char) (htext : Heads (fun c => isIgnored c = false ∧ c ≠ '#') text)
    : splitIgnored (gap ++ text) = (gap, text) := by
  induction hgap with
  | nil =>
    cases text with
    | nil => rfl
    | cons c rest =>
      obtain ⟨hignored, hcomment⟩ := htext c rfl
      rw [List.nil_append, splitIgnored, splitIgnored.go, hignored, Bool.false_and, Bool.or_self,
        if_neg Bool.false_ne_true, if_neg hcomment]
  | @blank c rest hc hrest ih =>
    have hignored : isIgnored c = true := by
      simp only [List.mem_cons, List.not_mem_nil, or_false] at hc
      obtain rfl | rfl | rfl | rfl | rfl | rfl := hc <;> rfl
    unfold splitIgnored at ih ⊢
    rw [List.cons_append, splitIgnored.go, hignored, Bool.or_true, if_pos rfl, Bool.false_and, ih]
  | @comment inner rest stop hinner hstop hrest ih =>
    have hgo := go_comment hinner hstop (rest ++ text)
    rw [ih] at hgo
    rw [List.cons_append, List.append_assoc, List.cons_append, splitIgnored, splitIgnored.go]
    simp only [hgo]
    rfl

section Numbers

theorem span_append {P : Char → Bool} {text rest : List Char} (htext : ∀ c ∈ text, P c = true)
    (hrest : Heads (fun c => P c = false) rest)
    : (text ++ rest).takeWhile P = text ∧ (text ++ rest).dropWhile P = rest := by
  rw [List.takeWhile_append_of_pos htext, List.dropWhile_append_of_pos htext]
  cases rest with
  | nil => simp
  | cons c rest =>
    have hc : P c = false := hrest c rfl
    simp [hc]

theorem digits_append_of_isDigits {text rest : List Char} (htext : IsDigits text)
    (hrest : Heads (fun c => c.isDigit = false) rest)
    : digits (text ++ rest) = .ok (text, rest) := by
  obtain ⟨hne, hdigits⟩ := htext
  obtain ⟨htake, hdrop⟩ := span_append hdigits hrest
  cases text with
  | nil => exact absurd rfl hne
  | cons c text =>
    have hc : c.isDigit = true := hdigits c List.mem_cons_self
    rw [digits.eq_def]
    simp only [List.cons_append, hc, if_true]
    rw [← List.cons_append, htake, hdrop]
    rfl

def EndsNumber (rest : List Char) : Prop :=
  Heads (fun c => c.isDigit = false ∧ continuesNumber c = false) rest

variable {sgn whole fraction exponent rest : List Char}

theorem integerPart_append_of_whole
    (hwhole : whole = ['0'] ∨ IsDigits whole ∧ whole.head? ≠ some '0')
    (hrest : Heads (fun c => c.isDigit = false) rest)
    : integerPart (whole ++ rest) = .ok (whole, rest) := by
  obtain rfl | ⟨hdigits, hzero⟩ := hwhole
  . have hany : rest.head?.any Char.isDigit = false := by
      cases rest with
      | nil => rfl
      | cons c rest => exact hrest c rfl
    rw [List.cons_append, integerPart, List.nil_append, hany]
    rfl
  . unfold integerPart
    split
    . next after heq =>
      cases whole with
      | nil => exact absurd rfl hdigits.1
      | cons c text =>
        cases heq
        exact absurd rfl hzero
    . exact digits_append_of_isDigits hdigits hrest

theorem fractionPart_append_of_fraction
    (hfraction : fraction = [] ∨ ∃ digits, fraction = '.' :: digits ∧ IsDigits digits)
    (hrest : Heads (fun c => c.isDigit = false ∧ c ≠ '.') rest)
    : fractionPart (fraction ++ rest) = .ok (fraction, rest) := by
  obtain rfl | ⟨text, rfl, hdigits⟩ := hfraction
  . unfold fractionPart
    split
    . next after heq =>
      rw [List.nil_append] at heq
      subst heq
      exact absurd rfl (hrest '.' rfl).2
    . rfl
  . rw [List.cons_append, fractionPart,
      digits_append_of_isDigits hdigits (fun c hc => (hrest c hc).1)]
    rfl

theorem exponentPart_append_of_exponent
    (hexponent : exponent = [] ∨ ∃ letter sign digits, exponent = letter :: (sign ++ digits)
      ∧ letter ∈ ['e', 'E'] ∧ sign ∈ [[], ['+'], ['-']] ∧ IsDigits digits)
    (hrest : EndsNumber rest)
    : exponentPart (exponent ++ rest) = .ok (exponent, rest) := by
  obtain rfl | ⟨letter, sign, text, rfl, hletter, hsign, hdigits⟩ := hexponent
  . cases rest with
    | nil => rfl
    | cons c rest =>
      obtain ⟨_, hcontinues⟩ := hrest c rfl
      have hletter : (decide (c = 'e') || decide (c = 'E')) = false := by
        simp only [Bool.or_eq_false_iff, decide_eq_false_iff_not]
        constructor <;> rintro rfl <;> cases hcontinues
      rw [List.nil_append, exponentPart, hletter]
      rfl
  . have hsigned : exponentSign (sign ++ text ++ rest) = (sign, text ++ rest) := by
      obtain ⟨hne, hdigits⟩ := hdigits
      cases text with
      | nil => exact absurd rfl hne
      | cons c text =>
        have hc : c.isDigit = true := hdigits c List.mem_cons_self
        simp only [List.mem_cons, List.not_mem_nil, or_false] at hsign
        obtain rfl | rfl | rfl := hsign
        . unfold exponentSign
          split
          . next heq =>
            cases heq
            cases hc
          . next heq =>
            cases heq
            cases hc
          . rfl
        . rfl
        . rfl
    have hletter : (decide (letter = 'e') || decide (letter = 'E')) = true := by
      simpa using hletter
    rw [List.cons_append, exponentPart, if_pos hletter, hsigned]
    dsimp only
    rw [digits_append_of_isDigits hdigits (fun c hc => (hrest c hc).1)]
    rfl

theorem sign_append_of_sign (hsign : sgn = [] ∨ sgn = ['-'])
    (hrest : Heads (fun c => c ≠ '-') rest)
    : sign (sgn ++ rest) = (sgn, rest) := by
  obtain rfl | rfl := hsign
  . unfold sign
    split
    . next after heq =>
      rw [List.nil_append] at heq
      subst heq
      exact absurd rfl (hrest '-' rfl)
    . rfl
  . rfl

theorem heads_exponent
    (h : IsNumberText sgn whole fraction exponent) (hrest : EndsNumber rest)
    : Heads (fun c => c.isDigit = false ∧ c ≠ '.') (exponent ++ rest) := by
  apply heads_append
  . obtain hnil | ⟨letter, sign, digits, heq, hletter, _⟩ := h.exponent
    . rw [hnil]
      simp [Heads]
    . rw [heq]
      simp only [List.mem_cons, List.not_mem_nil, or_false] at hletter
      obtain rfl | rfl := hletter <;> simp [Heads]
  . intro c hc
    obtain ⟨hdigit, hcontinues⟩ := hrest c hc
    refine ⟨hdigit, ?_⟩
    rintro rfl
    cases hcontinues

theorem heads_fraction
    (h : IsNumberText sgn whole fraction exponent) (hrest : EndsNumber rest)
    : Heads (fun c => c.isDigit = false) (fraction ++ (exponent ++ rest)) := by
  apply heads_append
  . obtain hnil | ⟨digits, heq, _⟩ := h.fraction
    . rw [hnil]
      simp [Heads]
    . rw [heq]
      simp [Heads]
  . exact fun c hc => (heads_exponent h hrest c hc).1

theorem heads_whole (h : IsNumberText sgn whole fraction exponent) (rest : List Char)
    : ∃ c text, whole ++ rest = c :: text ∧ c.isDigit = true := by
  obtain hzero | ⟨⟨hne, hdigits⟩, _⟩ := h.whole
  . rw [hzero]
    exact ⟨_, _, rfl, rfl⟩
  . cases whole with
    | nil => exact absurd rfl hne
    | cons c text => exact ⟨c, _, rfl, hdigits c List.mem_cons_self⟩

def numberKind (fraction exponent : List Char) (raw : String) : Token.Kind :=
  if fraction.isEmpty && exponent.isEmpty then .int raw else .float raw

theorem number_append_of_numberText (h : IsNumberText sgn whole fraction exponent)
    (hrest : EndsNumber rest)
    : number (sgn ++ whole ++ fraction ++ exponent ++ rest)
        = .ok ⟨numberKind fraction exponent
              (String.ofList (lowerExponent (sgn ++ whole ++ fraction ++ exponent))),
            sgn ++ whole ++ fraction ++ exponent, rest⟩ := by
  have hminus : Heads (fun c => c ≠ '-') (whole ++ (fraction ++ (exponent ++ rest))) := by
    obtain ⟨c, text, heq, hc⟩ := heads_whole h (fraction ++ (exponent ++ rest))
    rw [heq]
    rintro _ ⟨⟩ rfl
    cases hc
  have hend : rest.head?.any continuesNumber = false := by
    cases rest with
    | nil => rfl
    | cons c rest => exact (hrest c rfl).2
  have hsign := sign_append_of_sign h.sign hminus
  have hwhole := integerPart_append_of_whole h.whole (heads_fraction h hrest)
  have hfraction := fractionPart_append_of_fraction h.fraction (heads_exponent h hrest)
  have hexponent := exponentPart_append_of_exponent h.exponent hrest
  simp only [List.append_assoc]
  unfold number
  simp only [hsign, hwhole, hfraction, hexponent, hend, bind, Except.bind]
  simp only [List.append_assoc]
  rfl

theorem isDigits_toDigits (n : Nat) : IsDigits (Nat.toDigits 10 n) :=
  ⟨Nat.toDigits_ne_nil, fun _ hc => Nat.isDigit_of_mem_toDigits (by decide) (by decide) hc⟩

theorem head?_toDigits_ne_zero {n : Nat} (h : 0 < n)
    : (Nat.toDigits 10 n).head? ≠ some '0' := by
  induction n using Nat.strongRecOn with
  | ind n ih =>
    rw [Nat.toDigits_eq_if (by decide)]
    split
    . next hlt =>
      have hall : ∀ m < 10, 0 < m → [m.digitChar].head? ≠ some '0' := by decide
      exact hall n hlt h
    . next hle =>
      have hquotient := ih (n / 10) (by omega) (by omega)
      cases hdigits : Nat.toDigits 10 (n / 10) with
      | nil => exact absurd hdigits Nat.toDigits_ne_nil
      | cons c text =>
        rw [hdigits] at hquotient
        exact hquotient

theorem digitsValue_toDigits (n : Nat) : Double.digitsValue (Nat.toDigits 10 n) = n := by
  unfold Double.digitsValue
  simp only [Nat.mul_comm _ 10]
  exact Nat.ofDigitChars_toDigits (by decide) (by decide)

theorem isNumberText_toDigits (hsgn : sgn = [] ∨ sgn = ['-']) (n : Nat)
    : IsNumberText sgn (Nat.toDigits 10 n) [] [] := by
  refine ⟨hsgn, ?_, .inl rfl, .inl rfl⟩
  cases n with
  | zero => exact .inl rfl
  | succ n => exact .inr ⟨isDigits_toDigits _, head?_toDigits_ne_zero n.succ_pos⟩

theorem lowerExponent_of_isDigits {text : List Char} (h : IsDigits text)
    : lowerExponent text = text := by
  have hmap : text.map (fun c => if c = 'E' then 'e' else c) = text.map id := by
    apply List.map_congr_left
    intro c hc
    rw [if_neg]
    . rfl
    . rintro rfl
      cases h.2 _ hc
  rw [lowerExponent, hmap, List.map_id]

theorem signedValue_of_isDigits {text : List Char} (h : IsDigits text)
    : Double.signedValue text = Double.digitsValue text := by
  unfold Double.signedValue
  split
  . cases h.2 '-' List.mem_cons_self
  . cases h.2 '+' List.mem_cons_self
  . rfl

theorem exists_decimal (n : Int)
    : ∃ sgn whole, (toString n).toList = sgn ++ whole ∧ IsNumberText sgn whole [] []
        ∧ Double.signedValue (lowerExponent (sgn ++ whole)) = n := by
  cases n with
  | ofNat n =>
    have hdigits := isDigits_toDigits n
    refine ⟨[], Nat.toDigits 10 n, ?_, isNumberText_toDigits (.inl rfl) n, ?_⟩
    . simp [toString, Int.repr]
    . rw [List.nil_append, lowerExponent_of_isDigits hdigits, signedValue_of_isDigits hdigits,
        digitsValue_toDigits]
      rfl
  | negSucc n =>
    refine ⟨['-'], Nat.toDigits 10 (n + 1), ?_, isNumberText_toDigits (.inr rfl) (n + 1), ?_⟩
    . simp [toString, Int.repr]
    . have hlower : lowerExponent (['-'] ++ Nat.toDigits 10 (n + 1))
          = '-' :: Nat.toDigits 10 (n + 1) :=
        congrArg _ (lowerExponent_of_isDigits (isDigits_toDigits (n + 1)))
      rw [hlower, Double.signedValue, digitsValue_toDigits]
      rfl

end Numbers

section Strings

variable {text value : List Char}

theorem unicodeEscape_eq_ok {a b c d char : Char} {first second third fourth : Nat}
    (ha : hexValue? a = some first) (hb : hexValue? b = some second)
    (hc : hexValue? c = some third) (hd : hexValue? d = some fourth)
    (hchar : ((first * 16 + second) * 16 + third) * 16 + fourth = char.toNat)
    : unicodeEscape [a, b, c, d] = .ok char := by
  have hsurrogate : ¬ (0xD800 ≤ char.toNat ∧ char.toNat ≤ 0xDFFF) := by
    have hvalid : char.toNat < 55296 ∨ 57343 < char.toNat ∧ char.toNat < 1114112 := char.valid
    omega
  have hvalues : [a, b, c, d].mapM hexValue? = some [first, second, third, fourth] := by
    simp [List.mapM_cons, ha, hb, hc, hd]
  have hfold : [first, second, third, fourth].foldl (fun n v => n * 16 + v) 0 = char.toNat := by
    simpa using hchar
  unfold unicodeEscape
  rw [hvalues]
  dsimp only
  rw [hfold, Char.ofNat_toNat]
  simp only [Bool.and_eq_true, decide_eq_true_eq, hsurrogate, if_false]
  rfl

theorem stringBody_append_of_stringText (h : IsStringText text value) (rest : List Char)
    : stringBody (text ++ '"' :: rest) = .ok ⟨value, text ++ ['"'], rest⟩ := by
  induction h with
  | nil => rfl
  | @raw c text value hc _ ih =>
    simp only [List.mem_cons, List.not_mem_nil, or_false, not_or] at hc
    obtain ⟨hquote, hbackslash, hline, hreturn⟩ := hc
    have hbreaks : (decide (c = '\n') || decide (c = '\r')) = false := by simp [hline, hreturn]
    rw [List.cons_append, stringBody.eq_6 _ _ hquote (fun _ _ _ _ _ h => absurd h hbackslash)
      (fun h => absurd h hbackslash) (fun _ _ h => absurd h hbackslash), hbreaks, ih]
    rfl
  | @escape letter c text value hc _ ih =>
    have hsimple : letter ≠ 'u' ∧ simpleEscape? letter = some c := by
      simp only [simpleEscapes, List.mem_cons, List.not_mem_nil, or_false, Prod.mk.injEq] at hc
      obtain ⟨rfl, rfl⟩ | ⟨rfl, rfl⟩ | ⟨rfl, rfl⟩ | ⟨rfl, rfl⟩ | ⟨rfl, rfl⟩ | ⟨rfl, rfl⟩
        | ⟨rfl, rfl⟩ | ⟨rfl, rfl⟩ := hc <;> exact ⟨by decide, rfl⟩
    rw [List.cons_append, List.cons_append,
      stringBody.eq_5 _ _ (fun _ _ _ _ _ h => absurd h hsimple.1), hsimple.2, ih]
    rfl
  | unicode ha hb hc hd hchar _ ih =>
    simp only [List.cons_append]
    rw [stringBody, unicodeEscape_eq_ok ha hb hc hd hchar, ih]
    rfl

theorem length_le_of_blockText (h : IsBlockText text value) : 3 ≤ text.length := by
  induction h with
  | close => exact Nat.le_refl 3
  | escape _ ih =>
    simp only [List.length_cons]
    omega
  | raw _ _ _ ih =>
    simp only [List.length_cons]
    omega

theorem blockBody_append_of_blockText (h : IsBlockText text value) (rest : List Char)
    : blockBody (text ++ rest) = .ok ⟨value, text, rest⟩ := by
  induction h with
  | close => rfl
  | escape _ ih =>
    simp only [List.cons_append]
    rw [blockBody, ih]
    rfl
  | @raw c text value hclose hescape h ih =>
    have hlength := length_le_of_blockText h
    have hstarts : ∀ taken after : List Char, taken.length ≤ 4 →
        c :: (text ++ rest) = taken ++ after → taken <+: c :: text := by
      intro taken after htaken heq
      have htake : taken <+: c :: text ++ rest := ⟨after, heq.symm⟩
      apply List.prefix_of_prefix_length_le htake (List.prefix_append _ _)
      simp only [List.length_cons]
      omega
    rw [List.cons_append, blockBody.eq_4, ih]
    . rfl
    . rintro after rfl heq
      exact hclose (hstarts ['"', '"', '"'] after (by decide) (by rw [heq]; rfl))
    . rintro after rfl heq
      exact hescape (hstarts ['\\', '"', '"', '"'] after (by decide) (by rw [heq]; rfl))

theorem string_append_of_blockText (h : IsBlockText text value) (rest : List Char)
    : string ('"' :: '"' :: '"' :: (text ++ rest))
        = .ok ⟨.string (String.ofList (BlockString.value value)), '"' :: '"' :: '"' :: text,
            rest⟩ := by
  rw [string, blockBody_append_of_blockText h]
  rfl

theorem string_append_of_stringText (h : IsStringText text value) {rest : List Char}
    (hrest : rest.head? ≠ some '"')
    : string ('"' :: (text ++ '"' :: rest))
        = .ok ⟨.string (String.ofList value), '"' :: (text ++ ['"']), rest⟩ := by
  have hbody := stringBody_append_of_stringText h rest
  unfold string
  split
  . next after heq =>
    -- Only an empty string begins with two quotation marks, and no third one follows it.
    cases h with
    | nil =>
      cases heq
      exact absurd rfl hrest
    | raw hc =>
      simp only [List.cons_append, List.cons.injEq] at heq
      exact absurd (heq.2.1 ▸ List.mem_cons_self) hc
    | escape => cases heq
    | unicode => cases heq
  . next heq =>
    rw [List.drop_one, List.tail_cons, hbody]
    rfl

end Strings

def Ends (word : Word) (rest : List Char) : Prop :=
  match word with
  | .punctuator _ => True
  | .name _ => Heads (fun c => isNameContinue c = false) rest
  | .int _ | .float _ => EndsNumber rest
  | .string _ => rest.head? ≠ some '"'

theorem ofChar?_eq_none {c : Char} (h : isNameContinue c = true ∨ c = '-' ∨ c = '"')
    : Punctuator.ofChar? c = none := by
  unfold Punctuator.ofChar?
  split <;> first | rfl | (revert h; decide)

theorem scan_number {c : Char} {rest : List Char} (h : c = '-' ∨ c.isDigit = true)
    : scan c rest = number (c :: rest) := by
  have hpunctuator : Punctuator.ofChar? c = none := by
    apply ofChar?_eq_none
    obtain h | h := h
    . exact .inr (.inl h)
    . exact .inl (by simp [isNameContinue, Char.isAlphanum, h])
  have hpoint : c ≠ '.' := by
    rintro rfl
    revert h
    decide
  have hquote : c ≠ '"' := by
    rintro rfl
    revert h
    decide
  unfold scan
  rw [hpunctuator]
  simp only [hpoint, hquote, if_false]
  rw [if_pos (by simpa using h)]

theorem exists_cons_of_numberText {sgn whole fraction exponent : List Char}
    (h : IsNumberText sgn whole fraction exponent)
    : ∃ c text, sgn ++ whole ++ fraction ++ exponent = c :: text
        ∧ (c = '-' ∨ c.isDigit = true) := by
  obtain hsign | hsign := h.sign
  . obtain ⟨c, text, heq, hc⟩ := heads_whole h (fraction ++ exponent)
    refine ⟨c, text, ?_, .inr hc⟩
    rw [hsign, ← heq]
    simp
  . rw [hsign]
    exact ⟨_, _, rfl, .inl rfl⟩

theorem scan_number_append {sgn whole fraction exponent rest : List Char}
    (h : IsNumberText sgn whole fraction exponent) (hrest : EndsNumber rest)
    : ∃ c text, sgn ++ whole ++ fraction ++ exponent = c :: text
        ∧ scan c (text ++ rest)
          = .ok ⟨numberKind fraction exponent
                (String.ofList (lowerExponent (sgn ++ whole ++ fraction ++ exponent))),
              sgn ++ whole ++ fraction ++ exponent, rest⟩ := by
  have hnumber := number_append_of_numberText h hrest
  obtain ⟨c, text, heq, hc⟩ := exists_cons_of_numberText h
  refine ⟨c, text, heq, ?_⟩
  rw [scan_number hc, ← List.cons_append, ← heq]
  exact hnumber

theorem isDigit_of_isNameStart {c : Char} (h : isNameStart c = true) : c.isDigit = false := by
  cases hc : c.isDigit with
  | false => rfl
  | true =>
    have halpha : c.isAlpha
        = (decide (c.val ≥ 'A'.val ∧ c.val ≤ 'Z'.val)
            || decide (c.val ≥ 'a'.val) && decide (c.val ≤ 'z'.val)) := rfl
    simp only [isNameStart, halpha, Bool.or_eq_true, decide_eq_true_eq, Bool.and_eq_true] at h
    simp only [Char.isDigit, Bool.and_eq_true, decide_eq_true_eq] at hc
    obtain rfl | h := h
    . revert hc
      decide
    . simp only [UInt32.le_iff_toNat_le, Char.reduceVal, UInt32.reduceToNat] at h hc
      omega

theorem scan_name {text rest : List Char} (htext : IsNameText text)
    (hrest : Heads (fun c => isNameContinue c = false) rest)
    : ∃ c after, text = c :: after
        ∧ scan c (after ++ rest) = .ok ⟨.name (String.ofList text), text, rest⟩ := by
  obtain ⟨c, after, rfl, hstart, hcontinue⟩ := htext
  have hfirst : isNameContinue c = true := by
    simp only [isNameStart, Bool.or_eq_true, decide_eq_true_eq] at hstart
    simp only [isNameContinue, Char.isAlphanum, Bool.or_eq_true, decide_eq_true_eq]
    exact hstart.imp_right .inl
  have hpoint : c ≠ '.' ∧ c ≠ '"' := by
    constructor <;> rintro rfl <;> cases hfirst
  have hnumber : (decide (c = '-') || c.isDigit) = false := by
    rw [Bool.or_eq_false_iff, isDigit_of_isNameStart hstart, decide_eq_false]
    . exact ⟨rfl, rfl⟩
    . rintro rfl
      cases hfirst
  have hall : ∀ d ∈ c :: after, isNameContinue d = true :=
    List.forall_mem_cons.mpr ⟨hfirst, hcontinue⟩
  obtain ⟨htake, hdrop⟩ := span_append hall hrest
  refine ⟨c, after, rfl, ?_⟩
  unfold scan
  rw [ofChar?_eq_none (.inl hfirst)]
  simp only [hpoint, if_false, hnumber, hstart, if_true, Bool.false_eq_true]
  unfold name
  rw [← List.cons_append, htake, hdrop]
  rfl

theorem scan_punctuator (p : Punctuator) (rest : List Char)
    : ∃ c text, p.symbol = c :: text
        ∧ scan c (text ++ rest) = .ok ⟨.punctuator p, p.symbol, rest⟩ := by
  cases p <;> exact ⟨_, _, rfl, rfl⟩

theorem scan_quote (rest : List Char) : scan '"' rest = string ('"' :: rest) := rfl

theorem exists_scan_of_spells {word : Word} {spelling rest : List Char}
    (h : word.Spells spelling) (hrest : Ends word rest)
    : ∃ c text kind, spelling = c :: text ∧ scan c (text ++ rest) = .ok ⟨kind, spelling, rest⟩
        ∧ kind.word = word := by
  cases h with
  | punctuator p =>
    obtain ⟨c, text, heq, hscan⟩ := scan_punctuator p rest
    exact ⟨c, text, _, heq, hscan, rfl⟩
  | name htext =>
    obtain ⟨c, text, heq, hscan⟩ := scan_name htext hrest
    exact ⟨c, text, _, heq, hscan, rfl⟩
  | int n =>
    obtain ⟨sgn, whole, heq, hnumber, hvalue⟩ := exists_decimal n
    obtain ⟨c, text, hspelling, hscan⟩ := scan_number_append hnumber hrest
    rw [List.append_nil, List.append_nil] at hspelling hscan
    rw [heq]
    refine ⟨c, text, _, hspelling, hscan, ?_⟩
    rw [numberKind, List.isEmpty_nil, Bool.and_self, if_pos rfl, Token.Kind.word,
      String.toList_ofList, hvalue]
  | @float sgn whole fraction exponent hnumber hfloat =>
    obtain ⟨c, text, hspelling, hscan⟩ := scan_number_append hnumber hrest
    refine ⟨c, text, _, hspelling, hscan, ?_⟩
    have hkind : (fraction.isEmpty && exponent.isEmpty) = false := by
      rw [Bool.and_eq_false_iff, List.isEmpty_eq_false_iff, List.isEmpty_eq_false_iff]
      exact hfloat
    rw [numberKind, hkind, if_neg Bool.false_ne_true, Token.Kind.word, String.toList_ofList]
  | string htext =>
    refine ⟨'"', _, .string _, rfl, ?_, rfl⟩
    rw [scan_quote, List.append_assoc]
    exact string_append_of_stringText htext hrest
  | block htext =>
    refine ⟨'"', _, .string _, rfl, ?_, rfl⟩
    rw [scan_quote]
    exact string_append_of_blockText htext rest

end Lexeme

end GraphGateway
