import GraphGateway.Proofs.Document.Spelling
import Mathlib.Data.List.Chain
import Mathlib.Data.List.DropRight

/-!
This module contains the proof that a lexeme spells its token, and that no longer part of the text
does so for any token.
-/

namespace GraphGateway

/-- What is written for a token. Numbers keep it, up to the case of the exponent letter. -/
inductive Token.Kind.Spells : Token.Kind → List Char → Prop where
  | punctuator (p : Punctuator) : Token.Kind.Spells (.punctuator p) p.symbol
  | name {text : List Char} (h : IsNameText text)
    : Token.Kind.Spells (.name (String.ofList text)) text
  | int {sign whole : List Char} (h : IsNumberText sign whole [] [])
    : Token.Kind.Spells (.int (String.ofList (sign ++ whole))) (sign ++ whole)
  | float {sign whole fraction exponent : List Char}
    (h : IsNumberText sign whole fraction exponent) (hfloat : fraction ≠ [] ∨ exponent ≠ [])
    : Token.Kind.Spells
        (.float (String.ofList (Lexeme.lowerExponent (sign ++ whole ++ fraction ++ exponent))))
        (sign ++ whole ++ fraction ++ exponent)
  | string {text value : List Char} (h : IsStringText text value)
    : Token.Kind.Spells (.string (String.ofList value)) ('"' :: (text ++ ['"']))
  | block {text value : List Char} (h : IsBlockText text value)
    : Token.Kind.Spells (.string (String.ofList (BlockString.value value)))
        ('"' :: '"' :: '"' :: text)

namespace Lexeme

section Numbers

variable {text spelling rest : List Char}

theorem heads_dropWhile {P : Char → Bool} (text : List Char)
    : Heads (fun c => P c = false) (text.dropWhile P) := by
  induction text with
  | nil => simp [Heads]
  | cons c text ih =>
    rw [List.dropWhile_cons]
    split
    . exact ih
    . next hc =>
      rintro _ ⟨⟩
      exact Bool.eq_false_iff.mpr hc

theorem isDigits_of_digits (h : digits text = .ok (spelling, rest))
    : IsDigits spelling ∧ Heads (fun c => c.isDigit = false) rest := by
  have hne := digits_ne_nil h
  unfold digits at h
  split at h
  . cases h
  . split at h
    . cases h
      exact ⟨⟨hne, fun c hc => List.mem_takeWhile_imp hc⟩, heads_dropWhile _⟩
    . cases h

theorem whole_of_integerPart (h : integerPart text = .ok (spelling, rest))
    : (spelling = ['0'] ∨ IsDigits spelling ∧ spelling.head? ≠ some '0')
        ∧ Heads (fun c => c.isDigit = false) rest := by
  have happend := integerPart_append h
  unfold integerPart at h
  split at h
  . split at h
    . cases h
    . next hdigit =>
      cases h
      refine ⟨.inl rfl, fun c hc => ?_⟩
      rw [Option.mem_def.mp hc] at hdigit
      exact Bool.eq_false_iff.mpr hdigit
  . next hzero =>
    obtain ⟨hdigits, hrest⟩ := isDigits_of_digits h
    refine ⟨.inr ⟨hdigits, fun hhead => ?_⟩, hrest⟩
    cases spelling with
    | nil => cases hhead
    | cons c spelling =>
      cases hhead
      exact hzero _ happend.symm

theorem fraction_of_fractionPart (h : fractionPart text = .ok (spelling, rest))
    (htext : Heads (fun c => c.isDigit = false) text)
    : (spelling = [] ∨ ∃ digits, spelling = '.' :: digits ∧ IsDigits digits)
        ∧ Heads (fun c => c.isDigit = false) rest := by
  unfold fractionPart at h
  split at h
  . obtain ⟨⟨digits, after⟩, hdigits, hpure⟩ := bind_eq_ok h
    cases hpure
    obtain ⟨hdigits, hrest⟩ := isDigits_of_digits hdigits
    exact ⟨.inr ⟨digits, rfl, hdigits⟩, hrest⟩
  . cases h
    exact ⟨.inl rfl, htext⟩

theorem exponentSign_mem (text : List Char) : (exponentSign text).1 ∈ [[], ['+'], ['-']] := by
  unfold exponentSign
  split <;> simp

theorem exponent_of_exponentPart (h : exponentPart text = .ok (spelling, rest))
    (htext : Heads (fun c => c.isDigit = false) text)
    : (spelling = [] ∨ ∃ letter sign digits, spelling = letter :: (sign ++ digits)
          ∧ letter ∈ ['e', 'E'] ∧ sign ∈ [[], ['+'], ['-']] ∧ IsDigits digits)
        ∧ Heads (fun c => c.isDigit = false) rest := by
  unfold exponentPart at h
  split at h
  . cases h
    exact ⟨.inl rfl, htext⟩
  . next letter after =>
    split at h
    . next hletter =>
      obtain ⟨⟨digits, last⟩, hdigits, hpure⟩ := bind_eq_ok h
      cases hpure
      obtain ⟨hdigits, hrest⟩ := isDigits_of_digits hdigits
      refine ⟨.inr ⟨letter, _, digits, rfl, ?_, exponentSign_mem after, hdigits⟩, hrest⟩
      simpa using hletter
    . cases h
      exact ⟨.inl rfl, htext⟩

theorem sign_of_sign (text : List Char) : (sign text).1 = [] ∨ (sign text).1 = ['-'] := by
  unfold sign
  split
  . exact .inr rfl
  . exact .inl rfl

theorem exists_numberText_of_number {lexeme : Lexeme} (h : number text = .ok lexeme)
    : ∃ sign whole fraction exponent, IsNumberText sign whole fraction exponent
        ∧ lexeme.spelling = sign ++ whole ++ fraction ++ exponent
        ∧ lexeme.kind = numberKind fraction exponent (String.ofList (lowerExponent lexeme.spelling))
        ∧ EndsNumber lexeme.rest := by
  unfold number at h
  have hsign := sign_of_sign text
  generalize sign text = split at h hsign
  obtain ⟨sign, unsigned⟩ := split
  obtain ⟨⟨whole, afterWhole⟩, hwhole, h⟩ := bind_eq_ok h
  obtain ⟨⟨fraction, afterFraction⟩, hfraction, h⟩ := bind_eq_ok h
  obtain ⟨⟨exponent, afterExponent⟩, hexponent, h⟩ := bind_eq_ok h
  obtain ⟨hwhole, hheads⟩ := whole_of_integerPart hwhole
  obtain ⟨hfraction, hheads⟩ := fraction_of_fractionPart hfraction hheads
  obtain ⟨hexponent, hheads⟩ := exponent_of_exponentPart hexponent hheads
  dsimp only at h hsign
  split at h
  . cases h
  . next hcontinues =>
    cases h
    refine ⟨sign, whole, fraction, exponent, ⟨hsign, hwhole, hfraction, hexponent⟩, rfl, rfl, ?_⟩
    intro c hc
    rw [Option.mem_def.mp hc] at hcontinues
    exact ⟨hheads c hc, Bool.eq_false_iff.mpr hcontinues⟩

theorem isDigits_whole {sign whole fraction exponent : List Char}
    (h : IsNumberText sign whole fraction exponent)
    : IsDigits whole := by
  obtain rfl | ⟨hdigits, _⟩ := h.whole
  . exact ⟨by simp, by simp [Char.isDigit]⟩
  . exact hdigits

theorem lowerExponent_of_integer {sign whole : List Char} (h : IsNumberText sign whole [] [])
    : lowerExponent (sign ++ whole) = sign ++ whole := by
  have hwhole := lowerExponent_of_isDigits (isDigits_whole h)
  unfold lowerExponent at hwhole ⊢
  rw [List.map_append, hwhole]
  obtain rfl | rfl := h.sign <;> rfl

theorem spells_of_number {lexeme : Lexeme} (h : number text = .ok lexeme)
    : lexeme.kind.Spells lexeme.spelling := by
  obtain ⟨sign, whole, fraction, exponent, hnumber, hspelling, hkind, _⟩ :=
    exists_numberText_of_number h
  rw [hkind, hspelling]
  unfold numberKind
  split
  . next hint =>
    simp only [Bool.and_eq_true, List.isEmpty_iff] at hint
    obtain ⟨rfl, rfl⟩ := hint
    rw [List.append_nil, List.append_nil, lowerExponent_of_integer hnumber]
    exact .int hnumber
  . next hfloat =>
    refine .float hnumber ?_
    rw [Bool.and_eq_true, List.isEmpty_iff, List.isEmpty_iff] at hfloat
    exact Decidable.not_and_iff_not_or_not.mp hfloat

def IsSign (c : Char) : Prop :=
  c = '+' ∨ c = '-'

/-- A sign does not come right after a digit. -/
def Neighbours (c d : Char) : Prop :=
  c.isDigit = true → ¬ IsSign d

theorem not_isSign_of_isDigit {c : Char} (h : c.isDigit = true) : ¬ IsSign c := by
  rintro (rfl | rfl) <;> cases h

theorem isChain_of_unsigned (h : ∀ c ∈ text, ¬ IsSign c) : text.IsChain Neighbours := by
  apply List.Pairwise.isChain
  exact List.pairwise_of_forall_mem_list fun _ _ d hd _ => h d hd

theorem isChain_append_of_heads (htext : text.IsChain Neighbours) (hrest : rest.IsChain Neighbours)
    (hheads : Heads (fun c => ¬ IsSign c) rest)
    : (text ++ rest).IsChain Neighbours :=
  htext.append hrest fun _ _ d hd _ => hheads d hd

variable {sign whole fraction exponent : List Char}

theorem isChain_exponent (h : IsNumberText sign whole fraction exponent)
    : exponent.IsChain Neighbours ∧ Heads (fun c => ¬ IsSign c) exponent := by
  obtain rfl | ⟨letter, sign, digits, rfl, hletter, hsign, _, hdigits⟩ := h.exponent
  . exact ⟨.nil, by simp [Heads]⟩
  . have hdigits : ∀ c ∈ digits, ¬ IsSign c := fun c hc => not_isSign_of_isDigit (hdigits c hc)
    have hchain : (sign ++ digits).IsChain Neighbours := by
      refine isChain_append_of_heads ?_ (isChain_of_unsigned hdigits)
        fun c hc => hdigits c (List.mem_of_mem_head? hc)
      simp only [List.mem_cons, List.not_mem_nil, or_false] at hsign
      obtain rfl | rfl | rfl := hsign <;> simp
    have hfirst : letter.isDigit = false ∧ ¬ IsSign letter := by
      simp only [List.mem_cons, List.not_mem_nil, or_false] at hletter
      obtain rfl | rfl := hletter <;> simp [IsSign]
    constructor
    . refine List.isChain_cons.mpr ⟨fun d _ hdigit => ?_, hchain⟩
      rw [hfirst.1] at hdigit
      cases hdigit
    . rintro _ ⟨⟩
      exact hfirst.2

theorem isChain_of_numberText (h : IsNumberText sign whole fraction exponent)
    : (sign ++ whole ++ fraction ++ exponent).IsChain Neighbours := by
  have hwhole : ∀ c ∈ whole, ¬ IsSign c := fun c hc =>
    not_isSign_of_isDigit ((isDigits_whole h).2 c hc)
  have hfraction : ∀ c ∈ fraction, ¬ IsSign c := by
    obtain rfl | ⟨digits, rfl, _, hdigits⟩ := h.fraction
    . simp
    . exact List.forall_mem_cons.mpr
        ⟨by simp [IsSign], fun c hc => not_isSign_of_isDigit (hdigits c hc)⟩
  have hsign : sign.IsChain Neighbours := by
    obtain rfl | rfl := h.sign <;> simp
  obtain ⟨hexponent, hheads⟩ := isChain_exponent h
  refine isChain_append_of_heads ?_ hexponent hheads
  refine isChain_append_of_heads ?_ (isChain_of_unsigned hfraction)
    fun c hc => hfraction c (List.mem_of_mem_head? hc)
  exact isChain_append_of_heads hsign (isChain_of_unsigned hwhole)
    fun c hc => hwhole c (List.mem_of_mem_head? hc)

theorem exists_last_digit (h : IsNumberText sign whole fraction exponent)
    : ∃ front last, sign ++ whole ++ fraction ++ exponent = front ++ [last]
        ∧ last.isDigit = true := by
  have hlast {front digits : List Char} (hdigits : IsDigits digits)
      : ∃ init last, front ++ digits = init ++ [last] ∧ last.isDigit = true := by
    obtain ⟨init, last, rfl⟩ := List.eq_nil_or_concat digits |>.resolve_left hdigits.1
    exact ⟨front ++ init, last, by simp, hdigits.2 last (by simp)⟩
  obtain hnil | ⟨letter, esign, digits, rfl, _, _, hdigits⟩ := h.exponent
  . obtain hfraction | ⟨digits, rfl, hdigits⟩ := h.fraction
    . rw [hnil, hfraction, List.append_nil, List.append_nil]
      exact hlast (isDigits_whole h)
    . rw [hnil, List.append_nil, ← List.singleton_append, ← List.append_assoc]
      exact hlast hdigits
  . rw [← List.cons_append, ← List.append_assoc]
    exact hlast hdigits

theorem characters_of_numberText (h : IsNumberText sign whole fraction exponent)
    : ∀ c ∈ sign ++ whole ++ fraction ++ exponent,
        c.isDigit = true ∨ continuesNumber c = true ∨ IsSign c := by
  have hdigits {digits : List Char} (hdigits : IsDigits digits)
      : ∀ c ∈ digits, c.isDigit = true ∨ continuesNumber c = true ∨ IsSign c :=
    fun c hc => .inl (hdigits.2 c hc)
  simp only [List.forall_mem_append]
  refine ⟨⟨⟨?_, hdigits (isDigits_whole h)⟩, ?_⟩, ?_⟩
  . obtain rfl | rfl := h.sign <;> simp [IsSign]
  . obtain rfl | ⟨digits, rfl, hfraction⟩ := h.fraction
    . simp
    . exact List.forall_mem_cons.mpr ⟨.inr (.inl rfl), hdigits hfraction⟩
  . obtain rfl | ⟨letter, esign, digits, rfl, hletter, hsign, hexponent⟩ := h.exponent
    . simp
    . simp only [List.mem_cons, List.not_mem_nil, or_false] at hletter hsign
      refine List.forall_mem_cons.mpr
        ⟨.inr (.inl ?_), List.forall_mem_append.mpr ⟨?_, hdigits hexponent⟩⟩
      . obtain rfl | rfl := hletter <;> rfl
      . obtain rfl | rfl | rfl := hsign <;> simp [IsSign]

theorem length_le_of_numberText {sign' whole' fraction' exponent' other : List Char}
    (h : IsNumberText sign whole fraction exponent)
    (hspelling : spelling = sign ++ whole ++ fraction ++ exponent) (hrest : EndsNumber rest)
    (hother : IsNumberText sign' whole' fraction' exponent')
    (heq : other = sign' ++ whole' ++ fraction' ++ exponent') (hbegins : other <+: spelling ++ rest)
    : other.length ≤ spelling.length := by
  by_contra hlonger
  have hextends : spelling <+: other :=
    List.prefix_of_prefix_length_le (List.prefix_append _ _) hbegins (by omega)
  obtain ⟨after, rfl⟩ := hextends
  cases after with
  | nil => simp at hlonger
  | cons c after =>
    have hc : c ∈ rest.head? := by
      obtain ⟨last, hlast⟩ := (List.prefix_append_right_inj spelling).mp hbegins
      rw [← hlast]
      rfl
    obtain ⟨hdigit, hcontinues⟩ := hrest c hc
    -- What continues the number can then only be a sign, which does not follow the last digit.
    have hsign : IsSign c := by
      have hmem := characters_of_numberText hother c (by rw [← heq]; simp)
      simpa [hdigit, hcontinues] using hmem
    obtain ⟨front, last, hfront, hlast⟩ := exists_last_digit h
    have hchain := isChain_of_numberText hother
    rw [← heq, hspelling, hfront, List.append_assoc, List.singleton_append,
      List.isChain_append_cons_cons] at hchain
    exact hchain.2.1 hlast hsign

end Numbers

section Strings

variable {text : List Char} {body : Body}

theorem hexValue?_lt {c : Char} {n : Nat} (h : hexValue? c = some n) : n < 16 := by
  unfold hexValue? at h
  simp only [Char.isDigit, Bool.and_eq_true, decide_eq_true_eq, Char.le_def, UInt32.le_iff_toNat_le,
    Char.reduceVal, UInt32.reduceToNat] at h
  have htoNat : c.toNat = c.val.toNat := rfl
  have hzero : '0'.toNat = 48 := rfl
  have hlower : 'a'.toNat = 97 := rfl
  have hupper : 'A'.toNat = 65 := rfl
  split at h
  . cases h
    omega
  . split at h
    . cases h
      omega
    . split at h
      . cases h
        omega
      . cases h

theorem toNat_ofNat_of_lt {n : Nat} (hlt : n < 65536) (hsurrogate : ¬ (0xD800 ≤ n ∧ n ≤ 0xDFFF))
    : (Char.ofNat n).toNat = n := by
  have hvalid : n.isValidChar := by
    unfold Nat.isValidChar
    omega
  rw [Char.ofNat, dif_pos hvalid]
  rfl

theorem exists_hexValues_of_unicodeEscape {a b c d char : Char}
    (h : unicodeEscape [a, b, c, d] = .ok char)
    : ∃ first second third fourth, hexValue? a = some first ∧ hexValue? b = some second
        ∧ hexValue? c = some third ∧ hexValue? d = some fourth
        ∧ ((first * 16 + second) * 16 + third) * 16 + fourth = char.toNat := by
  unfold unicodeEscape at h
  split at h
  . cases h
  . next values hvalues =>
    simp only [List.mapM_cons, List.mapM_nil, Option.bind_eq_bind, Option.bind_eq_some_iff,
      Option.pure_def, Option.some.injEq] at hvalues
    obtain ⟨first, ha, _, ⟨second, hb, _, hvalues, rfl⟩, rfl⟩ := hvalues
    obtain ⟨third, hc, _, ⟨fourth, hd, _, rfl, rfl⟩, rfl⟩ := hvalues
    refine ⟨first, second, third, fourth, ha, hb, hc, hd, ?_⟩
    dsimp only at h
    split at h
    . cases h
    . next hsurrogate =>
      cases h
      simp only [List.foldl_cons, List.foldl_nil, Nat.zero_mul, Nat.zero_add, Bool.and_eq_true,
        decide_eq_true_eq] at hsurrogate ⊢
      have hfirst := hexValue?_lt ha
      have hsecond := hexValue?_lt hb
      have hthird := hexValue?_lt hc
      have hfourth := hexValue?_lt hd
      exact (toNat_ofNat_of_lt (by omega) hsurrogate).symm

theorem mem_simpleEscapes {letter c : Char} (h : simpleEscape? letter = some c)
    : (letter, c) ∈ simpleEscapes := by
  unfold simpleEscape? at h
  split at h <;> cases h <;> decide

theorem exists_stringText_of_stringBody (h : stringBody text = .ok body)
    : ∃ inner, IsStringText inner body.value ∧ body.spelling = inner ++ ['"'] := by
  fun_induction stringBody text generalizing body with
  | case1 => cases h
  | case2 rest =>
    cases h
    exact ⟨[], .nil, rfl⟩
  | case3 a b c d rest ih =>
    obtain ⟨value, hvalue, h⟩ := bind_eq_ok h
    obtain ⟨after, hafter, h⟩ := bind_eq_ok h
    cases h
    obtain ⟨inner, hinner, hspelling⟩ := ih hafter
    obtain ⟨_, _, _, _, ha, hb, hc, hd, hchar⟩ := exists_hexValues_of_unicodeEscape hvalue
    refine ⟨_, .unicode ha hb hc hd hchar hinner, ?_⟩
    simp [Body.cons, hspelling]
  | case4 => cases h
  | case5 c rest _ value hvalue ih =>
    obtain ⟨after, hafter, h⟩ := bind_eq_ok h
    cases h
    obtain ⟨inner, hinner, hspelling⟩ := ih hafter
    refine ⟨_, .escape (mem_simpleEscapes hvalue) hinner, ?_⟩
    simp [Body.cons, hspelling]
  | case6 => cases h
  | case7 => cases h
  | case8 c rest hquote _ hlast hbackslash hbreaks ih =>
    obtain ⟨after, hafter, h⟩ := bind_eq_ok h
    cases h
    obtain ⟨inner, hinner, hspelling⟩ := ih hafter
    have hescape : c ≠ '\\' := by
      rintro rfl
      cases rest with
      | nil => exact hlast rfl rfl
      | cons d rest => exact hbackslash d rest rfl rfl
    have hc : c ∉ ['"', '\\', '\n', '\r'] := by
      simp only [Bool.or_eq_true, decide_eq_true_eq, not_or] at hbreaks
      simp only [List.mem_cons, List.not_mem_nil, or_false, not_or]
      exact ⟨hquote, hescape, hbreaks⟩
    refine ⟨_, .raw hc hinner, ?_⟩
    simp [Body.cons, hspelling]

theorem isBlockText_of_blockBody (h : blockBody text = .ok body)
    : IsBlockText body.spelling body.value := by
  fun_induction blockBody text generalizing body with
  | case1 => cases h
  | case2 rest =>
    cases h
    exact .close
  | case3 rest ih =>
    obtain ⟨inner, hinner, h⟩ := bind_eq_ok h
    cases h
    exact .escape (ih hinner)
  | case4 c rest hclose hescape ih =>
    obtain ⟨inner, hinner, h⟩ := bind_eq_ok h
    cases h
    have hrest : inner.spelling <+: rest := ⟨inner.rest, blockBody_append hinner⟩
    refine .raw (fun hbegins => ?_) (fun hbegins => ?_) (ih hinner)
    . obtain ⟨rfl, htail⟩ := List.cons_prefix_cons.mp hbegins
      obtain ⟨after, rfl⟩ := List.IsPrefix.trans htail hrest
      exact hclose after rfl rfl
    . obtain ⟨rfl, htail⟩ := List.cons_prefix_cons.mp hbegins
      obtain ⟨after, rfl⟩ := List.IsPrefix.trans htail hrest
      exact hescape after rfl rfl

theorem spells_of_string {rest : List Char} {lexeme : Lexeme}
    (h : string ('"' :: rest) = .ok lexeme)
    : lexeme.kind.Spells lexeme.spelling := by
  unfold string at h
  split at h
  . obtain ⟨body, hbody, h⟩ := bind_eq_ok h
    cases h
    exact .block (isBlockText_of_blockBody hbody)
  . obtain ⟨body, hbody, h⟩ := bind_eq_ok h
    cases h
    obtain ⟨inner, hinner, hspelling⟩ := exists_stringText_of_stringBody hbody
    rw [hspelling]
    exact .string hinner

theorem length_le_of_stringText {inner value rest after : List Char} {lexeme : Lexeme}
    (hinner : IsStringText inner value) (heq : rest = inner ++ '"' :: after)
    (h : string ('"' :: rest) = .ok lexeme)
    : ('"' :: (inner ++ ['"'])).length ≤ lexeme.spelling.length := by
  unfold string at h
  split at h
  . next rest' hopening =>
    obtain ⟨body, _, h⟩ := bind_eq_ok h
    cases h
    cases hopening
    have hempty : inner = [] := by
      cases hinner with
      | nil => rfl
      | raw hc =>
        rw [List.cons_append, List.cons.injEq] at heq
        exact absurd (heq.1 ▸ List.mem_cons_self) hc
      | escape => cases heq
      | unicode => cases heq
    rw [hempty]
    simp
  . obtain ⟨body, hbody, h⟩ := bind_eq_ok h
    cases h
    rw [heq, List.drop_one, List.tail_cons, stringBody_append_of_stringText hinner] at hbody
    cases hbody
    simp

end Strings

theorem isNameText_name {c : Char} {rest : List Char} (hc : isNameStart c = true)
    : IsNameText (name (c :: rest)).spelling := by
  have hcontinue : isNameContinue c = true := by
    simp only [isNameStart, Bool.or_eq_true, decide_eq_true_eq] at hc
    simp only [isNameContinue, Char.isAlphanum, Bool.or_eq_true, decide_eq_true_eq]
    exact hc.imp_right .inl
  refine ⟨c, rest.takeWhile isNameContinue, ?_, hc, fun d hd => List.mem_takeWhile_imp hd⟩
  rw [name, List.takeWhile_cons_of_pos hcontinue]

theorem spells_of_scan {c : Char} {rest : List Char} {lexeme : Lexeme}
    (h : scan c rest = .ok lexeme)
    : lexeme.kind.Spells lexeme.spelling := by
  unfold scan at h
  split at h
  . next p hp =>
    cases h
    rw [← Punctuator.symbol_of_ofChar? c p hp]
    exact .punctuator p
  . split at h
    . unfold spread at h
      split at h <;> cases h
      exact .punctuator .spread
    . split at h
      . next hquote =>
        subst hquote
        exact spells_of_string h
      . split at h
        . exact spells_of_number h
        . split at h
          . next hstart =>
            cases h
            exact .name (isNameText_name hstart)
          . cases h

theorem length_le_of_scan_number {c : Char} {rest other : List Char} {lexeme : Lexeme}
    {sign whole fraction exponent : List Char} (h : scan c rest = .ok lexeme)
    (hparts : IsNumberText sign whole fraction exponent)
    (hspelling : other = sign ++ whole ++ fraction ++ exponent) (hbegins : other <+: c :: rest)
    : other.length ≤ lexeme.spelling.length := by
  obtain ⟨d, text, hcons, hd⟩ := exists_cons_of_numberText hparts
  have hfirst : d = c := by
    rw [hspelling, hcons] at hbegins
    exact (List.cons_prefix_cons.mp hbegins).1
  subst hfirst
  rw [scan_number hd] at h
  obtain ⟨_, _, _, _, hlexeme, hlexemeSpelling, _, hends⟩ := exists_numberText_of_number h
  rw [← number_append h] at hbegins
  exact length_le_of_numberText hlexeme hlexemeSpelling hends hparts hspelling hbegins

theorem length_le_of_scan {c : Char} {rest other : List Char} {kind : Token.Kind} {lexeme : Lexeme}
    (h : scan c rest = .ok lexeme) (hother : kind.Spells other) (hbegins : other <+: c :: rest)
    : other.length ≤ lexeme.spelling.length := by
  obtain ⟨after, heq⟩ := id hbegins
  cases hother with
  | punctuator p =>
    obtain ⟨d, text, hsymbol, hscan⟩ := scan_punctuator p after
    rw [hsymbol, List.cons_append, List.cons.injEq] at heq
    obtain ⟨rfl, rfl⟩ := heq
    cases hscan.symm.trans h
    exact Nat.le_refl _
  | name hname =>
    -- The name that is read is all of this one and what continues it.
    have hlonger : IsNameText (other ++ after.takeWhile isNameContinue) := by
      obtain ⟨d, text, rfl, hstart, hcontinue⟩ := hname
      exact ⟨d, _, rfl, hstart, List.forall_mem_append.mpr
        ⟨hcontinue, fun e he => List.mem_takeWhile_imp he⟩⟩
    obtain ⟨d, text, hcons, hscan⟩ := scan_name hlonger (heads_dropWhile after)
    have hall : d :: (text ++ after.dropWhile isNameContinue) = c :: rest := by
      rw [← List.cons_append, ← hcons, List.append_assoc, List.takeWhile_append_dropWhile, heq]
    cases hall
    cases hscan.symm.trans h
    simp
  | int hparts => exact length_le_of_scan_number h hparts (by simp) hbegins
  | float hparts _ => exact length_le_of_scan_number h hparts rfl hbegins
  | string hinner =>
    rw [List.cons_append, List.cons.injEq] at heq
    obtain ⟨rfl, heq⟩ := heq
    exact length_le_of_stringText hinner (heq.symm.trans (List.append_assoc ..)) h
  | block hblock =>
    rw [List.cons_append, List.cons.injEq] at heq
    obtain ⟨rfl, rfl⟩ := heq
    cases (string_append_of_blockText hblock after).symm.trans h
    exact Nat.le_refl _

end Lexeme

end GraphGateway
