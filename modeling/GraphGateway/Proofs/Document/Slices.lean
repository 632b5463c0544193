import GraphGateway.Document.Scan
import GraphGateway.Proofs.Document.Dedent
import GraphGateway.Result

/-!
This module contains the value of a block string in terms of bytes, as it is found in a text in
UTF-8, where a cut beyond the end of a line or within a character would be a fault. There is none: a
line is cut only within spaces and tabs, of which each has one byte.
-/

namespace GraphGateway

namespace Text

def bytes (text : List Char) : List UInt8 :=
  text.flatMap String.utf8EncodeChar

inductive SliceFault where
  | beyondEnd
  | withinCharacter
deriving DecidableEq, Repr

def sliceFrom (n : Nat) (text : List Char) : Except SliceFault (List Char) :=
  match n, text with
  | 0, text => .ok text
  | _ + 1, [] => .error .beyondEnd
  | n, c :: rest =>
    if n < (String.utf8EncodeChar c).length then .error .withinCharacter
    else sliceFrom (n - (String.utf8EncodeChar c).length) rest

theorem bytes_cons (c : Char) (rest : List Char)
    : bytes (c :: rest) = String.utf8EncodeChar c ++ bytes rest := rfl

theorem bytes_append (front rest : List Char) : bytes (front ++ rest) = bytes front ++ bytes rest :=
  List.flatMap_append

theorem length_encode_pos (c : Char) : 0 < (String.utf8EncodeChar c).length := by
  rw [String.length_utf8EncodeChar]
  exact c.utf8Size_pos

theorem length_le_length_bytes (text : List Char) : text.length ≤ (bytes text).length := by
  induction text with
  | nil => rfl
  | cons c rest ih =>
    have hpos := length_encode_pos c
    rw [bytes_cons, List.length_append, List.length_cons]
    omega

theorem sliceFrom_eq_ok_iff {n : Nat} {text rest : List Char}
    : sliceFrom n text = .ok rest ↔ ∃ front, text = front ++ rest ∧ (bytes front).length = n := by
  constructor
  . intro h
    fun_induction sliceFrom n text with
    | case1 text =>
      cases h
      exact ⟨[], rfl, rfl⟩
    | case2 => cases h
    | case3 => cases h
    | case4 n c text hn hle ih =>
      obtain ⟨front, rfl, hlength⟩ := ih h
      refine ⟨c :: front, rfl, ?_⟩
      rw [bytes_cons, List.length_append, hlength]
      omega
  . rintro ⟨front, rfl, rfl⟩
    induction front with
    | nil =>
      unfold sliceFrom
      rfl
    | cons c front ih =>
      have hpos := length_encode_pos c
      have hlength : (bytes (c :: front)).length
          = (String.utf8EncodeChar c).length + (bytes front).length := by
        rw [bytes_cons, List.length_append]
      obtain ⟨n, hn⟩ : ∃ n, (bytes (c :: front)).length = n + 1 :=
        Nat.exists_eq_add_one.mpr (by omega)
      rw [hn, List.cons_append, sliceFrom, if_neg (by omega)]
      . rw [← ih]
        congr 1
        omega
      . simp

end Text

namespace BlockString

open Text (bytes bytes_append length_le_length_bytes SliceFault sliceFrom sliceFrom_eq_ok_iff)

/-! ### The value by bytes -/

/-- The bytes by which a line is longer than what is left when its indentation is trimmed. -/
def indentBytes (line : List Char) : Nat :=
  (bytes line).length - (bytes (line.dropWhile isIndent)).length

def commonIndentBytes (lines : List (List Char)) : Nat :=
  let indents := (lines.drop 1).filterMap fun line =>
    if indentBytes line < (bytes line).length then some (indentBytes line) else none
  indents.min?.getD 0

/-- A line that has fewer bytes than the common indentation is kept. -/
def cutBytes (indent : Nat) (line : List Char) : Except SliceFault (List Char) :=
  if (bytes line).length < indent then .ok line else sliceFrom indent line

def dedentBytes (lines : List (List Char)) : Except SliceFault (List (List Char)) :=
  match lines with
  | [] => .ok []
  | first :: rest => do return first :: (← rest.mapM (cutBytes (commonIndentBytes lines)))

/-- The value of a block string with the given body, unless a line is cut where it cannot be. -/
def valueBytes (raw : List Char) : Except SliceFault (List Char) := do
  return ['\n'].intercalate (trimBlankLines (← dedentBytes (splitLines raw)))

/-! ### Bytes and characters -/

theorem bytes_of_isIndent {text : List Char} (h : ∀ c ∈ text, isIndent c)
    : (∀ b ∈ bytes text, b = 0x20 ∨ b = 0x09) ∧ (bytes text).length = text.length := by
  induction text with
  | nil => exact ⟨nofun, rfl⟩
  | cons c rest ih =>
    obtain ⟨hc, hrest⟩ := List.forall_mem_cons.mp h
    obtain ⟨hbytes, hlength⟩ := ih hrest
    unfold isIndent at hc
    obtain rfl | rfl : c = ' ' ∨ c = '\t' := by simpa using hc
    . have hspace : bytes (' ' :: rest) = 0x20 :: bytes rest := rfl
      rw [hspace, List.forall_mem_cons, List.length_cons, hlength]
      exact ⟨⟨.inl rfl, hbytes⟩, rfl⟩
    . have htab : bytes ('\t' :: rest) = 0x09 :: bytes rest := rfl
      rw [htab, List.forall_mem_cons, List.length_cons, hlength]
      exact ⟨⟨.inr rfl, hbytes⟩, rfl⟩

theorem indentBytes_eq (line : List Char) : indentBytes line = indentation line := by
  have hindent : (bytes (line.takeWhile isIndent)).length = indentation line :=
    (bytes_of_isIndent fun _ => List.mem_takeWhile_imp).2
  have hsplit :=
    congrArg List.length (bytes_append (line.takeWhile isIndent) (line.dropWhile isIndent))
  rw [List.takeWhile_append_dropWhile, List.length_append, hindent] at hsplit
  unfold indentBytes
  omega

theorem indentation_lt_length_bytes_iff (line : List Char)
    : indentation line < (bytes line).length ↔ indentation line < line.length := by
  refine ⟨fun h => ?_, fun h => h.trans_le (length_le_length_bytes line)⟩
  rw [indentation_lt_length_iff]
  intro hall
  rw [(bytes_of_isIndent (List.all_eq_true.mp hall)).2, indentation_lt_length_iff] at h
  exact h hall

theorem commonIndentBytes_eq (lines : List (List Char))
    : commonIndentBytes lines = commonIndent lines := by
  unfold commonIndentBytes commonIndent
  simp only [indentBytes_eq, indentation_lt_length_bytes_iff]

/-! ### No fault -/

section Cut

variable {lines : List (List Char)} {line : List Char}

theorem isIndent_of_mem_take_commonIndent (hline : line ∈ lines.tail)
    : ∀ c ∈ line.take (commonIndent lines), isIndent c := by
  cases lines with
  | nil => cases hline
  | cons first rest =>
    have hmarked : (line, margin (first :: rest)) ∈ marked (first :: rest) :=
      List.mem_cons_of_mem _ (List.mem_map_of_mem hline)
    rw [commonIndent_eq_margin]
    exact isIndent_of_mem_take hmarked

theorem length_bytes_lt_commonIndent_iff (hline : line ∈ lines.tail)
    : (bytes line).length < commonIndent lines ↔ line.length < commonIndent lines := by
  refine ⟨(length_le_length_bytes line).trans_lt, fun h => ?_⟩
  have hindent := isIndent_of_mem_take_commonIndent hline
  rw [List.take_of_length_le h.le] at hindent
  rwa [(bytes_of_isIndent hindent).2]

theorem length_bytes_take_commonIndent (hline : line ∈ lines.tail)
    (h : commonIndent lines ≤ (bytes line).length)
    : (bytes (line.take (commonIndent lines))).length = commonIndent lines := by
  have hlength : commonIndent lines ≤ line.length :=
    Nat.le_of_not_lt fun hlt => h.not_gt ((length_bytes_lt_commonIndent_iff hline).mpr hlt)
  rw [(bytes_of_isIndent (isIndent_of_mem_take_commonIndent hline)).2,
    List.length_take_of_le hlength]

theorem sliceFrom_commonIndent (hline : line ∈ lines.tail)
    (h : commonIndent lines ≤ (bytes line).length)
    : sliceFrom (commonIndent lines) line = .ok (line.drop (commonIndent lines)) :=
  sliceFrom_eq_ok_iff.mpr
    ⟨_, (List.take_append_drop _ _).symm, length_bytes_take_commonIndent hline h⟩

theorem cutBytes_eq (hline : line ∈ lines.tail)
    : cutBytes (commonIndentBytes lines) line = .ok (cut (commonIndent lines) line) := by
  unfold cutBytes cut
  rw [commonIndentBytes_eq]
  simp only [length_bytes_lt_commonIndent_iff hline]
  split
  . rfl
  . next hle =>
    rw [← length_bytes_lt_commonIndent_iff hline] at hle
    exact sliceFrom_commonIndent hline (Nat.le_of_not_lt hle)

end Cut

theorem dedentBytes_eq (lines : List (List Char)) : dedentBytes lines = .ok (dedent lines) := by
  cases lines with
  | nil => rfl
  | cons first rest =>
    have hrest : rest.mapM (cutBytes (commonIndentBytes (first :: rest)))
        = .ok (rest.map (cut (commonIndent (first :: rest)))) :=
      mapM_eq_ok_map fun line hline => cutBytes_eq hline
    unfold dedentBytes dedent
    dsimp only
    rw [hrest]
    rfl

theorem valueBytes_eq (raw : List Char) : valueBytes raw = .ok (value raw) := by
  unfold valueBytes
  rw [dedentBytes_eq]
  rfl

end BlockString

/-! ### Texts -/

open Text (SliceFault)

namespace Lexeme

open SyntaxError (Cause)

def stringBytes (text : List Char) : Except (SliceFault ⊕ Cause) Lexeme :=
  match text with
  | '"' :: '"' :: '"' :: rest => do
    let body ← (blockBody rest).mapError .inr
    let value ← (BlockString.valueBytes body.value).mapError .inl
    return ⟨.string (String.ofList value), ['"', '"', '"'] ++ body.spelling, body.rest⟩
  | text => (string text).mapError .inr

def scanBytes (c : Char) (rest : List Char) : Except (SliceFault ⊕ Cause) Lexeme :=
  if c = '"' then stringBytes (c :: rest) else (scan c rest).mapError .inr

theorem stringBytes_eq (text : List Char) : stringBytes text = (string text).mapError .inr := by
  unfold stringBytes
  split
  . next rest =>
    rw [string]
    cases hbody : blockBody rest with
    | error cause => rfl
    | ok body =>
      dsimp only [Except.mapError, bind, Except.bind]
      rw [BlockString.valueBytes_eq]
      rfl
  . rfl

theorem scanBytes_eq (c : Char) (rest : List Char)
    : scanBytes c rest = (scan c rest).mapError .inr := by
  unfold scanBytes
  split
  . next hc =>
    subst hc
    exact stringBytes_eq _
  . rfl

end Lexeme

namespace Tokens

/-- The tokens of the text that begins at a position, as `scanFrom` finds them but by bytes. -/
def scanBytesFrom (position : Position) (text : List Char)
    : Except (SliceFault ⊕ SyntaxError) (List Token × Position) :=
  let position := position.after (Lexeme.splitIgnored text).1
  match _hrest : (Lexeme.splitIgnored text).2 with
  | [] => .ok ([], position)
  | c :: rest =>
    match _hscan : Lexeme.scanBytes c rest with
    | .error (.inl fault) => .error (.inl fault)
    | .error (.inr cause) => .error (.inr ⟨cause, position⟩)
    | .ok lexeme => do
      let (tokens, stop) ← scanBytesFrom (position.after lexeme.spelling) lexeme.rest
      return (⟨lexeme.kind, position⟩ :: tokens, stop)
termination_by text.length
decreasing_by
  rw [Lexeme.scanBytes_eq] at _hscan
  exact length_lt_of_scan ‹_› (mapError_eq_ok _hscan)

def ofTextBytes (text : String) : Except (SliceFault ⊕ SyntaxError) Tokens := do
  let (rest, stop) ← scanBytesFrom .start (stripMark text.toList)
  return ⟨rest, stop⟩

theorem scanBytesFrom_eq (position : Position) (text : List Char)
    : scanBytesFrom position text = (scanFrom position text).mapError .inr := by
  -- The lexeme is the same by bytes, so that both go on in the same way after it.
  fun_induction scanFrom position text with
  | case1 position text ignored position' hrest =>
    rw [scanBytesFrom]
    split
    . rfl
    . next h => cases h.symm.trans hrest
  | case2 position text ignored position' c rest hrest cause hscan =>
    have hbytes : Lexeme.scanBytes c rest = .error (.inr cause) := by
      rw [Lexeme.scanBytes_eq, hscan]
      rfl
    rw [scanBytesFrom]
    split
    . next h => cases h.symm.trans hrest
    . next h =>
      cases h.symm.trans hrest
      split
      . next h => cases h.symm.trans hbytes
      . next h =>
        cases h.symm.trans hbytes
        rfl
      . next h => cases h.symm.trans hbytes
  | case3 position text ignored position' c rest hrest lexeme hscan ih =>
    have hbytes : Lexeme.scanBytes c rest = .ok lexeme := by
      rw [Lexeme.scanBytes_eq, hscan]
      rfl
    rw [scanBytesFrom]
    split
    . next h => cases h.symm.trans hrest
    . next h =>
      cases h.symm.trans hrest
      split
      . next h => cases h.symm.trans hbytes
      . next h => cases h.symm.trans hbytes
      . next h =>
        cases h.symm.trans hbytes
        rw [ih]
        cases scanFrom (position'.after lexeme.spelling) lexeme.rest <;> rfl

theorem ofTextBytes_eq (text : String) : ofTextBytes text = (ofText text).mapError .inr := by
  unfold ofTextBytes ofText
  rw [scanBytesFrom_eq]
  cases scanFrom .start (stripMark text.toList) <;> rfl

end Tokens

namespace BlockString

open Text (bytes bytes_append sliceFrom)

/--
A line after the first that has the bytes of the common indentation begins with as many spaces and
tabs, so that a cut after them is in range, at the beginning of a character, and takes away nothing
else. There is a value for every body then, and all texts have the tokens that are found for
characters, or the same syntax error.
-/
theorem sliced_within_indentation
    : (∀ raw : List Char,
        (∀ line ∈ (splitLines raw).tail,
          let indent := commonIndentBytes (splitLines raw)
          indent ≤ (bytes line).length →
            (∀ b ∈ (bytes line).take indent, b = 0x20 ∨ b = 0x09)
              ∧ ∃ front rest, line = front ++ rest ∧ bytes front = (bytes line).take indent
                ∧ (∀ c ∈ front, isIndent c) ∧ sliceFrom indent line = .ok rest)
          ∧ valueBytes raw = .ok (value raw))
        ∧ ∀ text, Tokens.ofTextBytes text = (Tokens.ofText text).mapError .inr := by
  refine ⟨fun raw => ⟨?_, valueBytes_eq raw⟩, Tokens.ofTextBytes_eq⟩
  intro line hline indent hle
  have hindent : indent = commonIndent (splitLines raw) := commonIndentBytes_eq _
  rw [hindent] at hle ⊢
  have hfront := isIndent_of_mem_take_commonIndent hline
  have hlength := length_bytes_take_commonIndent hline hle
  have hbytes : bytes (line.take (commonIndent (splitLines raw)))
      = (bytes line).take (commonIndent (splitLines raw)) := by
    conv_rhs => rw [← List.take_append_drop (commonIndent (splitLines raw)) line, bytes_append]
    rw [List.take_left' hlength]
  rw [← hbytes]
  exact ⟨(bytes_of_isIndent hfront).1, _, _, (List.take_append_drop _ _).symm, rfl, hfront,
    sliceFrom_commonIndent hline hle⟩

/--
The third byte of the second line begins a character of two bytes, within which it could not be cut.
-/
theorem sliced_within_indentation_accent
    : let raw := "a\n  é\n \tb".toList
      let line := "  é".toList
      line ∈ (splitLines raw).tail ∧ commonIndentBytes (splitLines raw) = 2
        ∧ 2 ≤ (bytes line).length ∧ sliceFrom 3 line = .error .withinCharacter
        ∧ (∀ b ∈ (bytes line).take 2, b = 0x20 ∨ b = 0x09)
        ∧ ∃ front rest, line = front ++ rest ∧ sliceFrom 2 line = .ok rest := by
  intro raw line
  have hline : line ∈ (splitLines raw).tail := by
    decide
  have hindent : commonIndentBytes (splitLines raw) = 2 := by
    decide
  have hle : 2 ≤ (bytes line).length := by
    decide
  have h := (sliced_within_indentation.1 raw).1 line hline
  rw [hindent] at h
  obtain ⟨hbytes, front, rest, happend, _, _, hslice⟩ := h hle
  exact ⟨hline, hindent, hle, rfl, hbytes, front, rest, happend, hslice⟩

end BlockString
end GraphGateway
