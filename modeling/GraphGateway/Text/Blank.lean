import GraphGateway.Text.CharTable

/-!
This module contains the characters with the Unicode property `White_Space` and the trimming of text
by that class.
-/

namespace GraphGateway
namespace Text

def whiteSpace : CharTable :=
  [ (0x9, 0xd), (0x20, 0x20), (0x85, 0x85), (0xa0, 0xa0), (0x1680, 0x1680), (0x2000, 0x200a),
    (0x2028, 0x2029), (0x202f, 0x202f), (0x205f, 0x205f), (0x3000, 0x3000)
  ]

def isBlank (c : Char) : Bool :=
  whiteSpace.contains c

def trim (text : List Char) : List Char :=
  ((text.dropWhile isBlank).reverse.dropWhile isBlank).reverse

theorem trim_eq_nil_of_blank (text : List Char) (h : ∀ c ∈ text, isBlank c = true)
    : trim text = [] := by
  have : text.dropWhile isBlank = [] := by
    induction text with
    | nil => rfl
    | cons c rest ih => simp_all
  simp [trim, this]

end Text
end GraphGateway
