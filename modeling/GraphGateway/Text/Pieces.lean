/-!
This module contains the splitting of text at a character.
-/

namespace GraphGateway
namespace Text

def joinFirst (c : Char) (pieces : List (List Char)) : List (List Char) :=
  match pieces with
  | [] => [[c]]
  | piece :: rest => (c :: piece) :: rest

/-- The pieces between the separators, of which there is one more than there are separators. -/
def pieces (separator : Char) (text : List Char) : List (List Char) :=
  match text with
  | [] => [[]]
  | c :: rest =>
    if c = separator then [] :: pieces separator rest
    else joinFirst c (pieces separator rest)

theorem pieces_ne_nil (separator : Char) (text : List Char) : pieces separator text ≠ [] := by
  cases text with
  | nil => simp [pieces]
  | cons c rest =>
    simp only [pieces]
    split
    . simp
    . cases pieces separator rest <;> simp [joinFirst]

theorem length_pieces (separator : Char) (text : List Char)
    : (pieces separator text).length = text.count separator + 1 := by
  induction text with
  | nil => rfl
  | cons c rest ih =>
    simp only [pieces]
    split
    . simp_all
    . have := pieces_ne_nil separator rest
      cases h : pieces separator rest <;> simp_all [joinFirst]

end Text
end GraphGateway
