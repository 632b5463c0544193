/-!
This module contains the decoding of bytes that should be UTF-8, and what is left of them where it
fails.
-/

namespace GraphGateway
namespace Text

def followingBytes (first : UInt8) : Nat :=
  if first < 0x80 then 0 else if first < 0xe0 then 1 else if first < 0xf0 then 2 else 3

def decode? (bytes : List UInt8) : Option String :=
  String.fromUTF8? bytes.toByteArray

/-- The bytes from the first one on that does not start a character. -/
def undecodable (bytes : List UInt8) : List UInt8 :=
  match bytes with
  | [] => []
  | first :: rest =>
    let count := followingBytes first
    if (decode? (first :: rest.take count)).isSome then undecodable (rest.drop count)
    else first :: rest
termination_by bytes.length
decreasing_by
  simp only [List.length_drop, List.length_cons]
  omega

theorem undecodable_isSuffix (bytes : List UInt8) : undecodable bytes <:+ bytes := by
  induction bytes using undecodable.induct with
  | case1 => simp [undecodable]
  | case2 first rest count h ih =>
    rw [undecodable, if_pos h]
    exact ih.trans ((List.drop_suffix _ _).trans (List.suffix_cons _ _))
  | case3 first rest count h =>
    have : undecodable (first :: rest) = first :: rest := by rw [undecodable, if_neg h]
    simp [this]

end Text
end GraphGateway
