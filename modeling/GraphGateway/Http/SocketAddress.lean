import GraphGateway.Text.Pieces

/-!
This module contains socket addresses: an address of version 4 or, in brackets, one of version 6,
and the number of a socket after a colon. A host name is not one.
-/

namespace GraphGateway
namespace Http

inductive IpAddress where
  | v4 (octets : List Nat)
  | v6 (groups : List Nat)
deriving DecidableEq, Repr

namespace IpAddress

def digits? (base : Nat) (text : List Char) : Option Nat :=
  if text.isEmpty then none
  else text.foldlM (fun n c => do
    let digit ← digit? c
    if digit < base then some (base * n + digit) else none) 0
where
  digit? (c : Char) : Option Nat :=
    if c.isDigit then some (c.toNat - '0'.toNat)
    else if 'a' ≤ c ∧ c ≤ 'z' then some (c.toNat - 'a'.toNat + 10)
    else if 'A' ≤ c ∧ c ≤ 'Z' then some (c.toNat - 'A'.toNat + 10)
    else none

/-- An octet has no zeros in front. -/
def octet? (text : List Char) : Option Nat := do
  let n ← digits? 10 text
  if n < 256 ∧ (text.head? ≠ some '0' ∨ text.length = 1) then some n else none

def octets? (text : List Char) : Option (List Nat) := do
  let octets ← (Text.pieces '.' text).mapM octet?
  if octets.length = 4 then some octets else none

def group? (text : List Char) : Option Nat :=
  if text.length ≤ 4 then digits? 16 text else none

/-- Groups that are separated by colons, the last two of which may be written as four octets. -/
def groups? (text : List Char) (octetsAllowed : Bool) : Option (List Nat) :=
  if text.isEmpty then some [] else go (Text.pieces ':' text)
where
  go : List (List Char) → Option (List Nat)
    | [] => some []
    | [last] =>
      match octets? last with
      | some [a, b, c, d] =>
        if octetsAllowed then some [256 * a + b, 256 * c + d] else none
      | _ => do return [← group? last]
    | piece :: rest => do return (← group? piece) :: (← go rest)

def splitAtGap : List Char → Option (List Char × List Char)
  | ':' :: ':' :: rest => some ([], rest)
  | c :: rest => (splitAtGap rest).map fun (front, back) => (c :: front, back)
  | [] => none

/-- A double colon stands for one or more groups that are zero. -/
def sixteen? (text : List Char) : Option (List Nat) := do
  match splitAtGap text with
  | none =>
    let groups ← groups? text true
    if groups.length = 8 then some groups else none
  | some (front, back) =>
    let front ← groups? front false
    let back ← groups? back true
    let given := front.length + back.length
    if given < 8 then some (front ++ List.replicate (8 - given) 0 ++ back) else none

def isLoopback : IpAddress → Bool
  | v4 octets => octets.head? = some 127
  | v6 groups => groups = [0, 0, 0, 0, 0, 0, 0, 1]

def isUnspecified : IpAddress → Bool
  | v4 octets | v6 octets => octets.all (· = 0)

end IpAddress

structure SocketAddress where
  ip : IpAddress
  number : Nat
deriving DecidableEq, Repr

namespace SocketAddress

def socket? (text : List Char) : Option Nat := do
  let n ← IpAddress.digits? 10 text
  if n < UInt16.size then some n else none

/-- What stands between brackets may end with a percent sign and a zone. -/
def bracketed? (text : List Char) : Option IpAddress := do
  let address := text.takeWhile (· ≠ '%')
  let groups ← IpAddress.sixteen? address
  match text.drop address.length with
  | [] => return .v6 groups
  | _ :: zone =>
    let n ← IpAddress.digits? 10 zone
    if n < UInt32.size then some (.v6 groups) else none

def ofString? (text : String) : Option SocketAddress := do
  match text.toList with
  | '[' :: rest =>
    let address := rest.takeWhile (· ≠ ']')
    match rest.drop address.length with
    | ']' :: ':' :: number => return ⟨← bracketed? address, ← socket? number⟩
    | _ => none
  | text =>
    match Text.pieces ':' text with
    | [host, number] => return ⟨.v4 (← IpAddress.octets? host), ← socket? number⟩
    | _ => none

end SocketAddress

end Http
end GraphGateway
