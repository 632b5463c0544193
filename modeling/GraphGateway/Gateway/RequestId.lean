/-!
This module contains the identifiers of requests: 16 random bytes, of which a few bits say
that they are random.
-/

namespace GraphGateway

structure RequestId where
  bytes : List UInt8
deriving DecidableEq, Repr

namespace RequestId

/-- The identifier of random bytes; those that are missing are zero. -/
def ofRandom (bytes : List UInt8) : RequestId :=
  let bytes := (bytes ++ List.replicate 16 0).take 16
  ⟨(bytes.modify 6 fun byte => byte &&& 0x0f ||| 0x40).modify 8 fun byte => byte &&& 0x3f ||| 0x80⟩

def hexDigits (byte : UInt8) : List Char :=
  [Nat.digitChar (byte.toNat / 16), Nat.digitChar (byte.toNat % 16)]

/--
The bytes in hexadecimal digits, in groups of 4, 2, 2, 2 and 6 bytes with hyphens between them.
-/
def text (id : RequestId) : String :=
  let group (start count : Nat) :=
    String.ofList (((id.bytes.drop start).take count).flatMap hexDigits)
  String.intercalate "-" [group 0 4, group 4 2, group 6 2, group 8 2, group 10 6]

theorem length_bytes_ofRandom (bytes : List UInt8) : (ofRandom bytes).bytes.length = 16 := by
  simp [ofRandom]

end RequestId

end GraphGateway
