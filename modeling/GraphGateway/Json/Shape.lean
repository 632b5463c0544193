import GraphGateway.Json.Skip

/-!
This module contains the forms that JSON texts are expected to have. What has the expected form is
read with the members of every record in their declared order and with all defaults filled in.

A text is checked while it is read, so that the first fault in it is reported, whether it is
one of JSON or of the form. A fault of the form that is found between two values is placed
where its container ends.
-/

namespace GraphGateway
namespace Json

/-- A member of a record, with the value that it has if it is missing and may be. -/
structure MemberOf (σ : Type) where
  name : String
  shape : σ
  fallback : Option Json

inductive Shape where
  | any
  | text
  | flag
  | natural (type : String) (bound : Nat)
  | optional (inner : Shape)
  | list (inner : Shape)
  | table
  | record (name : String) (closed : Bool) (members : List (MemberOf Shape))
  | word (words : List String)
  | tagged (name tag : String) (variants : List (String × Option (List (MemberOf Shape))))
  | untagged (name : String) (options : List Shape)

namespace Shape

abbrev Member := MemberOf Shape

def required (name : String) (shape : Shape) : Member :=
  ⟨name, shape, none⟩

def defaulted (name : String) (shape : Shape) (value : Json) : Member :=
  ⟨name, shape, some value⟩

def elements (count : Nat) : String :=
  if count = 1 then "1 element" else s!"{count} elements"

/-! # Values -/

def acceptNatural (type : String) (bound : Nat) (n : Number) : Except Reason Json :=
  match n with
  | .integer n =>
    if 0 ≤ n && n ≤ bound then .ok (.int n) else .error (.invalidValue (.integer n) type)
  | .double d => .error (.invalidType (.double d) type)

def acceptWord (words : List String) (name : String) : Except Reason Json :=
  if name ∈ words then .ok (.string name) else .error (.unknownVariant name words)

def mismatch {α : Type} (v : Json) (expected : String) : Except Reason α :=
  .error (.invalidType (.ofJson v) expected)

/-- A word may also be the only key of an object whose value is null. -/
def acceptWordValue (words : List String) (v : Json) : Except Reason Json :=
  match v with
  | .string name => acceptWord words name
  | .object [(name, .null)] => acceptWord words name
  | .object [(name, v)] => do
    let _ ← acceptWord words name
    mismatch v "unit"
  | .object _ => .error (.invalidValue .map "map with a single key")
  | v => mismatch v "string or map"

structure Slot where
  name : String
  accept : Json → Except Reason Json
  fallback : Option Json

namespace Slot

def fromMembers (slots : List Slot) (closed : Bool) (pairs : List (String × Json))
    : Except Reason Members := do
  let found ← pairs.foldlM take []
  slots.mapM fun slot =>
    match Ordered.get? found slot.name, slot.fallback with
    | some v, _ => .ok (slot.name, v)
    | none, some v => .ok (slot.name, v)
    | none, none => .error (.missingField slot.name)
where
  take (found : Members) (pair : String × Json) : Except Reason Members :=
    match slots.find? fun slot => slot.name = pair.1 with
    | none =>
      if closed then .error (.unknownField pair.1 (slots.map Slot.name)) else .ok found
    | some slot =>
      if Ordered.contains found pair.1 then .error (.duplicateField pair.1)
      else do return found ++ [(pair.1, ← slot.accept pair.2)]

def fromElements (slots : List Slot) (name : String) (items : List Json)
    : Except Reason Members := do
  let found ← (slots.zipIdx).mapM fun (slot, i) =>
    match items[i]?, slot.fallback with
    | some v, _ => do return (slot.name, ← slot.accept v)
    | none, some v => .ok (slot.name, v)
    | none, none => .error (.invalidLength i s!"{name} with {elements slots.length}")
  if slots.length < items.length then
    .error (.invalidLength items.length s!"{elements slots.length} in sequence")
  else
    return found

def fromValue (slots : List Slot) (name : String) (closed : Bool) (v : Json)
    : Except Reason Json :=
  match v with
  | .object pairs => do return .object (← fromMembers slots closed pairs)
  | .array items => do return .object (← fromElements slots name items)
  | v => mismatch v name

end Slot

inductive Content where
  | members (pairs : List (String × Json))
  | elements (items : List Json)

/-- Checks the content of a variant. One without members takes any object, but no elements. -/
def acceptVariant (name variant : String) (slots : Option (List Slot)) (content : Content)
    : Except Reason Members :=
  match slots, content with
  | none, .members _ => .ok []
  | none, .elements [] => .ok []
  | none, .elements items => .error (.invalidLength items.length (elements 0 ++ " in sequence"))
  | some slots, .members pairs => Slot.fromMembers slots false pairs
  | some slots, .elements items =>
    Slot.fromElements slots s!"struct variant {name}::{variant}" items

def capitalized (word : String) : String :=
  match word.toList with
  | [] => ""
  | c :: rest => String.ofList (c.toUpper :: rest)

def acceptContent (name tag : String) (variants : List (String × Option (List Slot)))
    (variant : String) (content : Content)
    : Except Reason Json := do
  let slots := (Ordered.get? variants variant).getD none
  let members ← acceptVariant name (capitalized variant) slots content
  return .object ((tag, .string variant) :: members)

def acceptTagged (name tag : String) (variants : List (String × Option (List Slot))) (v : Json)
    : Except Reason Json :=
  match v with
  | .object pairs =>
    match Ordered.get? pairs tag with
    | none => .error (.missingField tag)
    | some (.string variant) => do
      let _ ← acceptWord (Ordered.keys variants) variant
      acceptContent name tag variants variant (.members (pairs.filter (·.1 != tag)))
    | some v => mismatch v "variant identifier"
  | .array [] => .error (.missingField tag)
  | .array (.string variant :: items) => do
    let _ ← acceptWord (Ordered.keys variants) variant
    acceptContent name tag variants variant (.elements items)
  | .array (v :: _) => mismatch v "variant identifier"
  | v => mismatch v s!"internally tagged enum {name}"

def firstOk (name : String) (accepts : List (Json → Except Reason Json)) (v : Json)
    : Except Reason Json :=
  match accepts.findSome? fun accept => (accept v).toOption with
  | some v => .ok v
  | none => .error (.noVariant name)

mutual

def accept : Shape → Json → Except Reason Json
  | any, v => .ok v
  | text, .string s => .ok (.string s)
  | text, v => mismatch v "a string"
  | flag, .bool b => .ok (.bool b)
  | flag, v => mismatch v "a boolean"
  | natural type bound, .number n => acceptNatural type bound n
  | natural type _, v => mismatch v type
  | optional _, .null => .ok .null
  | optional inner, v => inner.accept v
  | list inner, .array items => do return .array (← items.mapM inner.accept)
  | list _, v => mismatch v "a sequence"
  | table, .object members => .ok (.object members)
  | table, v => mismatch v "a map"
  | record name closed members, v => Slot.fromValue (slots members) s!"struct {name}" closed v
  | word words, v => acceptWordValue words v
  | tagged name tag variants, v => acceptTagged name tag (variantSlots variants) v
  | untagged name options, v => firstOk name (accepts options) v

def slots : List (MemberOf Shape) → List Slot
  | [] => []
  | ⟨name, shape, fallback⟩ :: rest => ⟨name, shape.accept, fallback⟩ :: slots rest

def variantSlots
    : List (String × Option (List (MemberOf Shape))) → List (String × Option (List Slot))
  | [] => []
  | (name, none) :: rest => (name, none) :: variantSlots rest
  | (name, some members) :: rest => (name, some (slots members)) :: variantSlots rest

def accepts : List Shape → List (Json → Except Reason Json)
  | [] => []
  | shape :: rest => shape.accept :: accepts rest

end

/-! # Texts -/

def orFail {α : Type} (result : Except Reason α) : Read α :=
  match result with
  | .ok a => return a
  | .error reason => Read.fail reason

/-- Reads a scalar in order to say that it is not what was expected. -/
def unexpected {α : Type} (start : Char) (expected : String) : Read α := do
  if start = '[' then Read.fail (.invalidType .sequence expected)
  else if start = '\x7b' then Read.fail (.invalidType .map expected)
  else
    let v ← Read.valueFrom 0 start
    Read.fail (.invalidType (.ofJson v) expected)

def start : Read Char := do
  match ← Read.peekPastSpace with
  | some c => return c
  | none => Read.failAhead .endInValue

def enter (left : Nat) : Read Nat := do
  match left with
  | 0 => Read.failAhead .recursionLimit
  | left + 1 =>
    Read.skip
    return left

def readText : Read String :=
  .placed do
    let c ← start
    if c = '"' then
      Read.skip
      Read.stringBody
    else
      unexpected c "a string"

def readFlag : Read Json :=
  .placed do
    let c ← start
    if c = 't' || c = 'f' then Read.valueFrom 0 c else unexpected c "a boolean"

def readNatural (type : String) (bound : Nat) : Read Json :=
  .placed do
    let c ← start
    if c = '-' then
      Read.skip
      orFail (acceptNatural type bound (← Read.number true))
    else if c.isDigit then orFail (acceptNatural type bound (← Read.number false))
    else unexpected c type

def readVariant (words : List String) : Read String :=
  .placed do
    let c ← start
    if c = '"' then
      Read.skip
      let name ← Read.stringBody
      let _ ← orFail (acceptWord words name)
      return name
    else
      unexpected c "variant identifier"

def readNull : Read Unit :=
  .placed do
    let c ← start
    if c = 'n' then discard (Read.valueFrom 0 c) else unexpected c "unit"

def readWord (left : Nat) (words : List String) : Read Json := do
  match ← Read.peekPastSpace with
  | none => Read.failAhead .endInValue
  | some '"' => return .string (← readVariant words)
  | some '\x7b' =>
    let _ ← enter left
    match ← start with
    | '"' => pure ()
    | '\x7d' => Read.failAhead .expectedValue
    | _ => Read.failAhead .keyNotString
    let name ← readVariant words
    Read.colon
    readNull
    match ← Read.peekPastSpace with
    | some '\x7d' =>
      Read.skip
      return .string name
    | some _ => Read.failHere .expectedValue
    | none => Read.failHere .endInObject
  | some _ => Read.failAhead .expectedValue

structure Reader where
  name : String
  read : Read Json
  fallback : Option Json

namespace Reader

def members (readers : List Reader) (closed : Bool) : Read Members := do
  let found ← go (← Read.rounds) true []
  readers.mapM fun reader =>
    match Ordered.get? found reader.name, reader.fallback with
    | some v, _ => return (reader.name, v)
    | none, some v => return (reader.name, v)
    | none, none => Read.fail (.missingField reader.name)
where
  go : List UInt8 → Bool → Members → Read Members
    | [], _, found => return found
    | _ :: left, first, found => do
      if ← Read.hasMember first then
        let name ← Read.key
        match readers.find? fun reader => reader.name = name with
        | none =>
          if closed then Read.fail (.unknownField name (readers.map Reader.name))
          Read.colon
          Read.skipValue
          go left false found
        | some reader =>
          if Ordered.contains found name then Read.fail (.duplicateField name)
          Read.colon
          let v ← reader.read
          go left false (found ++ [(name, v)])
      else
        return found

def elements (readers : List Reader) (name : String) : Read Members :=
  (readers.zipIdx).mapM fun (reader, i) => do
    if ← Read.hasItem (i = 0) then return (reader.name, ← reader.read)
    else
      match reader.fallback with
      | some v => return (reader.name, v)
      | none => Read.fail (.invalidLength i s!"{name} with {Shape.elements readers.length}")

/-- A record may also be a list of its members in order. -/
def record (readers : Nat → List Reader) (left : Nat) (name : String) (closed : Bool)
    : Read Json :=
  .placed do
    let c ← start
    if c = '[' then
      let left ← enter left
      return .object (← Read.closedBy (elements (readers left) name) Read.endList)
    else if c = '\x7b' then
      let left ← enter left
      return .object (← Read.closedBy (members (readers left) closed) Read.endObject)
    else
      unexpected c name

end Reader

def taggedMembers (left : Nat) (tag : String) (words : List String)
    : Read (String × Content) := do
  let (variant, pairs) ← go (← Read.rounds) true none []
  match variant with
  | some variant => return (variant, .members pairs)
  | none => Read.fail (.missingField tag)
where
  go : List UInt8 → Bool → Option String → List (String × Json)
      → Read (Option String × List (String × Json))
    | [], _, variant, pairs => return (variant, pairs)
    | _ :: rounds, first, variant, pairs => do
      if ← Read.hasMember first then
        let name ← Read.key
        if name = tag then
          if variant.isSome then Read.fail (.duplicateField tag)
          Read.colon
          let word ← readVariant words
          go rounds false (some word) pairs
        else
          Read.colon
          let v ← Read.value left
          go rounds false variant (pairs ++ [(name, v)])
      else
        return (variant, pairs)

def taggedElements (left : Nat) (tag : String) (words : List String)
    : Read (String × Content) := do
  if ← Read.hasItem true then
    let variant ← readVariant words
    let items ← go (← Read.rounds)
    return (variant, .elements items)
  else
    Read.fail (.missingField tag)
where
  go : List UInt8 → Read (List Json)
    | [] => return []
    | _ :: rounds => do
      if ← Read.hasItem false then
        let v ← Read.value left
        return v :: (← go rounds)
      else
        return []

/-- Reads a tagged value. What is wrong with its content shows only when all of it is read. -/
def readTagged (left : Nat) (name tag : String) (variants : List (String × Option (List Slot)))
    : Read Json := do
  let words := Ordered.keys variants
  let (variant, content) ← Read.placed do
    let c ← start
    if c = '[' then
      let left ← enter left
      Read.closedBy (taggedElements left tag words) Read.endList
    else if c = '\x7b' then
      let left ← enter left
      Read.closedBy (taggedMembers left tag words) Read.endObject
    else
      unexpected c s!"internally tagged enum {name}"
  orFail (acceptContent name tag variants variant content)

mutual

def read : Shape → Nat → Read Json
  | any, left => Read.value left
  | text, _ => return .string (← readText)
  | flag, _ => readFlag
  | natural type bound, _ => readNatural type bound
  | optional inner, left => do
    if (← Read.peekPastSpace) = some 'n' then Read.valueFrom 0 'n' else inner.read left
  | list inner, left =>
    .placed do
      let c ← start
      if c = '[' then
        let left ← enter left
        return .array (← Read.closedBy (Read.items (inner.read left)) Read.endList)
      else
        unexpected c "a sequence"
  | table, left =>
    .placed do
      let c ← start
      if c = '\x7b' then Read.valueFrom left c else unexpected c "a map"
  | record name closed members, left =>
    Reader.record (readers members) left s!"struct {name}" closed
  | word words, left => readWord left words
  | tagged name tag variants, left => readTagged left name tag (variantSlots variants)
  | untagged name options, left => do
    let v ← Read.value left
    orFail (firstOk name (accepts options) v)

def readers : List (MemberOf Shape) → Nat → List Reader
  | [], _ => []
  | ⟨name, shape, fallback⟩ :: rest, left =>
    ⟨name, shape.read left, fallback⟩ :: readers rest left

end

def ofBytes (shape : Shape) (bytes : List UInt8) : Except Fault Json :=
  Read.run (shape.read Read.maxNesting) bytes

def ofString (shape : Shape) (text : String) : Except Fault Json :=
  shape.ofBytes text.toUTF8.toList

end Shape

end Json
end GraphGateway
