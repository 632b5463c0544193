import GraphGateway.Json.Basic

/-!
This module contains resolvers. A resolver is handed one call and replies with an outcome and with
the number of polls that go by before it has it.
-/

namespace GraphGateway

structure Call where
  parent : Json
  arguments : Json.Members
  context : Json
  typeName : String
  fieldName : String

namespace Call

def coordinate (call : Call) : String :=
  call.typeName ++ "." ++ call.fieldName

def argument? (call : Call) (name : String) : Option Json :=
  call.arguments.get? name

def property (call : Call) (name : String) : Json :=
  (call.parent.get? name).getD .null

end Call

structure FieldError where
  message : String
  extensions : Option Json.Members

namespace FieldError

def ofMessage (message : String) : FieldError :=
  ⟨message, none⟩

def withExtension (e : FieldError) (name : String) (value : Json) : FieldError :=
  ⟨e.message, some (Ordered.insert (e.extensions.getD []) name value)⟩

end FieldError

/-- A fault that ends the work on a request at once; its payload need not be a text. -/
structure Panic where
  payload : Option String
deriving DecidableEq, Repr

def Panic.message (panic : Panic) : String :=
  panic.payload.getD "unknown panic"

inductive Outcome where
  | value (v : Json)
  | error (e : FieldError)
  | panic (p : Panic)

/--
The reply of a resolver: the polls that find it unfinished, a note that it leaves when it
finishes, and the outcome.
-/
structure Reply where
  delay : Nat
  note : Option String
  outcome : Outcome

/--
A resolver computes its reply from the parent, the arguments and the context it is handed and keeps
no state of its own, so that equal calls are answered alike, whenever and at whichever position they
are made. It may fail, panic or take any number of polls. Runs in which equal calls take a different
number of polls are those of `Plan.executeDelayed`.
-/
abbrev Resolver := Call → Reply

namespace Reply

def ofValue (v : Json) : Reply :=
  ⟨0, none, .value v⟩

def ofError (e : FieldError) : Reply :=
  ⟨0, none, .error e⟩

end Reply

end GraphGateway
