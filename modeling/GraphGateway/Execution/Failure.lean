import GraphGateway.Plan.Basic

/-!
This module contains the failures of fields in a run: their place in the response, the positions of
the fields that were merged there, and what went wrong.
-/

namespace GraphGateway

inductive PathSegment where
  | key (name : String)
  | index (i : Nat)
deriving DecidableEq, Repr

abbrev Path := List PathSegment

structure Site where
  coordinate : String
  positions : List Position
  path : Path
deriving DecidableEq, Repr

def Site.element (site : Site) (i : Nat) : Site :=
  { site with path := site.path ++ [.index i] }

inductive Failure.Cause where
  | nullValue
  | notList
  | argument (fault : ArgumentFault)
  | scalar (fault : Scalar.Fault)
  | resolver (e : FieldError)

structure Failure where
  site : Site
  cause : Failure.Cause

namespace Failure

def message (failure : Failure) : String :=
  match failure.cause with
  | .nullValue => s!"Cannot return null for non-nullable field {failure.site.coordinate}."
  | .notList =>
    s!"Expected Iterable, but did not find one for field \"{failure.site.coordinate}\"."
  | .argument fault => fault.message
  | .scalar fault => fault.message
  | .resolver e => e.message

def extensions (failure : Failure) : Json.Members :=
  match failure.cause with
  | .resolver e => e.extensions.getD []
  | _ => []

end Failure

end GraphGateway
