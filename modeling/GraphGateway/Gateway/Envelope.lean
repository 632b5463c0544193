import GraphGateway.Config.Basic
import GraphGateway.Gateway.Basic

/-!
This module contains the JSON envelope in which a request comes from outside: the text of a document
and, maybe, variables. Such a request has an empty root and an empty context.
-/

namespace GraphGateway

structure Envelope where
  text : String
  bindings : Option Json.Members

namespace Envelope

open Json.Shape in
def shape : Json.Shape :=
  .record "GraphQLRequest" false
    [required "query" .text, defaulted "variables" (.optional .table) .null]

def ofJson (v : Json) : Envelope :=
  ⟨v.textAt "query", (v.get? "variables").bind Json.members?⟩

def ofBytes (bytes : List UInt8) : Except Json.Fault Envelope :=
  (shape.ofBytes bytes).map ofJson

def toRequest (envelope : Envelope) : Gateway.Request :=
  ⟨envelope.text, envelope.bindings.getD [], .object [], .object []⟩

end Envelope

end GraphGateway
