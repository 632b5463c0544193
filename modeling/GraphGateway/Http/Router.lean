import GraphGateway.Gateway.Envelope
import GraphGateway.Http.Origin

/-!
This module contains the router in front of a gateway: queries are posted to `/` and `/graphql`, and
`/health` and `/metrics` can be read.
-/

namespace GraphGateway
namespace Http

inductive Endpoint where
  | query
  | health
  | metrics
deriving DecidableEq, Repr

namespace Endpoint

def ofPath? (path : String) : Option Endpoint :=
  match path with
  | "/" | "/graphql" => some query
  | "/health" => some health
  | "/metrics" => some metrics
  | _ => none

def methods : Endpoint → List String
  | query => ["POST"]
  | health | metrics => ["GET", "HEAD"]

end Endpoint

def Response.allowing (response : Response) (endpoint : Endpoint) : Response :=
  response.withHeader "allow" (String.intercalate "," endpoint.methods)

structure Router where
  gateway : Gateway
  origins : Origins

namespace Router

def notFound : Response :=
  .plain 404 "404"

def bodyLimit : Nat :=
  2 * 1024 * 1024

def tooLarge : Response :=
  .plain 413 "Failed to buffer the request body: length limit exceeded"

def badRequest (fault : Json.Fault) : Response :=
  .json 400 <| GraphGateway.Response.toJson <|
    .ofErrors [.ofMessage .badRequest ("Invalid request body: " ++ fault.message)]

/-- An answer that tells of a panic is a failure of the server; every other one is a success. -/
def statusOf (response : GraphGateway.Response) : Nat :=
  if ErrorClass.internalFault.code ∈ response.codes then 500 else 200

def query (gateway : Gateway) (body : List UInt8) : GatewayM Response := do
  if bodyLimit < body.length then return tooLarge
  else
    match Envelope.ofBytes body with
    | .error fault => return badRequest fault
    | .ok envelope =>
      let answer ← gateway.answer envelope.toRequest
      return .json (statusOf answer.response) answer.response.toJson

def health : Response :=
  .json 200 (.object [("status", .string "ok"), ("version", .string "0.1.0")])

def metrics : GatewayM Response := do
  return .json 200 (← get).counters.toJson

def serve (gateway : Gateway) (endpoint : Endpoint) (request : Request)
    : GatewayM Response :=
  match endpoint with
  | .query => query gateway request.body
  | .health => return health
  | .metrics => metrics

def refusal : Endpoint → Response
  | .query => notFound
  | .health | .metrics => .empty 405

def route (router : Router) (request : Request) : GatewayM Response := do
  match Endpoint.ofPath? request.path with
  | none => return if request.method = "OPTIONS" then Origins.preflight else notFound
  | some endpoint =>
    if request.method = "OPTIONS" then return Origins.preflight.allowing endpoint
    else if request.method ∈ endpoint.methods then serve router.gateway endpoint request
    else return (refusal endpoint).allowing endpoint

/-- Whether an endpoint answers `HEAD`, which asks for a response without its body. -/
def answersHead (request : Request) : Bool :=
  request.method = "HEAD"
    && (Endpoint.ofPath? request.path).any fun endpoint => "HEAD" ∈ endpoint.methods

def respond (router : Router) (request : Request) : GatewayM Response := do
  let response := router.origins.share request (← router.route request)
  return if answersHead request then response.withoutBody else response

end Router

end Http
end GraphGateway
