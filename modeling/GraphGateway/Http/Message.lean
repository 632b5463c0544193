import GraphGateway.Json.Printer

/-!
This module contains requests and responses of the hypertext transfer protocol.
-/

namespace GraphGateway
namespace Http

/-- A request; its target is a path with a query, which may follow a scheme and an authority. -/
structure Request where
  method : String
  target : String
  headers : Ordered String
  body : List UInt8

namespace Request

/--
The first value of a header. The case of names does not count; the one given is in lower case.
-/
def header? (request : Request) (name : String) : Option String :=
  let found := request.headers.find? fun (key, _) =>
    String.ofList (key.toList.map Char.toLower) = name
  found.map Prod.snd

def endsPath (c : Char) : Bool :=
  c = '?' || c = '#'

def dropAuthority (target : List Char) : List Char :=
  match target.dropWhile fun c => c ≠ ':' && c ≠ '/' && !endsPath c with
  | ':' :: '/' :: '/' :: rest =>
    match rest.dropWhile fun c => c ≠ '/' && !endsPath c with
    | '/' :: path => '/' :: path
    | query => '/' :: query
  | _ => target

def path (request : Request) : String :=
  String.ofList ((dropAuthority request.target.toList).takeWhile (!endsPath ·))

end Request

structure Response where
  status : Nat
  headers : Ordered String
  body : String

namespace Response

def withHeader (response : Response) (name value : String) : Response :=
  { response with headers := response.headers ++ [(name, value)] }

def withoutBody (response : Response) : Response :=
  { response with body := "" }

def empty (status : Nat) : Response :=
  ⟨status, [], ""⟩

def plain (status : Nat) (body : String) : Response :=
  ⟨status, [("content-type", "text/plain; charset=utf-8")], body⟩

def json (status : Nat) (body : Json) : Response :=
  ⟨status, [("content-type", "application/json")], body.render⟩

end Response

end Http
end GraphGateway
