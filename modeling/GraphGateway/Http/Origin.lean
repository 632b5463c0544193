import GraphGateway.Http.Message

/-!
This module contains the sharing of resources with pages of other origins. Either every origin may
read the responses, or those of a list may.
-/

namespace GraphGateway
namespace Http

inductive Origins where
  | any
  | list (origins : List String)
deriving DecidableEq, Repr

namespace Origins

/-- Header values are made of tabs and of the visible characters of ASCII. -/
def isHeaderValue (s : String) : Bool :=
  s.toList.all fun c => c = '\t' || 0x20 ≤ c.toNat && c.toNat < 0x7f

/--
The origins of a configured list, where no origin means any. What is no header value is dropped.
-/
def ofConfigured (origins : List String) : Origins :=
  if origins.isEmpty then any else list (origins.filter isHeaderValue)

def allowed? (origins : Origins) (request : Request) : Option String :=
  match origins with
  | any => some "*"
  | list origins => (request.header? "origin").filter (· ∈ origins)

def share (origins : Origins) (request : Request) (response : Response) : Response :=
  match origins.allowed? request with
  | some origin => response.withHeader "access-control-allow-origin" origin
  | none => response

/-- The answer to the question what may be asked, which is every method with every header. -/
def preflight : Response :=
  ((Response.empty 200).withHeader "access-control-allow-methods" "*").withHeader
    "access-control-allow-headers" "*"

theorem status_share (origins : Origins) (request : Request) (response : Response)
    : (origins.share request response).status = response.status := by
  simp only [share]
  split <;> rfl

theorem body_share (origins : Origins) (request : Request) (response : Response)
    : (origins.share request response).body = response.body := by
  simp only [share]
  split <;> rfl

end Origins

end Http
end GraphGateway
