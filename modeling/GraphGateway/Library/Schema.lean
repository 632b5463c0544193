import GraphGateway.Digest.Md5
import GraphGateway.Library.Authors
import GraphGateway.Schema.Build

/-!
This module contains the schema of authors and books. The author list, the author of an identifier
and the digest of an author's name have resolvers, which reply at once or after one poll.
-/

namespace GraphGateway
namespace Library

inductive ResolverMode where
  | sync
  | async
deriving DecidableEq, Repr

/-- The number of polls that find a resolver unfinished. -/
def ResolverMode.delay : ResolverMode → Nat
  | sync => 0
  | async => 1

def nameDigest (author : Json) : Outcome :=
  match (author.get? "name").bind Json.string? with
  | some name => .value (.string (Md5.hex name))
  | none => .error (.ofMessage "Author has no name to digest")

def authorById (authors : Json) (id : Option Json) : Json :=
  ((id.bind Json.string?).bind (findAuthor? authors)).getD .null

def authorsResolver (data : Json) (mode : ResolverMode) : Resolver :=
  fun _ => ⟨mode.delay, none, .value data⟩

def authorResolver (data : Json) (mode : ResolverMode) : Resolver :=
  fun call => ⟨mode.delay, none, .value (authorById data (call.argument? "id"))⟩

def digestResolver (mode : ResolverMode) : Resolver :=
  fun call => ⟨mode.delay, none, nameDigest call.parent⟩

def required (name : String) : TypeRef :=
  .nonNull (.named name)

def requiredList (name : String) : TypeRef :=
  .nonNull (.list (required name))

def bookType : ObjectType :=
  ⟨"Book",
    [ ("id", ⟨required "ID", [], none⟩), ("name", ⟨required "String", [], none⟩),
      ("numPages", ⟨required "Int", [], none⟩)
    ]⟩

def authorType (mode : ResolverMode) : ObjectType :=
  ⟨"Author",
    [ ("id", ⟨required "ID", [], none⟩), ("name", ⟨required "String", [], none⟩),
      ("md5", ⟨required "String", [], some (digestResolver mode)⟩),
      ("company", ⟨required "String", [], none⟩), ("books", ⟨requiredList "Book", [], none⟩)
    ]⟩

def queryType (data : Json) (mode : ResolverMode) : ObjectType :=
  ⟨"Query",
    [ ("authors", ⟨requiredList "Author", [], some (authorsResolver data mode)⟩),
      ("author",
        ⟨.named "Author", [("id", ⟨required "ID", none⟩)], some (authorResolver data mode)⟩)
    ]⟩

def blueprint (data : Json) (mode : ResolverMode) : Blueprint :=
  ⟨"Query", none, [queryType data mode, authorType mode, bookType]⟩

def schema (data : Json) (mode : ResolverMode) : Schema :=
  ⟨(blueprint data mode).objects, queryType data mode, none⟩

end Library
end GraphGateway
