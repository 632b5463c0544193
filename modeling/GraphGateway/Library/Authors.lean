import GraphGateway.Json.Basic

/-!
This module contains the built-in author list and the look-up of an author by its identifier.
-/

namespace GraphGateway
namespace Library

def book (id name : String) (pages : Int) : Json :=
  .object [("id", .string id), ("name", .string name), ("numPages", .int pages)]

def author (id name company : String) (books : List Json) : Json :=
  .object
    [ ("id", .string id), ("name", .string name), ("company", .string company),
      ("books", .array books)
    ]

def authors : Json :=
  .array
    [ author "1" "Ursula K. Le Guin" "Ace Books"
        [book "1" "A Wizard of Earthsea" 183, book "2" "The Left Hand of Darkness" 286],
      author "2" "Octavia E. Butler" "Grand Central Publishing"
        [book "3" "Kindred" 264, book "4" "Parable of the Sower" 345]
    ]

def hasId (id : String) (author : Json) : Bool :=
  (author.get? "id").bind Json.string? = some id

def findAuthor? (authors : Json) (id : String) : Option Json :=
  match authors with
  | .array items => items.find? (hasId id)
  | _ => none

end Library
end GraphGateway
