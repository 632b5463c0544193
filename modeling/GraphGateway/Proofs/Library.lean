import GraphGateway.Library.Schema
import GraphGateway.Plan.Compile
import GraphGateway.Proofs.Execution.Unfolded
import Mathlib

/-!
This module contains that the schema of authors and books is built from its blueprint, and the plans
of the query for the names of all authors and of one for an author, whatever the author list is.
-/

namespace GraphGateway
namespace Library

theorem build_blueprint (data : Json) (mode : ResolverMode)
    : (blueprint data mode).build = .ok (schema data mode) := by
  cbv

def namesDocument : Document :=
  ⟨[.operation ⟨.query, none, [], [],
    ⟨[.field ⟨none, "authors", [], [], ⟨1, 3⟩⟩
      (some ⟨[.field ⟨none, "name", [], [], ⟨1, 13⟩⟩ none], ⟨1, 11⟩⟩)], ⟨1, 1⟩⟩, ⟨1, 1⟩⟩]⟩

def authorsField (data : Json) (mode : ResolverMode) : FieldPlan :=
  ⟨"authors", "Query", "authors", .resolver (authorsResolver data mode), [], [],
    .nonNull (.list (.nonNull (.object "Author"))), ⟨1, 3⟩⟩

def nameField : FieldPlan :=
  ⟨"name", "Author", "name", .property, [], [], .nonNull (.scalar .string), ⟨1, 13⟩⟩

def namesPlan (data : Json) (mode : ResolverMode) : Plan :=
  ⟨.query, none, "Query", [],
    [.field (authorsField data mode) (some [.field nameField none])]⟩

theorem compile_namesDocument (data : Json) (mode : ResolverMode)
    : Plan.compile (schema data mode) namesDocument = .ok (namesPlan data mode) := by
  cbv

def authorDocument : Document :=
  ⟨[.operation ⟨.query, none,
    [ ⟨"id", required "ID", none, [], ⟨1, 8⟩⟩,
      ⟨"full", .named "Boolean", some (.boolean false), [], ⟨1, 18⟩⟩
    ],
    [],
    ⟨[.field ⟨none, "author", [("id", .variable "id")], [], ⟨1, 44⟩⟩
      (some ⟨[.field ⟨none, "name", [], [], ⟨1, 62⟩⟩ none,
        .inline none [⟨"include", [("if", .variable "full")], ⟨1, 71⟩⟩]
          ⟨[.field ⟨none, "books", [], [], ⟨1, 93⟩⟩
            (some ⟨[.field ⟨none, "id", [], [], ⟨1, 101⟩⟩ none], ⟨1, 99⟩⟩)], ⟨1, 91⟩⟩ ⟨1, 67⟩],
        ⟨1, 60⟩⟩)], ⟨1, 42⟩⟩, ⟨1, 1⟩⟩]⟩

def authorField (data : Json) (mode : ResolverMode) : FieldPlan :=
  ⟨"author", "Query", "author", .resolver (authorResolver data mode),
    [⟨"id", required "ID", some (.variable "id"), none⟩], [], .object "Author", ⟨1, 44⟩⟩

def booksField : FieldPlan :=
  ⟨"books", "Author", "books", .property, [], [],
    .nonNull (.list (.nonNull (.object "Book"))), ⟨1, 93⟩⟩

def bookIdField : FieldPlan :=
  ⟨"id", "Book", "id", .property, [], [], .nonNull (.scalar .id), ⟨1, 101⟩⟩

def authorPlan (data : Json) (mode : ResolverMode) : Plan :=
  ⟨.query, none, "Query",
    [ ⟨"id", required "ID", none, ⟨1, 8⟩⟩,
      ⟨"full", .named "Boolean", some (.bool false), ⟨1, 18⟩⟩
    ],
    [.field (authorField data mode)
      (some [.field { nameField with position := ⟨1, 62⟩ } none,
        .group [.includeIf "full"]
          [.field booksField (some [.field bookIdField none])]])]⟩

theorem compile_authorDocument (data : Json) (mode : ResolverMode)
    : Plan.compile (schema data mode) authorDocument = .ok (authorPlan data mode) := by
  cbv

theorem panicFree_authorsField (data : Json) (mode : ResolverMode) (key : String)
    : FieldPlan.PanicFree { authorsField data mode with key } := by
  intro resolver hresolver call panic
  cases hresolver
  exact Outcome.noConfusion

theorem panicFree_nameField : nameField.PanicFree :=
  nofun

theorem panicFree_namesPlan (data : Json) (mode : ResolverMode)
    : (namesPlan data mode).PanicFree := by
  have hheads : (namesPlan data mode).heads = [authorsField data mode, nameField] := rfl
  intro head hhead
  rw [hheads, List.mem_cons, List.mem_singleton] at hhead
  obtain rfl | rfl := hhead
  . exact panicFree_authorsField data mode "authors"
  . exact panicFree_nameField

end Library
end GraphGateway
