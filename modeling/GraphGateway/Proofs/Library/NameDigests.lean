import GraphGateway.Proofs.Execution.Objects
import GraphGateway.Proofs.Execution.Places
import GraphGateway.Proofs.Gateway.ResolverModes

/-!
This module contains the proof that every digest in a response is the digest of the name that stands
next to it, whatever function of a text is taken for the digest.
-/

namespace GraphGateway

open SelectionItem (admittedAll headsAll)

namespace Task

theorem supply_of_resolve {setting : Setting} {object : ObjectTasks} {group : FieldGroup}
    {parentType : String} {parent : Json} {site : Site} {w : Json}
    (htypename : group.first.head.resolution ≠ .typename)
    (h : (resolve setting object parentType parent group site).value = .ok w) (hnull : w ≠ .null)
    : ∃ given, group.first.head.supply setting parentType parent = .ok given
        ∧ (complete object group.children group.first.head.output site given).value = .ok w := by
  unfold resolve at h
  unfold FieldPlan.supply
  dsimp only at h
  cases hresolution : group.first.head.resolution with
  | typename => exact absurd hresolution htypename
  | property =>
    rw [hresolution] at h
    cases harguments : ArgumentPlan.evaluateAll group.first.head.arguments setting.bindings with
    | error fault =>
      rw [harguments] at h
      cases h
    | ok arguments =>
      rw [harguments] at h
      exact ⟨_, rfl, h⟩
  | resolver resolver =>
    rw [hresolution] at h
    cases harguments : ArgumentPlan.evaluateAll group.first.head.arguments setting.bindings with
    | error fault =>
      rw [harguments] at h
      cases h
    | ok arguments =>
      rw [harguments] at h
      dsimp only at h ⊢
      rw [value] at h
      cases houtcome : (resolver
          ⟨parent, arguments, setting.context, parentType, group.first.head.name⟩).outcome with
      | value given =>
        rw [houtcome] at h
        exact ⟨given, rfl, h⟩
      | error e =>
        rw [houtcome] at h
        cases h
      | panic panic =>
        rw [houtcome] at h
        cases h
        contradiction

end Task

namespace Library

/-! # Any digest -/

section Digests

variable (digest : String → String)

def nameDigestBy (author : Json) : Outcome :=
  match (author.get? "name").bind Json.string? with
  | some name => .value (.string (digest name))
  | none => .error (.ofMessage "Author has no name to digest")

def digestResolverBy (mode : ResolverMode) : Resolver :=
  fun call => ⟨mode.delay, none, nameDigestBy digest call.parent⟩

def authorTypeBy (mode : ResolverMode) : ObjectType :=
  (authorType mode).withField "md5" ⟨required "String", [], some (digestResolverBy digest mode)⟩

def schemaBy (data : Json) (mode : ResolverMode) : Schema :=
  ⟨[queryType data mode, authorTypeBy digest mode, bookType], queryType data mode, none⟩

end Digests

theorem schemaBy_hex (data : Json) (mode : ResolverMode)
    : schemaBy Md5.hex data mode = schema data mode := by
  rfl

theorem nameDigestBy_ne_panic (digest : String → String) (author : Json) (panic : Panic)
    : nameDigestBy digest author ≠ .panic panic := by
  unfold nameDigestBy
  split <;> exact Outcome.noConfusion

theorem panicFree_authorTypeBy (digest : String → String) (mode : ResolverMode)
    : (authorTypeBy digest mode).PanicFree := by
  intro name field resolver hfield hresolver
  unfold ObjectType.field? authorTypeBy ObjectType.withField at hfield
  rw [Ordered.get?_insert] at hfield
  split at hfield
  . cases hfield
    cases hresolver
    exact fun call panic => nameDigestBy_ne_panic digest call.parent panic
  . exact panicFree_object .null mode (authorType mode) (by simp) name field resolver hfield
      hresolver

theorem panicFree_schemaBy (digest : String → String) (data : Json) (mode : ResolverMode)
    : (schemaBy digest data mode).PanicFree where
  objects := by
    intro object hobject
    simp only [schemaBy, List.mem_cons, List.not_mem_nil, or_false] at hobject
    rcases hobject with rfl | rfl | rfl
    . exact panicFree_object data mode _ (by simp)
    . exact panicFree_authorTypeBy digest mode
    . exact panicFree_object data mode _ (by simp)
  query := panicFree_object data mode _ (by simp [schemaBy])
  mutation := nofun

structure IsText (head : FieldPlan) (resolution : Resolution) : Prop where
  resolution : head.resolution = resolution
  output : head.output = .nonNull (.scalar .string)
  arguments : head.arguments = []

theorem isText_of_shape {head : FieldPlan} {parentType : String} {resolution : Resolution}
    (h : head.shape = ⟨parentType, resolution, .nonNull (.scalar .string), []⟩)
    : IsText head resolution := by
  unfold FieldPlan.shape at h
  simp only [FieldShape.mk.injEq, List.map_eq_nil_iff] at h
  exact ⟨h.2.1, h.2.2.1, h.2.2.2⟩

section Fields

variable {digest : String → String} {data : Json} {mode : ResolverMode} {document : Document}
  {plan : Plan} (hplan : Plan.compile (schemaBy digest data mode) document = .ok plan)
  {head : FieldPlan} (hhead : head ∈ plan.heads)

include hplan hhead

theorem placed_head
    : head.Placed (queryType data mode) ∨ head.Placed (authorTypeBy digest mode)
        ∨ head.Placed bookType := by
  obtain ⟨operation, root, hroot, hobjects⟩ := Plan.exists_object_of_compile hplan
  have hquery : root = queryType data mode := by
    unfold Compile.rootType at hroot
    split at hroot <;> cases hroot
    rfl
  subst hquery
  obtain ⟨object, hobject, hplaced⟩ := hobjects head hhead
  simp only [schemaBy, List.mem_cons, List.not_mem_nil, or_false] at hobject
  rcases hobject with rfl | rfl | rfl | rfl
  . exact .inl hplaced
  . exact .inl hplaced
  . exact .inr (.inl hplaced)
  . exact .inr (.inr hplaced)

theorem isText_name (hname : head.name = "name") : IsText head .property := by
  rcases placed_head hplan hhead with hplaced | hplaced | hplaced
  all_goals
    have hshape := hplaced.shape
    rw [hname] at hshape
  . cases hshape
  . exact isText_of_shape (Option.some.inj hshape).symm
  . exact isText_of_shape (Option.some.inj hshape).symm

theorem isText_digest (hname : head.name = "md5")
    : IsText head (.resolver (digestResolverBy digest mode)) := by
  rcases placed_head hplan hhead with hplaced | hplaced | hplaced
  all_goals
    have hshape := hplaced.shape
    rw [hname] at hshape
  . cases hshape
  . exact isText_of_shape (Option.some.inj hshape).symm
  . cases hshape

end Fields

section Values

variable {setting : Setting} {object : Task.ObjectTasks} {parentType key : String} {parent v : Json}
  {path : Path} {group : FieldGroup}
  (h : (Task.ofGroup setting object parentType parent path key group).value = .ok v)

include h

theorem serialize_of_isText {resolution : Resolution} (htext : IsText group.first.head resolution)
    (htypename : resolution ≠ .typename)
    : ∃ given, group.first.head.supply setting parentType parent = .ok given
        ∧ Scalar.string.serialize given = .ok v := by
  unfold Task.ofGroup at h
  dsimp only at h
  rw [htext.output] at h
  obtain ⟨hnull, hvalue⟩ := Task.value_position_eq_ok h
  obtain ⟨given, hsupply, hcomplete⟩ :=
    Task.supply_of_resolve (htext.resolution ▸ htypename) hvalue hnull
  rw [htext.output] at hcomplete
  -- Completion looks through the mark of a non-null type.
  change (Task.complete object group.children (.scalar .string) _ given).value = .ok v at hcomplete
  exact ⟨given, hsupply, Task.serialize_of_complete hnull hcomplete⟩

theorem value_name (htext : IsText group.first.head .property)
    : Scalar.string.serialize ((parent.get? group.first.head.name).getD .null) = .ok v := by
  obtain ⟨given, hsupply, hserialize⟩ := serialize_of_isText h htext nofun
  unfold FieldPlan.supply at hsupply
  rw [htext.resolution, htext.arguments] at hsupply
  cases hsupply
  exact hserialize

theorem value_digest {digest : String → String} {mode : ResolverMode}
    (htext : IsText group.first.head (.resolver (digestResolverBy digest mode)))
    : ∃ name, parent.get? "name" = some (.string name) ∧ v = .string (digest name) := by
  obtain ⟨given, hsupply, hserialize⟩ := serialize_of_isText h htext nofun
  unfold FieldPlan.supply at hsupply
  rw [htext.resolution, htext.arguments] at hsupply
  dsimp only [ArgumentPlan.evaluateAll, digestResolverBy, nameDigestBy] at hsupply
  cases hname : (parent.get? "name").bind Json.string? with
  | none =>
    rw [hname] at hsupply
    cases hsupply
  | some name =>
    rw [hname] at hsupply
    cases hsupply
    cases hserialize
    obtain ⟨found, hfound, hstring⟩ := Option.bind_eq_some_iff.mp hname
    cases found <;> cases hstring
    exact ⟨name, hfound, rfl⟩

end Values

/--
In every object of the data for which a digest and a name are selected, under any keys, the digest
is that of the name, whatever the author list, the resolvers, the document and the variables are.
-/
theorem digest_of_name (digest : String → String) (data : Json) (mode : ResolverMode)
    {document : Document} {plan : Plan}
    (hplan : Plan.compile (schemaBy digest data mode) document = .ok plan) (bindings : Json.Members)
    (context root : Json)
    : ∃ response, (plan.answer bindings context root).outcome = .ok response
        ∧ ∀ v, response.data = some v →
          ∃ coerced, VariableSpec.coerceAll plan.specs bindings = .ok coerced
            ∧ ∀ items members,
              ObjectIn coerced (.object plan.rootType) plan.selection v items members →
              ∀ key other digests names,
                FieldGroup.ofKey? key (admittedAll coerced items) = some digests →
                digests.first.head.name = "md5" →
                FieldGroup.ofKey? other (admittedAll coerced items) = some names →
                names.first.head.name = "name" →
                ∃ name, members.get? other = some (.string name)
                  ∧ members.get? key = some (.string (digest name)) := by
  have hfree := Plan.panicFree_of_compile (panicFree_schemaBy digest data mode) hplan
  obtain ⟨response, houtcome, hmade⟩ := Plan.madeOf_answer hfree bindings context root
  refine ⟨response, houtcome, ?_⟩
  intro v hv
  obtain ⟨coerced, hcoerced, hmade⟩ := hmade v hv
  refine ⟨coerced, hcoerced, ?_⟩
  intro items members hin key other digests names hdigests hmd5 hnames hname
  obtain ⟨hheads, levels, type, parent, path, hdepth, hvalue⟩ := hmade items members hin
  obtain ⟨w, hw, hdigest⟩ := Task.get?_of_group hdepth hvalue hdigests
  obtain ⟨x, hx, hread⟩ := Task.get?_of_group hdepth hvalue hnames
  have hdigestText :=
    isText_digest hplan (hheads (FieldGroup.first_mem_headsAll hdigests)) hmd5
  have hnameText := isText_name hplan (hheads (FieldGroup.first_mem_headsAll hnames)) hname
  obtain ⟨name, hget, rfl⟩ := value_digest hdigest hdigestText
  have hserialize := value_name hread hnameText
  rw [hname, hget] at hserialize
  cases hserialize
  exact ⟨name, hx, hw⟩

def nicknames : Json :=
  .array [.object [("name", .string "Ursula")]]

def aliasedDocument : Document :=
  ⟨[.operation ⟨.query, none, [], [],
    ⟨[.field ⟨none, "authors", [], [], ⟨1, 3⟩⟩
      (some ⟨[.field ⟨some "digest", "md5", [], [], ⟨1, 13⟩⟩ none,
        .field ⟨some "who", "name", [], [], ⟨1, 25⟩⟩ none], ⟨1, 11⟩⟩)], ⟨1, 1⟩⟩, ⟨1, 1⟩⟩]⟩

def aliasedItems (digest : String → String) (mode : ResolverMode) : List SelectionItem :=
  [.field ⟨"digest", "Author", "md5", .resolver (digestResolverBy digest mode), [], [],
      .nonNull (.scalar .string), ⟨1, 13⟩⟩ none,
    .field ⟨"who", "Author", "name", .property, [], [], .nonNull (.scalar .string), ⟨1, 25⟩⟩ none]

def aliasedPlan (digest : String → String) (mode : ResolverMode) : Plan :=
  ⟨.query, none, "Query", [],
    [.field (authorsField nicknames mode) (some (aliasedItems digest mode))]⟩

theorem compile_aliasedDocument (digest : String → String) (mode : ResolverMode)
    : Plan.compile (schemaBy digest nicknames mode) aliasedDocument
        = .ok (aliasedPlan digest mode) := by
  cbv

def twice (name : String) : String :=
  name ++ name

def aliasedMembers : Json.Members :=
  [("digest", .string "UrsulaUrsula"), ("who", .string "Ursula")]

/-- With a function that repeats a text, the name comes twice. -/
theorem digest_of_name_aliased
    : ∃ response, ((aliasedPlan twice .async).answer [] .null .null).outcome = .ok response
        ∧ response.data = some (.object [("authors", .array [.object aliasedMembers])])
        ∧ ∃ name, aliasedMembers.get? "who" = some (.string name)
          ∧ aliasedMembers.get? "digest" = some (.string (twice name)) := by
  have hplan := compile_aliasedDocument twice .async
  have hfree := Plan.panicFree_of_compile (panicFree_schemaBy twice nicknames .async) hplan
  obtain ⟨response, houtcome, hdigests⟩ :=
    digest_of_name twice nicknames .async hplan [] .null .null
  have hdata : response.data = some (.object [("authors", .array [.object aliasedMembers])]) := by
    obtain ⟨journal, hexecute, _⟩ := Plan.execute_eq hfree ⟨[], .null⟩ .null
    have hanswer : (aliasedPlan twice .async).answer [] .null .null
        = (aliasedPlan twice .async).execute ⟨[], .null⟩ .null := rfl
    have hvalue : (Task.ofPlan (aliasedPlan twice .async) ⟨[], .null⟩ .null).value
        = .ok (.object [("authors", .array [.object aliasedMembers])]) := rfl
    rw [hanswer, hexecute, hvalue] at houtcome
    cases houtcome
    rfl
  obtain ⟨coerced, hcoerced, hobjects⟩ := hdigests _ hdata
  cases hcoerced
  let group : FieldGroup :=
    ⟨⟨authorsField nicknames .async, some (aliasedItems twice .async)⟩, []⟩
  have hauthors : ObjectIn [] group.first.head.output group.children
      (.array [.object aliasedMembers]) (aliasedItems twice .async) aliasedMembers :=
    .nonNull (.element List.mem_cons_self (.nonNull .here))
  have hin : ObjectIn [] (.object "Query") (aliasedPlan twice .async).selection
      (.object [("authors", .array [.object aliasedMembers])]) (aliasedItems twice .async)
      aliasedMembers :=
    .member List.mem_cons_self rfl hauthors
  exact ⟨response, houtcome, hdata, hobjects _ _ hin "digest" "who" _ _ rfl rfl rfl rfl⟩

end Library
end GraphGateway
