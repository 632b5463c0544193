import GraphGateway.Proofs.Gateway.ResolverModes

/-!
This module contains what the look-up of an author has to do with the list of all authors, whatever
the data are. An identifier that stands there as a text is listed and found. An integer is listed as
a text, too, but no author is found by it, so that the two do not always agree.
-/

namespace GraphGateway

theorem Scalar.serialize_id_eq_ok {v w : Json} (h : id.serialize v = .ok w)
    : ∃ s, w = .string s ∧ (v = .string s ∨ ∃ n, v = .int n ∧ s = (Number.integer n).text) := by
  match v with
  | .string s =>
    cases h
    exact ⟨s, rfl, .inl rfl⟩
  | .number (.integer n) =>
    cases h
    exact ⟨_, rfl, .inr ⟨n, rfl, rfl⟩⟩
  | .null | .bool _ | .number (.double _) | .array _ | .object _ => cases h

theorem exists_of_mapIdx {α β ε γ : Type} {f : Nat → α → Except ε β} {g : γ → β}
    {P : α → γ → Prop} (hf : ∀ i a b, f i a = .ok b → ∃ c, b = g c ∧ P a c) {xs : List α}
    {ys : List β} (h : xs.mapIdx f = ys.map .ok)
    : ∃ cs, ys = cs.map g ∧ List.Forall₂ P xs cs := by
  induction xs generalizing f ys with
  | nil =>
    cases List.map_eq_nil_iff.mp h.symm
    exact ⟨[], rfl, .nil⟩
  | cons x rest ih =>
    rw [List.mapIdx_cons] at h
    cases ys with
    | nil => cases h
    | cons y others =>
      rw [List.map_cons, List.cons.injEq] at h
      obtain ⟨c, rfl, hc⟩ := hf 0 x y h.1
      obtain ⟨cs, rfl, hcs⟩ := ih (fun i => hf (i + 1)) h.2
      exact ⟨c :: cs, rfl, .cons hc hcs⟩

namespace Gateway

section Plans

variable {schema : Schema} {text : String} {document : Document} {plan : Plan}
  {bindings coerced : Json.Members} (hread : Document.ofText text = .ok document)
  (hcompile : Plan.compile schema document = .ok plan) (hfree : plan.PanicFree)
  (hcoerced : VariableSpec.coerceAll plan.specs bindings = .ok coerced)
  (flight : Bool) (retention : Retention) {context root : Json}

include hread hcompile hfree hcoerced

theorem freshAnswer_eq_ofSettled
    : ∃ journal,
        journal.Perm (Task.ofPlan plan ⟨coerced, context⟩ root).journal
          ∧ (Execution.ofSettled (Task.ofPlan plan ⟨coerced, context⟩ root).value journal).outcome
            = .ok ((ofSchema schema flight).freshAnswer retention
                ⟨text, bindings, root, context⟩).response := by
  obtain ⟨journal, hexecute, hperm⟩ := Plan.execute_eq hfree ⟨coerced, context⟩ root
  refine ⟨journal, hperm, ?_⟩
  rw [freshAnswer_eq]
  unfold answerOf
  rw [planOf_ofSchema hread hcompile]
  unfold answerOfPlan Plan.answer
  dsimp only
  rw [hcoerced]
  dsimp only
  rw [hexecute]
  cases (Task.ofPlan plan ⟨coerced, context⟩ root).value <;> rfl

theorem response_of_value {data : Json}
    (hvalue : (Task.ofPlan plan ⟨coerced, context⟩ root).value = .ok data)
    (hjournal : (Task.ofPlan plan ⟨coerced, context⟩ root).journal.failures = [])
    : ((ofSchema schema flight).freshAnswer retention ⟨text, bindings, root, context⟩).response
        = ⟨some data, []⟩ := by
  obtain ⟨journal, hperm, hresponse⟩ :=
    freshAnswer_eq_ofSettled hread hcompile hfree hcoerced flight retention
  have hfailures : journal.failures = [] := by
    have hnone := hperm.failures
    rw [hjournal] at hnone
    exact List.perm_nil.mp hnone
  rw [hvalue] at hresponse
  rw [← Except.ok.inj hresponse, hfailures]
  rfl

theorem value_of_no_errors
    (herrors : ((ofSchema schema flight).freshAnswer retention
      ⟨text, bindings, root, context⟩).response.errors = [])
    : ∃ data, (Task.ofPlan plan ⟨coerced, context⟩ root).value = .ok data
        ∧ ((ofSchema schema flight).freshAnswer retention
            ⟨text, bindings, root, context⟩).response.data = some data := by
  obtain ⟨journal, _, hresponse⟩ :=
    freshAnswer_eq_ofSettled hread hcompile hfree hcoerced flight retention
  cases hvalue : (Task.ofPlan plan ⟨coerced, context⟩ root).value with
  | ok data =>
    rw [hvalue] at hresponse
    exact ⟨data, rfl, congrArg Response.data (Except.ok.inj hresponse).symm⟩
  | error failure =>
    rw [hvalue] at hresponse
    rw [← Except.ok.inj hresponse] at herrors
    simp at herrors

end Plans

end Gateway

namespace Library

/-! # The identifiers of all authors -/

def idsText : String :=
  "\x7b authors \x7b id \x7d \x7d"

def idsDocument : Document :=
  ⟨[.operation ⟨.query, none, [], [],
    ⟨[.field ⟨none, "authors", [], [], ⟨1, 3⟩⟩
      (some ⟨[.field ⟨none, "id", [], [], ⟨1, 13⟩⟩ none], ⟨1, 11⟩⟩)], ⟨1, 1⟩⟩, ⟨1, 1⟩⟩]⟩

def idItems (position : Position) : List SelectionItem :=
  [.field ⟨"id", "Author", "id", .property, [], [], .nonNull (.scalar .id), position⟩ none]

def idsPlan (data : Json) (mode : ResolverMode) : Plan :=
  ⟨.query, none, "Query", [], [.field (authorsField data mode) (some (idItems ⟨1, 13⟩))]⟩

theorem ofText_idsText : Document.ofText idsText = .ok idsDocument := by
  cbv

theorem compile_idsDocument (data : Json) (mode : ResolverMode)
    : Plan.compile (schema data mode) idsDocument = .ok (idsPlan data mode) := by
  cbv

def idOnly (id : String) : Json :=
  .object [("id", .string id)]

def PrintsAs (author : Json) (id : String) : Prop :=
  author.get? "id" = some (.string id)
    ∨ ∃ n, author.get? "id" = some (.int n) ∧ id = (Number.integer n).text

theorem PrintsAs.unique {author : Json} {id other : String} (h : PrintsAs author id)
    : PrintsAs author other ↔ other = id := by
  constructor
  . rintro (hother | ⟨n, hother, rfl⟩) <;> rcases h with h | ⟨m, h, rfl⟩ <;>
      cases h.symm.trans hother <;> rfl
  . rintro rfl
    exact h

theorem mem_ids_iff {authors : List Json} {ids : List String}
    (h : List.Forall₂ PrintsAs authors ids) (id : String)
    : id ∈ ids ↔ ∃ author ∈ authors, PrintsAs author id := by
  induction h with
  | nil => simp
  | cons hfirst _ ih => simp [ih, hfirst.unique]

section Values

variable (setting : Setting)

def idSite (position : Position) (path : Path) : Site :=
  ⟨"Author.id", [position], path ++ [.key "id"]⟩

def idTask (position : Position) (author : Json) (path : Path) : Task :=
  .join (.object ["id"])
    [.position (idSite position path) true
      (Task.complete (Task.ofObject setting 0) [] (.scalar .id) (idSite position path)
        ((author.get? "id").getD .null))]

theorem ofObject_idItems (position : Position) (author : Json) (path : Path)
    : Task.ofObject setting 1 "Author" (idItems position) author path
        = idTask setting position author path := by
  rfl

variable {setting} {position : Position} {author : Json} {path : Path}

theorem value_idTask_eq_ok {w : Json} (h : (idTask setting position author path).value = .ok w)
    : ∃ id, w = idOnly id ∧ PrintsAs author id := by
  obtain ⟨v, rfl, hvalue⟩ := Task.value_join_singleton h
  obtain ⟨hnull, hvalue⟩ := Task.value_position_eq_ok hvalue
  obtain ⟨id, rfl, hid⟩ :=
    Scalar.serialize_id_eq_ok (Task.serialize_of_complete hnull hvalue)
  refine ⟨id, rfl, ?_⟩
  unfold PrintsAs
  cases hget : author.get? "id" with
  | none => simp [hget, Json.int] at hid
  | some given => simpa [hget] using hid

theorem value_completed_eq_ok {site : Site} {w : Json} (hnull : w ≠ .null)
    (h : (Task.complete (Task.ofObject setting 1) (idItems position) (.object "Author") site
        author).value = .ok w)
    : ∃ id, w = idOnly id ∧ PrintsAs author id := by
  unfold Task.complete at h
  split at h
  . cases h
    contradiction
  . rw [ofObject_idItems] at h
    exact value_idTask_eq_ok h

end Values

section Listing

variable (data : Json) (mode : ResolverMode) (setting : Setting) (root : Json)

def authorsSite : Site :=
  ⟨"Query.authors", [⟨1, 3⟩], [.key "authors"]⟩

theorem ofPlan_idsPlan
    : Task.ofPlan (idsPlan data mode) setting root
        = .join (.object ["authors"])
          [.position authorsSite true
            (.invoke authorsSite ⟨root, [], setting.context, "Query", "authors"⟩
              ⟨mode.delay, none, .value data⟩
              (Task.complete (Task.ofObject setting 1) (idItems ⟨1, 13⟩)
                (.list (.nonNull (.object "Author"))) authorsSite data))] := by
  rfl

variable {data mode setting root} in
theorem value_idsPlan_eq_ok {w : Json}
    (h : (Task.ofPlan (idsPlan data mode) setting root).value = .ok w)
    : ∃ authors ids, data = .array authors ∧ w = .object [("authors", .array (ids.map idOnly))]
        ∧ List.Forall₂ PrintsAs authors ids := by
  rw [ofPlan_idsPlan] at h
  obtain ⟨v, rfl, hvalue⟩ := Task.value_join_singleton h
  obtain ⟨hnull, hvalue⟩ := Task.value_position_eq_ok hvalue
  rw [Task.value] at hvalue
  have helement : ∀ i author w,
      (Task.position (authorsSite.element i) true
        (Task.complete (Task.ofObject setting 1) (idItems ⟨1, 13⟩) (.nonNull (.object "Author"))
          (authorsSite.element i) author)).value = .ok w →
      ∃ id, w = idOnly id ∧ PrintsAs author id := by
    intro i author w helement
    obtain ⟨hnull, helement⟩ := Task.value_position_eq_ok helement
    exact value_completed_eq_ok hnull helement
  match data with
  | .array authors =>
    unfold Task.complete at hvalue
    rw [Task.value_join] at hvalue
    obtain ⟨vs, rfl, hvs⟩ := Task.assembled_eq_ok hvalue
    rw [Task.map_mapIdx] at hvs
    obtain ⟨ids, rfl, hids⟩ := exists_of_mapIdx helement hvs
    exact ⟨authors, ids, rfl, rfl, hids⟩
  | .null =>
    cases hvalue
    contradiction
  | .bool _ | .number _ | .string _ | .object _ => cases hvalue

end Listing

/-! # The author of an identifier -/

def lookupText : String :=
  "query ($id: ID!) \x7b author(id: $id) \x7b id \x7d \x7d"

def lookupTokens : Tokens :=
  ⟨[ ⟨.name "query", ⟨1, 1⟩⟩, ⟨.punctuator .parenL, ⟨1, 7⟩⟩, ⟨.punctuator .dollar, ⟨1, 8⟩⟩,
     ⟨.name "id", ⟨1, 9⟩⟩, ⟨.punctuator .colon, ⟨1, 11⟩⟩, ⟨.name "ID", ⟨1, 13⟩⟩,
     ⟨.punctuator .bang, ⟨1, 15⟩⟩, ⟨.punctuator .parenR, ⟨1, 16⟩⟩, ⟨.punctuator .braceL, ⟨1, 18⟩⟩,
     ⟨.name "author", ⟨1, 20⟩⟩, ⟨.punctuator .parenL, ⟨1, 26⟩⟩, ⟨.name "id", ⟨1, 27⟩⟩,
     ⟨.punctuator .colon, ⟨1, 29⟩⟩, ⟨.punctuator .dollar, ⟨1, 31⟩⟩, ⟨.name "id", ⟨1, 32⟩⟩,
     ⟨.punctuator .parenR, ⟨1, 34⟩⟩, ⟨.punctuator .braceL, ⟨1, 36⟩⟩, ⟨.name "id", ⟨1, 38⟩⟩,
     ⟨.punctuator .braceR, ⟨1, 41⟩⟩, ⟨.punctuator .braceR, ⟨1, 43⟩⟩],
    ⟨1, 44⟩⟩

def lookupDocument : Document :=
  ⟨[.operation ⟨.query, none, [⟨"id", required "ID", none, [], ⟨1, 8⟩⟩], [],
    ⟨[.field ⟨none, "author", [("id", .variable "id")], [], ⟨1, 20⟩⟩
      (some ⟨[.field ⟨none, "id", [], [], ⟨1, 38⟩⟩ none], ⟨1, 36⟩⟩)], ⟨1, 18⟩⟩, ⟨1, 1⟩⟩]⟩

def lookupPlan (data : Json) (mode : ResolverMode) : Plan :=
  ⟨.query, none, "Query", [⟨"id", required "ID", none, ⟨1, 8⟩⟩],
    [.field { authorField data mode with position := ⟨1, 20⟩ } (some (idItems ⟨1, 38⟩))]⟩

theorem ofText_lookupText : Document.ofText lookupText = .ok lookupDocument := by
  have hscan : Tokens.ofText lookupText = .ok lookupTokens := by
    cbv
  unfold Document.ofText
  rw [hscan]
  rfl

theorem compile_lookupDocument (data : Json) (mode : ResolverMode)
    : Plan.compile (schema data mode) lookupDocument = .ok (lookupPlan data mode) := by
  cbv

section Lookup

variable (data : Json) (mode : ResolverMode) (context root : Json) (id : String)

def lookupSite : Site :=
  ⟨"Query.author", [⟨1, 20⟩], [.key "author"]⟩

theorem ofPlan_lookupPlan
    : Task.ofPlan (lookupPlan data mode) ⟨[("id", .string id)], context⟩ root
        = .join (.object ["author"])
          [.position lookupSite false
            (.invoke lookupSite ⟨root, [("id", .string id)], context, "Query", "author"⟩
              ⟨mode.delay, none, .value ((findAuthor? data id).getD .null)⟩
              (Task.complete (Task.ofObject ⟨[("id", .string id)], context⟩ 1) (idItems ⟨1, 38⟩)
                (.object "Author") lookupSite ((findAuthor? data id).getD .null)))] := by
  rfl

variable {data mode context root id}

theorem value_lookupPlan_of_none (h : findAuthor? data id = none)
    : let task := Task.ofPlan (lookupPlan data mode) ⟨[("id", .string id)], context⟩ root
      task.value = .ok (.object [("author", .null)]) ∧ task.journal.failures = [] := by
  rw [ofPlan_lookupPlan, h]
  exact ⟨rfl, rfl⟩

theorem value_lookupPlan_of_some {author : Json} (h : findAuthor? data id = some author)
    (hid : author.get? "id" = some (.string id))
    : let task := Task.ofPlan (lookupPlan data mode) ⟨[("id", .string id)], context⟩ root
      task.value = .ok (.object [("author", idOnly id)]) ∧ task.journal.failures = [] := by
  obtain ⟨members, rfl⟩ : ∃ members, author = .object members := by
    cases author <;> simp_all [Json.get?]
  have hcomplete
      : Task.complete (Task.ofObject ⟨[("id", .string id)], context⟩ 1) (idItems ⟨1, 38⟩)
          (.object "Author") lookupSite (.object members)
        = idTask ⟨[("id", .string id)], context⟩ ⟨1, 38⟩ (.object members) lookupSite.path := by
    rfl
  rw [ofPlan_lookupPlan, h, Option.getD_some, hcomplete]
  unfold idTask
  rw [hid]
  exact ⟨rfl, rfl⟩

end Lookup

theorem hasId_iff {id : String} {author : Json}
    : hasId id author = true ↔ author.get? "id" = some (.string id) := by
  unfold hasId
  rw [decide_eq_true_eq, Option.bind_eq_some_iff]
  constructor
  . rintro ⟨v, hget, hstring⟩
    cases v <;> cases hstring
    exact hget
  . intro hget
    exact ⟨_, hget, rfl⟩

def Names (data id : Json) : Prop :=
  ∃ authors, data = .array authors ∧ ∃ author ∈ authors, author.get? "id" = some id

theorem names_iff_printsAs {authors : List Json} {id : String}
    : (∃ author ∈ authors, PrintsAs author id)
        ↔ Names (.array authors) (.string id)
          ∨ ∃ n, Names (.array authors) (.int n) ∧ id = (Number.integer n).text := by
  unfold Names PrintsAs
  constructor
  . rintro ⟨author, hauthor, hget | ⟨n, hget, hid⟩⟩
    . exact .inl ⟨authors, rfl, author, hauthor, hget⟩
    . exact .inr ⟨n, ⟨authors, rfl, author, hauthor, hget⟩, hid⟩
  . rintro (⟨_, hdata, author, hauthor, hget⟩ | ⟨n, ⟨_, hdata, author, hauthor, hget⟩, hid⟩)
    . cases hdata
      exact ⟨author, hauthor, .inl hget⟩
    . cases hdata
      exact ⟨author, hauthor, .inr ⟨n, hget, hid⟩⟩

theorem get?_of_findAuthor? {data author : Json} {id : String}
    (h : findAuthor? data id = some author)
    : author.get? "id" = some (.string id) := by
  cases data with
  | array authors => exact hasId_iff.mp (List.find?_some h)
  | null | bool _ | number _ | string _ | object _ => cases h

theorem isSome_findAuthor?_iff {data : Json} {id : String}
    : (findAuthor? data id).isSome ↔ Names data (.string id) := by
  cases data with
  | array authors => simp [findAuthor?, Names, hasId_iff]
  | null | bool _ | number _ | string _ | object _ => simp [findAuthor?, Names]

def authorResponse (author : Json) : Response :=
  ⟨some (.object [("author", author)]), []⟩

section Agreement

variable (data : Json) (mode : ResolverMode) (flight : Bool) (retention : Retention)
  (context root : Json)

def asked (text : String) (bindings : Json.Members) : Response :=
  ((Gateway.ofSchema (schema data mode) flight).freshAnswer retention
    ⟨text, bindings, root, context⟩).response

theorem asked_lookupText (id : String)
    : let found := asked data mode flight retention context root lookupText [("id", .string id)]
      (Names data (.string id) → found = authorResponse (idOnly id))
        ∧ (¬ Names data (.string id) → found = authorResponse .null) := by
  intro found
  have hcompile := compile_lookupDocument data mode
  have hfree := Plan.panicFree_of_compile (panicFree_schema data mode) hcompile
  have hcoerced : VariableSpec.coerceAll (lookupPlan data mode).specs [("id", .string id)]
      = .ok [("id", .string id)] := by
    rfl
  constructor
  . intro hnames
    obtain ⟨author, hfound⟩ := Option.isSome_iff_exists.mp (isSome_findAuthor?_iff.mpr hnames)
    obtain ⟨hvalue, hfailures⟩ := value_lookupPlan_of_some hfound (get?_of_findAuthor? hfound)
    exact Gateway.response_of_value ofText_lookupText hcompile hfree hcoerced flight retention
      hvalue hfailures
  . intro hnames
    have hfound : findAuthor? data id = none := by
      simpa using isSome_findAuthor?_iff.not.mpr hnames
    obtain ⟨hvalue, hfailures⟩ := value_lookupPlan_of_none hfound
    exact Gateway.response_of_value ofText_lookupText hcompile hfree hcoerced flight retention
      hvalue hfailures

theorem asked_idsText
    (herrors : (asked data mode flight retention context root idsText []).errors = [])
    : ∃ ids : List String,
        (asked data mode flight retention context root idsText []).data
            = some (.object [("authors", .array (ids.map idOnly))])
          ∧ ∀ id, id ∈ ids ↔ Names data (.string id)
            ∨ ∃ n, Names data (.int n) ∧ id = (Number.integer n).text := by
  have hcompile := compile_idsDocument data mode
  have hfree := Plan.panicFree_of_compile (panicFree_schema data mode) hcompile
  obtain ⟨w, hvalue, hdata⟩ :=
    Gateway.value_of_no_errors ofText_idsText hcompile hfree rfl flight retention herrors
  obtain ⟨authors, ids, rfl, rfl, hids⟩ := value_idsPlan_eq_ok hvalue
  exact ⟨ids, hdata, fun id => (mem_ids_iff hids id).trans names_iff_printsAs⟩

/--
If the list of all authors has no errors, no author is found by an identifier that is not listed. By
one that is listed, its author is found, unless it only stands in the data as an integer.
-/
theorem lookup_of_listed
    : let listed := asked data mode flight retention context root idsText []
      let found id :=
        asked data mode flight retention context root lookupText [("id", .string id)]
      listed.errors = [] →
      ∃ ids : List String, listed.data = some (.object [("authors", .array (ids.map idOnly))])
        ∧ ∀ id, (id ∉ ids → found id = authorResponse .null)
          ∧ (id ∈ ids →
            Names data (.string id) ∧ found id = authorResponse (idOnly id)
              ∨ ¬ Names data (.string id) ∧ found id = authorResponse .null
                ∧ ∃ n, Names data (.int n) ∧ id = (Number.integer n).text) := by
  intro listed found herrors
  obtain ⟨ids, hdata, hids⟩ := asked_idsText data mode flight retention context root herrors
  refine ⟨ids, hdata, fun id => ?_⟩
  obtain ⟨hnamed, hunnamed⟩ := asked_lookupText data mode flight retention context root id
  rw [hids]
  constructor
  . intro hnone
    exact hunnamed fun hnames => hnone (.inl hnames)
  . intro hsome
    by_cases hnames : Names data (.string id)
    . exact .inl ⟨hnames, hnamed hnames⟩
    . exact .inr ⟨hnames, hunnamed hnames, hsome.resolve_left hnames⟩

end Agreement

theorem asked_idsText_authors
    : asked authors .async true .unbounded .null .null idsText []
        = ⟨some (.object [("authors", .array (["1", "2"].map idOnly))]), []⟩ := by
  have hcompile := compile_idsDocument authors .async
  have hfree := Plan.panicFree_of_compile (panicFree_schema authors .async) hcompile
  exact Gateway.response_of_value ofText_idsText hcompile hfree rfl _ _ rfl rfl

theorem lookup_of_listed_authors
    : let found id :=
        asked authors .async true .unbounded .null .null lookupText [("id", .string id)]
      found "2" = authorResponse (idOnly "2") ∧ found "3" = authorResponse .null := by
  intro found
  have herrors := congrArg Response.errors asked_idsText_authors
  obtain ⟨ids, hdata, hlookup⟩ :=
    lookup_of_listed authors .async true .unbounded .null .null herrors
  have hids : ids = ["1", "2"] := by
    rw [asked_idsText_authors] at hdata
    have hinjective : Function.Injective idOnly := fun _ _ h => by
      cases h
      rfl
    apply List.map_injective_iff.mpr hinjective
    simpa using hdata.symm
  subst hids
  have hnames : Names authors (.string "2") := isSome_findAuthor?_iff.mp rfl
  constructor
  . rcases (hlookup "2").2 (by decide) with ⟨_, hfound⟩ | ⟨hnone, _⟩
    . exact hfound
    . contradiction
  . exact (hlookup "3").1 (by decide)

def numbered : Json :=
  .array [.object [("id", .int 1)]]

theorem asked_idsText_numbered
    : asked numbered .sync true .unbounded .null .null idsText []
        = ⟨some (.object [("authors", .array (["1"].map idOnly))]), []⟩ := by
  have hcompile := compile_idsDocument numbered .sync
  have hfree := Plan.panicFree_of_compile (panicFree_schema numbered .sync) hcompile
  exact Gateway.response_of_value ofText_idsText hcompile hfree rfl _ _ rfl rfl

theorem not_lookup_of_listed
    : ¬ ∀ data mode flight retention context root (ids : List String),
        asked data mode flight retention context root idsText []
          = ⟨some (.object [("authors", .array (ids.map idOnly))]), []⟩ →
        ∀ id ∈ ids,
          asked data mode flight retention context root lookupText [("id", .string id)]
            = authorResponse (idOnly id) := by
  intro h
  have hfound := h numbered .sync true .unbounded .null .null ["1"] asked_idsText_numbered "1"
    (by decide)
  have hnames : ¬ Names numbered (.string "1") :=
    isSome_findAuthor?_iff.not.mp Bool.false_ne_true
  have hnull := (asked_lookupText numbered .sync true .unbounded .null .null "1").2 hnames
  cases hnull.symm.trans hfound

end Library

end GraphGateway
