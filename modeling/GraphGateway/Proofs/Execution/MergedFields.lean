import GraphGateway.Proofs.Execution.InvocationPaths
import GraphGateway.Proofs.Execution.Reduced
import GraphGateway.Proofs.Execution.Sites
import GraphGateway.Proofs.Library
import GraphGateway.Proofs.Plan.MergedFields

/-!
This module contains that fields which are merged in a document are merged in a run
anyway: the responses are the same but for the positions that errors refer to, and so are
the calls of resolvers.
-/

namespace GraphGateway

open SelectionItem (allFields admittedAll depthAll)

theorem SelectionItem.takes_admittedAll (bindings : Json.Members)
    : Takes (admittedAll bindings) where
  append := admittedAll_append bindings
  subset := admittedAll_subset bindings
  field head := by
    cases hadmits : head.conditions.all (·.admits bindings) with
    | true => exact .inl fun children => by simp [admittedAll, admitted, hadmits]
    | false => exact .inr fun children => by simp [admittedAll, admitted, hadmits]
  free head hfree children := by simp [admittedAll, admitted, hfree]
  group conditions := by
    cases hadmits : conditions.all (·.admits bindings) with
    | true => exact .inl fun items => by simp [admittedAll, admitted, hadmits]
    | false => exact .inr fun items => by simp [admittedAll, admitted, hadmits]

theorem Ordered.map_eq_map {α β γ : Type} {table : Ordered α} {other : Ordered β}
    {f : String × α → γ} {g : String × β → γ} (hkeys : table.keys = other.keys)
    (hnodup : table.keys.Nodup)
    (h : ∀ key a b, table.get? key = some a → other.get? key = some b → f (key, a) = g (key, b))
    : table.map f = other.map g := by
  have hlength : table.length = other.length := by simpa [keys] using congrArg List.length hkeys
  apply List.ext_getElem (by simpa using hlength)
  intro i hi hi'
  rw [List.length_map] at hi hi'
  have hkey : table[i].1 = other[i].1 := by
    have := List.getElem_of_eq hkeys (by simpa [keys] using hi)
    simpa [keys] using this
  rw [List.getElem_map, List.getElem_map]
  have ha := get?_of_mem hnodup (List.getElem_mem hi)
  have hb := get?_of_mem (hkeys ▸ hnodup) (List.getElem_mem hi')
  have hentry := h table[i].1 table[i].2 other[i].2 ha (hkey ▸ hb)
  exact hentry.trans (congrArg g (Prod.ext hkey rfl))

namespace Task

def unplaced (task : Task) : Task :=
  task.mapSites Site.unplaced

variable {setting : Setting} {object other : ObjectTasks} {children others : List SelectionItem}

theorem failed_unplaced {site moved : Site} (hsite : moved.unplaced = site.unplaced)
    (cause : Failure.Cause)
    : (failed moved cause).unplaced = (failed site cause).unplaced := by
  have hfailure : (⟨moved.unplaced, cause⟩ : Failure) = ⟨site.unplaced, cause⟩ := by rw [hsite]
  exact congrArg (fun failure => settled (.error failure)) hfailure

theorem complete_unplaced
    (h : ∀ type v path, (other type others v path).unplaced
      = (object type children v path).unplaced)
    (type : OutputType) {site moved : Site} (hsite : moved.unplaced = site.unplaced) (v : Json)
    : (complete other others type moved v).unplaced
        = (complete object children type site v).unplaced := by
  induction type generalizing site moved v with
  | scalar s =>
    unfold complete
    split
    . rfl
    . cases s.serialize v with
      | ok w => rfl
      | error fault => exact failed_unplaced hsite _
  | object name =>
    have hpath : moved.path = site.path := (congrArg Site.path hsite :)
    unfold complete
    split
    . rfl
    . rw [hpath]
      exact h name v site.path
  | list inner ih =>
    unfold complete
    cases v with
    | array items =>
      have helement (i : Nat) : (moved.element i).unplaced = (site.element i).unplaced :=
        congrArg (Site.element · i) hsite
      unfold unplaced at ih ⊢
      dsimp only
      simp only [mapSites, mapSitesAll_eq_map, map_mapIdx, helement, ih (helement _)]
    | null => rfl
    | _ => exact failed_unplaced hsite _
  | nonNull inner ih => exact ih hsite v

variable {group merged : FieldGroup}

theorem resolve_unplaced (setting : Setting) (hfirst : merged.first.head = group.first.head)
    (h : ∀ type v path, (other type merged.children v path).unplaced
      = (object type group.children v path).unplaced)
    (type : String) (parent : Json) {site moved : Site} (hsite : moved.unplaced = site.unplaced)
    : (resolve setting other type parent merged moved).unplaced
        = (resolve setting object type parent group site).unplaced := by
  have hcomplete := complete_unplaced h group.first.head.output hsite
  unfold resolve
  rw [hfirst]
  dsimp only
  cases group.first.head.resolution with
  | typename => rfl
  | property =>
    dsimp only
    cases ArgumentPlan.evaluateAll group.first.head.arguments setting.bindings with
    | error fault => exact failed_unplaced hsite _
    | ok arguments => exact hcomplete _
  | resolver resolver =>
    dsimp only
    cases ArgumentPlan.evaluateAll group.first.head.arguments setting.bindings with
    | error fault => exact failed_unplaced hsite _
    | ok arguments =>
      unfold unplaced at hcomplete ⊢
      dsimp only
      rw [mapSites, mapSites, hsite]
      congr 1
      split
      . exact hcomplete _
      . exact failed_unplaced hsite _
      . rfl

theorem ofGroup_unplaced (hmerges : group.Merges merged)
    (h : ∀ type v path, (other type merged.children v path).unplaced
      = (object type group.children v path).unplaced)
    (type : String) (parent : Json) (path : Path) (key : String)
    : (ofGroup setting other type parent path key merged).unplaced
        = (ofGroup setting object type parent path key group).unplaced := by
  have hsite : Site.unplaced ⟨merged.first.head.coordinate, merged.positions, path ++ [.key key]⟩
      = Site.unplaced ⟨group.first.head.coordinate, group.positions, path ++ [.key key]⟩ := by
    rw [hmerges.first]
    rfl
  have hresolve := resolve_unplaced setting hmerges.first h type parent hsite
  unfold ofGroup unplaced at *
  dsimp only
  rw [mapSites, mapSites, hsite, hresolve, hmerges.first]

theorem fields_unplaced {tasks moved : Ordered Task}
    (h : moved.mapValues unplaced = tasks.mapValues unplaced)
    : moved.keys = tasks.keys
        ∧ mapSitesAll Site.unplaced (moved.map Prod.snd)
          = mapSitesAll Site.unplaced (tasks.map Prod.snd) := by
  have hkeys (tasks : Ordered Task) : tasks.keys = (tasks.mapValues unplaced).map Prod.fst := by
    simp [Ordered.keys, Ordered.mapValues]
  have hvalues (tasks : Ordered Task)
      : mapSitesAll Site.unplaced (tasks.map Prod.snd)
          = (tasks.mapValues unplaced).map Prod.snd := by
    simp [mapSitesAll_eq_map, Ordered.mapValues, unplaced]
  rw [hkeys moved, hvalues moved, h, ← hkeys, ← hvalues]
  exact ⟨rfl, rfl⟩

theorem ofSelection_unplaced (setting : Setting) (levels : Nat) (type : String)
    {items others : List SelectionItem} (h : SelectionItem.Merges items others) (parent : Json)
    (path : Path)
    : (ofSelection setting levels type others parent path).mapValues unplaced
        = (ofSelection setting levels type items parent path).mapValues unplaced := by
  induction levels generalizing type items others parent path with
  | zero => rfl
  | succ levels ih =>
    have hfields := h.of_takes (SelectionItem.takes_admittedAll setting.bindings)
    unfold ofSelection Ordered.mapValues
    rw [List.map_map, List.map_map]
    apply Ordered.map_eq_map (FieldGroup.keys_ofFields_merges hfields)
      (FieldGroup.nodup_keys_ofFields _)
    intro key merged group hmerged hgroup
    rw [FieldGroup.get?_ofFields] at hmerged hgroup
    have hmerges := FieldGroup.merges_of_ofKey? hfields hgroup hmerged
    refine congrArg (Prod.mk key) (ofGroup_unplaced hmerges ?_ type parent path key)
    intro type v path
    obtain ⟨hkeys, htasks⟩ := fields_unplaced (ih type hmerges.children v path)
    unfold unplaced
    rw [mapSites, mapSites, hkeys, htasks]

theorem ofPlan_unplaced {plan : Plan} {items : List SelectionItem}
    (h : SelectionItem.Merges plan.selection items) (root : Json)
    : (ofPlan { plan with selection := items } setting root).unplaced
        = (ofPlan plan setting root).unplaced := by
  have hdepth : depthAll items = plan.depth := SelectionItem.depthAll_merges h
  have htasks := ofSelection_unplaced setting plan.depth plan.rootType h root []
  obtain ⟨hkeys, htasks⟩ := fields_unplaced htasks
  unfold ofPlan unplaced Plan.depth Plan.isSerial at *
  dsimp only at *
  rw [hdepth, hkeys]
  split
  . rw [mapSites, mapSites, htasks]
  . rw [mapSites, mapSites, htasks]

end Task

namespace Plan

/--
A document in which fields are merged compiles, and its answers are the same for all requests but
for the positions that errors refer to. The calls of resolvers are the same too, in the same order,
and at no path there is more than one.
-/
theorem answer_of_merges {schema : Schema} {document other : Document} {plan : Plan}
    (hmerges : document.Merges other) (h : compile schema document = .ok plan)
    : ∃ second, compile schema other = .ok second
        ∧ ∀ provided context root,
          (second.answer provided context root).unplaced
              = (plan.answer provided context root).unplaced
            ∧ ((second.answer provided context root).journal.invocations.map
              fun place => place.1.path).Nodup := by
  obtain ⟨items, hother, hitems⟩ := compile_of_merges hmerges h
  refine ⟨_, hother, fun provided context root => ?_⟩
  unfold answer
  dsimp only
  split
  . exact ⟨execute_unplaced (Task.ofPlan_unplaced hitems root), nodup_invocations ..⟩
  . exact ⟨rfl, List.nodup_nil⟩

end Plan

namespace Library

def authorsNode (column : Nat) : FieldNode :=
  ⟨none, "authors", [], [], ⟨1, column⟩⟩

def nameLeaf : Selection :=
  .field ⟨none, "name", [], [], ⟨1, 13⟩⟩ none

def idLeaf : Selection :=
  .field ⟨none, "id", [], [], ⟨1, 30⟩⟩ none

def authorsDocument (selections : List Selection) : Document :=
  ⟨[.operation ⟨.query, none, [], [], ⟨selections, ⟨1, 1⟩⟩, ⟨1, 1⟩⟩]⟩

def askedTwice : List Selection :=
  [ .field (authorsNode 3) (some ⟨[nameLeaf], ⟨1, 11⟩⟩),
    .field (authorsNode 20) (some ⟨[idLeaf], ⟨1, 28⟩⟩)
  ]

def askedOnce : List Selection :=
  [.field (authorsNode 3) (some ⟨[nameLeaf, idLeaf], ⟨1, 11⟩⟩)]

def authorIdField : FieldPlan :=
  ⟨"id", "Author", "id", .property, [], [], .nonNull (.scalar .id), ⟨1, 30⟩⟩

def twicePlan : Plan :=
  ⟨.query, none, "Query", [],
    [ .field (authorsField authors .sync) (some [.field nameField none]),
      .field { authorsField authors .sync with position := ⟨1, 20⟩ }
        (some [.field authorIdField none])
    ]⟩

theorem compile_askedTwice
    : Plan.compile (schema authors .sync) (authorsDocument askedTwice) = .ok twicePlan := by
  cbv

theorem merges_askedTwice : (authorsDocument askedTwice).Merges (authorsDocument askedOnce) := by
  have hbetween : ¬ (authorsDocument askedTwice).HasKey (authorsNode 3).responseKey [] :=
    Document.not_hasKey_nil
  have hrepeats : (authorsNode 3).Repeats (authorsNode 20) := ⟨rfl, rfl, rfl, rfl⟩
  have hmerges : (authorsDocument askedTwice).MergesAll askedTwice askedOnce :=
    .merged (some ⟨[nameLeaf], ⟨1, 11⟩⟩) (some ⟨[idLeaf], ⟨1, 28⟩⟩) hrepeats hbetween
      (.refl askedOnce)
  exact .cons (.operation _ hmerges) .nil

def authorDetails : Json :=
  .array
    [ .object [("name", .string "Ursula K. Le Guin"), ("id", .string "1")],
      .object [("name", .string "Octavia E. Butler"), ("id", .string "2")]
    ]

theorem outcome_twicePlan
    : (twicePlan.answer [] .null .null).outcome
        = .ok ⟨some (.object [("authors", authorDetails)]), []⟩ := by
  cbv

theorem answer_askedOnce
    : (authorsDocument askedTwice).Merges (authorsDocument askedOnce)
        ∧ Plan.compile (schema authors .sync) (authorsDocument askedTwice) = .ok twicePlan
        ∧ ∃ second response,
          Plan.compile (schema authors .sync) (authorsDocument askedOnce) = .ok second
            ∧ (second.answer [] .null .null).unplaced = (twicePlan.answer [] .null .null).unplaced
            ∧ (second.answer [] .null .null).outcome = .ok response
            ∧ response.data = some (.object [("authors", authorDetails)]) := by
  refine ⟨merges_askedTwice, compile_askedTwice, ?_⟩
  obtain ⟨second, hsecond, hanswer⟩ := Plan.answer_of_merges merges_askedTwice compile_askedTwice
  have hunplaced := (hanswer [] .null .null).1
  have houtcome : (second.answer [] .null .null).outcome.map Response.unplaced
      = .ok ⟨some (.object [("authors", authorDetails)]), []⟩ := by
    have h := congrArg Execution.outcome hunplaced
    rw [Execution.unplaced, Execution.unplaced, outcome_twicePlan] at h
    exact h
  cases hresponse : (second.answer [] .null .null).outcome with
  | ok response =>
    rw [hresponse] at houtcome
    injection houtcome with hdata
    exact ⟨second, response, hsecond, hunplaced, hresponse, congrArg Response.data hdata⟩
  | error panic =>
    rw [hresponse] at houtcome
    cases houtcome

end Library

end GraphGateway
