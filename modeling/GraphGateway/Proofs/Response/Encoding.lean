import GraphGateway.Response.Reading

/-!
This module contains the proof that a response is read back from the JSON value that it is encoded
as, but for data that is null, which is absent when it is read.
-/

namespace GraphGateway

namespace Json.Shape

/-- A member of a record: what is written for it, if anything, and what is read for it. -/
structure Part where
  slot : Slot
  written : Option Json
  form : Json

namespace Part

/-- A part that is left out must have its default. -/
def ReadsBack (part : Part) : Prop :=
  match part.written with
  | some v => part.slot.accept v = .ok part.form
  | none => part.slot.fallback = some part.form

def name (part : Part) : String :=
  part.slot.name

def pair? (part : Part) : Option (String × Json) :=
  part.written.map fun v => (part.name, v)

def found? (part : Part) : Option (String × Json) :=
  part.written.map fun _ => (part.name, part.form)

theorem name_of_found? {part : Part} {entry : String × Json} (h : part.found? = some entry)
    : entry = (part.name, part.form) := by
  obtain ⟨_, _, heq⟩ := Option.map_eq_some_iff.mp h
  exact heq.symm

theorem contains_found (parts : List Part) (name : String)
    (h : name ∉ parts.map Part.name)
    : Ordered.contains (parts.filterMap found?) name = false := by
  rw [← Bool.not_eq_true, Ordered.contains_iff_mem_keys]
  intro hmem
  obtain ⟨entry, hentry, rfl⟩ := List.mem_map.mp hmem
  obtain ⟨part, hpart, hfound⟩ := List.mem_filterMap.mp hentry
  rw [name_of_found? hfound] at h
  exact h (List.mem_map_of_mem hpart)

theorem get?_found {parts : List Part} (hnodup : (parts.map Part.name).Nodup) {part : Part}
    (h : part ∈ parts)
    : Ordered.get? (parts.filterMap found?) part.name = part.written.map fun _ => part.form := by
  induction parts with
  | nil => cases h
  | cons first rest ih =>
    rw [List.map_cons, List.nodup_cons] at hnodup
    rcases List.mem_cons.mp h with rfl | h
    . have hrest := contains_found rest part.name hnodup.1
      unfold Ordered.contains at hrest
      rw [Option.isSome_eq_false_iff, Option.isNone_iff_eq_none] at hrest
      cases hwritten : part.written with
      | none =>
        have hfound : part.found? = none := by simp [found?, hwritten]
        rw [List.filterMap_cons_none hfound, hrest]
        rfl
      | some v =>
        have hfound : part.found? = some (part.name, part.form) := by simp [found?, hwritten]
        rw [List.filterMap_cons_some hfound, Ordered.get?, if_pos rfl]
        rfl
    . have hne : first.name ≠ part.name := by
        intro heq
        exact hnodup.1 (heq ▸ List.mem_map_of_mem h)
      rw [← ih hnodup.2 h]
      cases hfound : first.found? with
      | none => rw [List.filterMap_cons_none hfound]
      | some entry =>
        rw [List.filterMap_cons_some hfound, name_of_found? hfound, Ordered.get?, if_neg hne]

theorem find?_slot {parts : List Part} (hnodup : (parts.map Part.name).Nodup) {part : Part}
    (h : part ∈ parts)
    : (parts.map Part.slot).find? (fun slot => slot.name = part.name) = some part.slot := by
  induction parts with
  | nil => cases h
  | cons first rest ih =>
    rw [List.map_cons, List.nodup_cons] at hnodup
    rw [List.map_cons]
    rcases List.mem_cons.mp h with rfl | h
    . exact List.find?_cons_of_pos (decide_eq_true rfl)
    . rw [List.find?_cons_of_neg, ih hnodup.2 h]
      intro heq
      have heq : first.name = part.name := of_decide_eq_true heq
      exact hnodup.1 (heq ▸ List.mem_map_of_mem h)

theorem foldlM_take {slots : List Slot} (closed : Bool) {rest : List Part}
    (hnodup : (rest.map Part.name).Nodup)
    (h : ∀ part ∈ rest, part.ReadsBack
      ∧ slots.find? (fun slot => slot.name = part.name) = some part.slot)
    (found : Members) (hfresh : ∀ part ∈ rest, Ordered.contains found part.name = false)
    : (rest.filterMap pair?).foldlM (Slot.fromMembers.take slots closed) found
        = .ok (found ++ rest.filterMap found?) := by
  -- The slots stay those of all parts, while the induction is on the parts that are not yet taken.
  induction rest generalizing found with
  | nil =>
    rw [List.filterMap_nil, List.filterMap_nil, List.append_nil]
    rfl
  | cons part rest ih =>
    obtain ⟨⟨hpart, hfind⟩, hrest⟩ := List.forall_mem_cons.mp h
    obtain ⟨hnew, hothers⟩ := List.forall_mem_cons.mp hfresh
    rw [List.map_cons, List.nodup_cons] at hnodup
    unfold ReadsBack at hpart
    cases hwritten : part.written with
    | none =>
      have hpair : part.pair? = none := by simp [pair?, hwritten]
      have hfound : part.found? = none := by simp [found?, hwritten]
      rw [List.filterMap_cons_none hpair, List.filterMap_cons_none hfound]
      exact ih hnodup.2 hrest found hothers
    | some v =>
      have hpair : part.pair? = some (part.name, v) := by simp [pair?, hwritten]
      have hfound : part.found? = some (part.name, part.form) := by simp [found?, hwritten]
      rw [hwritten] at hpart
      have htake : Slot.fromMembers.take slots closed found (part.name, v)
          = .ok (found ++ [(part.name, part.form)]) := by
        unfold Slot.fromMembers.take
        simp only [hfind, hnew, Bool.false_eq_true, if_false, hpart]
        rfl
      have hothers : ∀ other ∈ rest,
          Ordered.contains (found ++ [(part.name, part.form)]) other.name = false := by
        intro other hother
        have hne : part.name ≠ other.name := by
          intro heq
          exact hnodup.1 (heq ▸ List.mem_map_of_mem hother)
        have hfresh := hothers other hother
        unfold Ordered.contains at hfresh ⊢
        rw [Ordered.get?_append, Ordered.get?, if_neg hne, Ordered.get?, Option.or_none, hfresh]
      rw [List.filterMap_cons_some hpair, List.filterMap_cons_some hfound, List.foldlM_cons, htake]
      refine (ih hnodup.2 hrest _ hothers).trans ?_
      rw [List.append_assoc]
      rfl

end Part

theorem fromMembers_parts {parts : List Part} (closed : Bool)
    (hnodup : (parts.map Part.name).Nodup) (h : ∀ part ∈ parts, part.ReadsBack)
    : Slot.fromMembers (parts.map Part.slot) closed (parts.filterMap Part.pair?)
        = .ok (parts.map fun part => (part.name, part.form)) := by
  have htaken := Part.foldlM_take closed hnodup
    (fun part hpart => ⟨h part hpart, Part.find?_slot hnodup hpart⟩) [] fun _ _ => rfl
  unfold Slot.fromMembers
  rw [htaken, List.nil_append]
  refine List.mapM_map.trans (mapM_eq_ok_map fun part hpart => ?_)
  have hreads := h part hpart
  have hget : Ordered.get? (parts.filterMap Part.found?) part.slot.name
      = part.written.map fun _ => part.form := Part.get?_found hnodup hpart
  unfold Part.ReadsBack at hreads
  dsimp only [Function.comp_apply]
  cases hwritten : part.written with
  | none =>
    rw [hwritten] at hreads hget
    rw [hget, hreads]
    rfl
  | some v =>
    rw [hwritten] at hget
    rw [hget]
    rfl

theorem accept_list {α : Type} {shape : Shape} {encode form : α → Json} {xs : List α}
    (h : ∀ x ∈ xs, shape.accept (encode x) = .ok (form x))
    : (list shape).accept (.array (xs.map encode)) = .ok (.array (xs.map form)) := by
  have hitems : (xs.map encode).mapM shape.accept = .ok (xs.map form) :=
    List.mapM_map.trans (mapM_eq_ok_map h)
  unfold accept
  rw [hitems]
  rfl

theorem accept_record {name : String} {closed : Bool} {members : List Member} (parts : List Part)
    (hslots : slots members = parts.map Part.slot) (hnodup : (parts.map Part.name).Nodup)
    (h : ∀ part ∈ parts, part.ReadsBack)
    : (record name closed members).accept (.object (parts.filterMap Part.pair?))
        = .ok (.object (parts.map fun part => (part.name, part.form))) := by
  unfold accept
  rw [hslots]
  simp only [Slot.fromValue, fromMembers_parts closed hnodup h]
  rfl

end Json.Shape

open Json (Shape)

theorem accept_countShape {n : Nat} (h : n < UInt64.size)
    : countShape.accept (.int n) = .ok (.int n) := by
  have hle : (n : Int) ≤ 18446744073709551615 := by
    have : UInt64.size = 18446744073709551616 := rfl
    omega
  simp [countShape, Json.int, Shape.accept, Shape.acceptNatural, hle]

/-! # Positions and paths -/

namespace Position

def Fits (position : Position) : Prop :=
  position.line < UInt64.size ∧ position.column < UInt64.size

def parts (position : Position) : List Shape.Part :=
  [ ⟨⟨"line", countShape.accept, none⟩, some (.int position.line), .int position.line⟩,
    ⟨⟨"column", countShape.accept, none⟩, some (.int position.column), .int position.column⟩
  ]

theorem accept_toJson {position : Position} (h : position.Fits)
    : shape.accept position.toJson = .ok position.toJson := by
  have hparts : ∀ part ∈ position.parts, part.ReadsBack := by
    simpa [parts, Shape.Part.ReadsBack] using ⟨accept_countShape h.1, accept_countShape h.2⟩
  exact Shape.accept_record position.parts (by simp [parts, Shape.slots, Shape.required])
    (by simp [parts, Shape.Part.name]) hparts

end Position

namespace PathSegment

def Fits : PathSegment → Prop
  | key _ => True
  | index i => i < UInt64.size

theorem accept_toJson {segment : PathSegment} (h : segment.Fits)
    : shape.accept segment.toJson = .ok segment.toJson := by
  unfold shape toJson
  cases segment with
  | key name => rfl
  | index i =>
    have htext : Shape.text.accept (Json.int i) = .error (.invalidType (.integer i) "a string") :=
      rfl
    simp only [Shape.accept, Shape.accepts, Shape.firstOk, List.findSome?_cons, htext,
      Except.toOption, accept_countShape h]

end PathSegment

/-! # Errors -/

namespace ResponseError

structure Fits (e : ResponseError) : Prop where
  locations : ∀ position ∈ e.locations, position.Fits
  path : ∀ path ∈ e.path, ∀ segment ∈ path, segment.Fits

def parts (e : ResponseError) : List Shape.Part :=
  let locations := Json.array (e.locations.map Position.toJson)
  let path? := e.path.map fun path => Json.array (path.map PathSegment.toJson)
  [ ⟨⟨"message", Shape.text.accept, none⟩, some (.string e.message), .string e.message⟩,
    ⟨⟨"locations", (Shape.list Position.shape).accept, some (.array [])⟩,
      if e.locations.isEmpty then none else some locations, locations⟩,
    ⟨⟨"path", (Shape.optional (.list PathSegment.shape)).accept, some .null⟩,
      path?, path?.getD .null⟩,
    ⟨⟨"extensions", Shape.table.accept, some (.object [])⟩,
      if e.extensions.isEmpty then none else some (.object e.extensions), .object e.extensions⟩
  ]

def form (e : ResponseError) : Json :=
  .object (e.parts.map fun part => (part.name, part.form))

theorem toJson_eq_parts (e : ResponseError)
    : e.toJson = .object (e.parts.filterMap Shape.Part.pair?) := by
  obtain ⟨message, locations, path, extensions⟩ := e
  cases locations <;> cases path <;> cases extensions <;> rfl

theorem accept_toJson {e : ResponseError} (h : e.Fits)
    : shape.accept e.toJson = .ok e.form := by
  have hlocations := Shape.accept_list fun position hposition =>
    Position.accept_toJson (h.locations position hposition)
  have hpath : ∀ path ∈ e.path,
      (Shape.list PathSegment.shape).accept (.array (path.map PathSegment.toJson))
        = .ok (.array (path.map PathSegment.toJson)) :=
    fun path hpath => Shape.accept_list fun segment hsegment =>
      PathSegment.accept_toJson (h.path path hpath segment hsegment)
  have hparts : ∀ part ∈ e.parts, part.ReadsBack := by
    simp only [parts, List.forall_mem_cons, Shape.Part.ReadsBack]
    refine ⟨rfl, ?_, ?_, ?_, fun _ => nofun⟩
    . by_cases hempty : e.locations.isEmpty
      . rw [if_pos hempty, List.isEmpty_iff.mp hempty]
        rfl
      . rw [if_neg hempty]
        exact hlocations
    . cases hsome : e.path with
      | none => rfl
      | some path => exact hpath path hsome
    . cases e.extensions with
      | nil => rfl
      | cons _ _ => rfl
  rw [toJson_eq_parts]
  exact Shape.accept_record e.parts rfl (by simp [parts, Shape.Part.name]) hparts

theorem ofJson_form (e : ResponseError) : ofJson e.form = e := by
  obtain ⟨message, locations, path, extensions⟩ := e
  cases path <;>
    simp [ofJson, form, parts, Shape.Part.name, Json.textAt, Json.get?, Json.items?, Json.members?,
      Json.string?, Ordered.get?, Position.ofJson_toJson, PathSegment.ofJson?_toJson,
      List.filterMap_map, Function.comp_def]

end ResponseError

/-! # Responses -/

namespace Response

def Fits (response : Response) : Prop :=
  ∀ e ∈ response.errors, e.Fits

def parts (response : Response) : List Shape.Part :=
  let errors := response.errors.map ResponseError.toJson
  [ ⟨⟨"data", (Shape.optional .any).accept, some .null⟩, response.data, response.data.getD .null⟩,
    ⟨⟨"errors", (Shape.list ResponseError.shape).accept, some (.array [])⟩,
      if response.errors.isEmpty then none else some (.array errors),
      .array (response.errors.map ResponseError.form)⟩
  ]

def form (response : Response) : Json :=
  .object (response.parts.map fun part => (part.name, part.form))

theorem toJson_eq_parts (response : Response)
    : response.toJson = .object (response.parts.filterMap Shape.Part.pair?) := by
  obtain ⟨data, errors⟩ := response
  cases data <;> cases errors <;> rfl

theorem accept_any (v : Json) : (Shape.optional .any).accept v = .ok v := by
  cases v <;> rfl

theorem accept_toJson {response : Response} (h : response.Fits)
    : shape.accept response.toJson = .ok response.form := by
  have herrors := Shape.accept_list fun e he => ResponseError.accept_toJson (h e he)
  have hparts : ∀ part ∈ response.parts, part.ReadsBack := by
    simp only [parts, List.forall_mem_cons, Shape.Part.ReadsBack]
    refine ⟨?_, ?_, fun _ => nofun⟩
    . cases response.data with
      | none => rfl
      | some v => exact accept_any v
    . by_cases hempty : response.errors.isEmpty
      . rw [if_pos hempty, List.isEmpty_iff.mp hempty]
        rfl
      . rw [if_neg hempty]
        exact herrors
  rw [toJson_eq_parts]
  exact Shape.accept_record response.parts rfl (by simp [parts, Shape.Part.name]) hparts

theorem ofForm_form (response : Response)
    : ofForm response.form = { response with data := response.data.filter (!·.isNull) } := by
  obtain ⟨data, errors⟩ := response
  have herrors : errors.map (ResponseError.ofJson ∘ ResponseError.form) = errors := by
    simp [ResponseError.ofJson_form, Function.comp_def]
  cases data with
  | none => simp [ofForm, form, parts, Shape.Part.name, Json.get?, Json.items?, Ordered.get?,
      Json.isNull, herrors]
  | some v => simp [ofForm, form, parts, Shape.Part.name, Json.get?, Json.items?, Ordered.get?,
      Option.filter, herrors]

theorem filter_not_isNull_eq_iff (data : Option Json)
    : data.filter (!·.isNull) = data ↔ data ≠ some .null := by
  rcases data with _ | (_ | _ | _ | _ | _ | _) <;> simp [Json.isNull, Option.filter]

theorem toJson_injective {one other : Response} (h : one.toJson = other.toJson) : one = other := by
  have hdata : ∀ response : Response, response.toJson.get? "data" = response.data := by
    intro ⟨data, errors⟩
    cases data <;> cases errors <;> simp [toJson, Json.get?, Ordered.get?]
  have herrors : ∀ response : Response,
      (((response.toJson.get? "errors").bind Json.items?).getD []).map ResponseError.ofJson
        = response.errors := by
    intro ⟨data, errors⟩
    cases data <;> cases errors <;>
      simp [toJson, Json.get?, Ordered.get?, Json.items?, ResponseError.ofJson_toJson,
        Function.comp_def]
  have heqData : one.data = other.data := by rw [← hdata one, h, hdata other]
  have heqErrors : one.errors = other.errors := by rw [← herrors one, h, herrors other]
  cases one
  cases other
  cases heqData
  cases heqErrors
  rfl

/--
A response is read back from its encoding as it is, unless its data is null, which is then absent.
The encoding itself keeps the two apart.
-/
theorem ofJson_encoded {response : Response} (h : response.Fits)
    : ofJson response.toJson
        = .ok { response with data := response.data.filter (!·.isNull) }
      ∧ (ofJson response.toJson = .ok response ↔ response.data ≠ some .null)
      ∧ ∀ other : Response, other.toJson = response.toJson → other = response := by
  have hread : ofJson response.toJson
      = .ok { response with data := response.data.filter (!·.isNull) } := by
    unfold ofJson
    rw [accept_toJson h]
    exact congrArg Except.ok (ofForm_form response)
  refine ⟨hread, ?_, fun _ => toJson_injective⟩
  rw [hread, ← filter_not_isNull_eq_iff, Except.ok.injEq]
  exact ⟨congrArg Response.data, fun hdata => by rw [hdata]⟩

def rootFailure : Response :=
  ⟨some .null,
    [ ⟨"Author has no name to digest", [⟨1, 3⟩, ⟨2, 5⟩],
        some [.key "authors", .index 1, .key "md5"],
        [("code", .string "EXECUTION_ERROR"), ("author", .object [("id", .null)])]⟩,
      ⟨"", [], some [], []⟩
    ]⟩

theorem rootFailure_fits : rootFailure.Fits := by
  intro e he
  rcases List.mem_cons.mp he with rfl | he
  . exact ⟨by simp [Position.Fits, UInt64.size], by simp [PathSegment.Fits, UInt64.size]⟩
  . rcases List.mem_singleton.mp he with rfl
    exact ⟨nofun, by simp⟩

theorem ofJson_encoded_rootFailure
    : rootFailure.Fits
      ∧ ofJson rootFailure.toJson = .ok { rootFailure with data := none }
      ∧ ofJson rootFailure.toJson ≠ .ok rootFailure := by
  obtain ⟨hread, hiff, _⟩ := ofJson_encoded rootFailure_fits
  exact ⟨rootFailure_fits, hread, fun hok => hiff.mp hok rfl⟩

theorem not_ofJson_encoded
    : ¬ ∀ response : Response, response.Fits → ofJson response.toJson = .ok response := by
  intro hall
  have hdata : (ofJson rootFailure.toJson).toOption.bind Response.data = some .null := by
    rw [hall rootFailure rootFailure_fits]
    rfl
  exact nomatch hdata

end Response

end GraphGateway
