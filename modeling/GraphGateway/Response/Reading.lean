import GraphGateway.Config.Basic
import GraphGateway.Response

/-!
This module contains the reading of responses. Members that are not known are passed over.
-/

namespace GraphGateway

open Json.Shape

def countShape : Json.Shape :=
  .natural "usize" (UInt64.size - 1)

namespace Position

def shape : Json.Shape :=
  .record "Location" false [required "line" countShape, required "column" countShape]

def ofJson (v : Json) : Position :=
  ⟨v.naturalAt "line", v.naturalAt "column"⟩

theorem ofJson_toJson (position : Position) : ofJson position.toJson = position := by
  simp [ofJson, toJson, Json.naturalAt, Json.get?, Json.int, Ordered.get?]

end Position

namespace PathSegment

def shape : Json.Shape :=
  .untagged "PathSegment" [.text, countShape]

theorem ofJson?_toJson (segment : PathSegment) : ofJson? segment.toJson = some segment := by
  cases segment <;> simp [ofJson?, toJson, Json.int]

end PathSegment

namespace ResponseError

def shape : Json.Shape :=
  .record "GraphQLError" false
    [ required "message" .text,
      defaulted "locations" (.list Position.shape) (.array []),
      defaulted "path" (.optional (.list PathSegment.shape)) .null,
      defaulted "extensions" .table (.object [])
    ]

def ofJson (v : Json) : ResponseError :=
  ⟨v.textAt "message",
    (((v.get? "locations").bind Json.items?).getD []).map Position.ofJson,
    ((v.get? "path").bind Json.items?).map (List.filterMap PathSegment.ofJson?),
    ((v.get? "extensions").bind Json.members?).getD []⟩

theorem ofJson_toJson (e : ResponseError) : ofJson e.toJson = e := by
  obtain ⟨message, locations, path, extensions⟩ := e
  cases locations <;> cases path <;> cases extensions <;>
    simp [ofJson, toJson, Json.textAt, Json.get?, Json.items?, Json.members?, Json.string?,
      Ordered.get?, Position.ofJson_toJson, PathSegment.ofJson?_toJson, List.filterMap_map,
      Function.comp_def]

end ResponseError

namespace Response

def shape : Json.Shape :=
  .record "QueryResponse" false
    [ defaulted "data" (.optional .any) .null,
      defaulted "errors" (.list ResponseError.shape) (.array [])
    ]

/-- The response of a value of the right form. Data that is null is absent. -/
def ofForm (v : Json) : Response :=
  ⟨(v.get? "data").filter (!·.isNull),
    (((v.get? "errors").bind Json.items?).getD []).map ResponseError.ofJson⟩

theorem ofForm_toJson (response : Response) (h : response.data ≠ some .null)
    : ofForm response.toJson = response := by
  obtain ⟨data, errors⟩ := response
  cases data with
  | none =>
    cases errors <;> simp [ofForm, toJson, Json.get?, Json.items?, Ordered.get?,
      ResponseError.ofJson_toJson, Function.comp_def]
  | some v =>
    have hv : v.isNull = false := by
      cases v <;> simp_all [Json.isNull]
    cases errors <;> simp [ofForm, toJson, Json.get?, Json.items?, Ordered.get?, Option.filter, hv,
      ResponseError.ofJson_toJson, Function.comp_def]

def ofJson (v : Json) : Except Json.Reason Response :=
  (shape.accept v).map ofForm

def ofString (text : String) : Except Json.Fault Response :=
  (shape.ofString text).map ofForm

end Response

end GraphGateway
