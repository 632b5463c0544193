import GraphGateway.Plan.Basic
import GraphGateway.Schema.Coercion

/-!
This module contains the coercion of the variables of a request. Variables that are not
declared are dropped, and one that is absent takes its default. Every variable that cannot be
coerced is reported.
-/

namespace GraphGateway

namespace VariableFault

inductive Cause where
  | missing
  | null
  | invalid (value : Json) (fault : Coercion.ValueFault)

end VariableFault

structure VariableFault where
  spec : VariableSpec
  cause : VariableFault.Cause

def VariableFault.message (fault : VariableFault) : String :=
  let spec := fault.spec
  match fault.cause with
  | .missing =>
    s!"Variable \"${spec.name}\" of required type \"{spec.type.render}\" was not provided."
  | .null =>
    s!"Variable \"${spec.name}\" of non-null type \"{spec.type.render}\" must not be null."
  | .invalid value reason =>
    s!"Variable \"${spec.name}\" got invalid value {value.render}; {reason.message}"

namespace VariableSpec

/-- The value of one variable, or none if it is absent and may be. -/
def coerce (spec : VariableSpec) (provided : Option Json)
    : Except VariableFault (Option Json) :=
  match provided with
  | none =>
    match spec.default with
    | some v => .ok (some v)
    | none => if spec.type.isNonNull then .error ⟨spec, .missing⟩ else .ok none
  | some v =>
    if v.isNull && spec.type.isNonNull then .error ⟨spec, .null⟩
    else
      match Coercion.coerceValue spec.type v with
      | .ok w => .ok (some w)
      | .error fault => .error ⟨spec, .invalid v fault⟩

/-- The values of all variables, or what is wrong with them in the order of declaration. -/
def coerceAll (specs : List VariableSpec) (provided : Json.Members)
    : Except (List VariableFault) Json.Members :=
  go specs []
where
  go (specs : List VariableSpec) (coerced : Json.Members)
      : Except (List VariableFault) Json.Members :=
    match specs with
    | [] => .ok coerced
    | spec :: rest =>
      match spec.coerce (provided.get? spec.name) with
      | .ok none => go rest coerced
      | .ok (some v) => go rest (coerced.insert spec.name v)
      | .error fault =>
        match go rest coerced with
        | .ok _ => .error [fault]
        | .error faults => .error (fault :: faults)

end VariableSpec

end GraphGateway
