import GraphGateway.Gateway.Envelope
import GraphGateway.Proofs.Json.Records

/-!
This module contains the ways in which an envelope can be written, and the proof that a body is
taken for an envelope exactly if it is written in one of them: as an object with a text and maybe
variables, or as a list of these two.
-/

namespace GraphGateway

namespace Json
namespace Read

def AtEnd (cursor : Cursor) : Prop :=
  ∃ last, peekPastSpace cursor = .ok none last

theorem whole_eq_ok {α : Type} {read : Read α} {a : α} {before after : Cursor}
    : whole read before = .ok a after
        ↔ ∃ middle, read before = .ok a middle ∧ peekPastSpace middle = .ok none after := by
  unfold whole
  rw [bind_eq_ok_iff]
  constructor
  . rintro ⟨b, middle, hread, h⟩
    obtain ⟨c, last, hpeek, h⟩ := bind_eq_ok_iff.mp h
    split at h
    . cases h
    . cases h
      exact ⟨middle, hread, hpeek⟩
  . rintro ⟨middle, hread, hpeek⟩
    exact ⟨a, middle, hread, bind_eq_ok_iff.mpr ⟨none, after, hpeek, rfl⟩⟩

theorem run_eq_ok {α : Type} {read : Read α} {bytes : List UInt8} {a : α}
    : run read bytes = .ok a
        ↔ ∃ middle, read (.ofBytes bytes) = .ok a middle ∧ AtEnd middle := by
  unfold run AtEnd
  constructor
  . intro h
    split at h
    . next hwhole =>
      cases h
      obtain ⟨middle, hread, hpeek⟩ := whole_eq_ok.mp hwhole
      exact ⟨middle, hread, _, hpeek⟩
    . cases h
  . rintro ⟨middle, hread, last, hpeek⟩
    have hwhole := whole_eq_ok.mpr ⟨middle, hread, hpeek⟩
    rw [hwhole]

end Read
end Json

namespace Envelope

open Json (Members)
open Json.Shape (Reader)
open Json.Read (ObjectWritten ListWritten AtEnd)

inductive Binds : Option Json → Option Members → Prop where
  | absent : Binds none none
  | null : Binds (some .null) none
  | object (bindings : Members) : Binds (some (.object bindings)) (some bindings)

/--
An envelope as an object. Members besides the text and the variables are passed over, and neither of
these two is repeated.
-/
def WrittenAsObject (body : List UInt8) (envelope : Envelope) : Prop :=
  ∃ members after, ObjectWritten ["query", "variables"] 126 (.ofBytes body) members after
    ∧ AtEnd after ∧ (Ordered.keys members).Nodup
    ∧ Ordered.get? members "query" = some (.string envelope.text)
    ∧ Binds (Ordered.get? members "variables") envelope.bindings

/-- An envelope as a list of the text and, maybe, the variables. -/
def WrittenAsList (body : List UInt8) (envelope : Envelope) : Prop :=
  ∃ rest after, ListWritten 126 (.ofBytes body) (.string envelope.text :: rest) after
    ∧ AtEnd after ∧ rest.length ≤ 1 ∧ Binds rest.head? envelope.bindings

def Form (name : String) (v : Json) : Prop :=
  (name = "query" → ∃ text, v = .string text)
    ∧ (name = "variables" → v = .null ∨ ∃ bindings, v = .object bindings)

theorem form_query {v : Json} : Form "query" v ↔ ∃ text, v = .string text := by
  simp [Form]

theorem form_variables {v : Json}
    : Form "variables" v ↔ v = .null ∨ ∃ bindings, v = .object bindings := by
  simp [Form]

theorem Binds.form {v : Json} {bindings : Option Members} (h : Binds (some v) bindings)
    : v = .null ∨ ∃ bindings, v = .object bindings := by
  cases h with
  | null => exact .inl rfl
  | object bindings => exact .inr ⟨bindings, rfl⟩

def textReader (left : Nat) : Reader :=
  ⟨"query", Json.Shape.text.read left, none⟩

def variablesReader (left : Nat) : Reader :=
  ⟨"variables", (Json.Shape.optional .table).read left, some .null⟩

def readers (left : Nat) : List Reader :=
  [textReader left, variablesReader left]

theorem takes_readers (left : Nat)
    : ∀ reader ∈ readers left, reader.Takes left (Form reader.name) := by
  have htext : (textReader left).Takes left (Form "query") := by
    intro before v after
    rw [form_query]
    exact Json.Shape.takes_text left before v after
  have hvariables : (variablesReader left).Takes left (Form "variables") := by
    intro before v after
    rw [form_variables]
    exact Json.Shape.takes_optional Json.Shape.takes_table left before v after
  exact List.forall_mem_cons.mpr ⟨htext, List.forall_mem_singleton.mpr hvariables⟩

def filled (left : Nat) (text given : Option Json) : Option Members := do
  let first ← (textReader left).fill text
  let second ← (variablesReader left).fill given
  return [first, second]

theorem filled_iff (left : Nat) {text given : Option Json} {envelope : Envelope}
    (htext : ∀ v ∈ text, Form "query" v) (hvariables : ∀ v ∈ given, Form "variables" v)
    : (∃ result, filled left text given = some result ∧ ofJson (.object result) = envelope)
        ↔ text = some (.string envelope.text) ∧ Binds given envelope.bindings := by
  constructor
  . rintro ⟨result, hfilled, rfl⟩
    cases text with
    | none => cases hfilled
    | some v =>
      obtain ⟨s, rfl⟩ := form_query.mp (htext v rfl)
      cases given with
      | none =>
        cases hfilled
        exact ⟨rfl, .absent⟩
      | some w =>
        cases hfilled
        rcases form_variables.mp (hvariables w rfl) with rfl | ⟨bindings, rfl⟩
        . exact ⟨rfl, .null⟩
        . exact ⟨rfl, .object bindings⟩
  . rintro ⟨rfl, hbinds⟩
    obtain ⟨text, bindings⟩ := envelope
    cases hbinds <;> exact ⟨_, rfl, rfl⟩

theorem ofMembers_readers (left : Nat) (written : Members)
    : Reader.ofMembers (readers left) written
        = filled left (Ordered.get? written "query") (Ordered.get? written "variables") := by
  simp only [Reader.ofMembers, readers, filled, List.mapM_cons, List.mapM_nil, bind_assoc,
    pure_bind]
  rfl

theorem ofElements_readers {left : Nat} {items : List Json} (h : items.length ≤ 2)
    : Reader.ofElements (readers left) items = filled left items.head? items.tail.head? := by
  have hrest : items.tail.tail = [] := by
    apply List.length_eq_zero_iff.mp
    simp only [List.length_tail]
    omega
  simp only [Reader.ofElements, readers, filled, hrest, bind_assoc, pure_bind]
  rfl

theorem length_le_of_ofElements {readers : List Reader} {items : List Json} {result : Members}
    (h : Reader.ofElements readers items = some result)
    : items.length ≤ readers.length := by
  induction readers generalizing items result with
  | nil =>
    cases items with
    | nil => exact Nat.le_refl 0
    | cons v rest => cases h
  | cons reader rest ih =>
    simp only [Reader.ofElements, Option.bind_eq_bind, Option.bind_eq_some_iff] at h
    obtain ⟨_, _, members, hrest, _⟩ := h
    have hle := ih hrest
    simp only [List.length_tail, List.length_cons] at hle ⊢
    omega

theorem ofBytes_eq_ok {body : List UInt8} {envelope : Envelope}
    : ofBytes body = .ok envelope
        ↔ ∃ v after,
          Reader.record readers (126 + 1) "struct GraphQLRequest" false (.ofBytes body)
              = .ok v after
            ∧ AtEnd after ∧ ofJson v = envelope := by
  have hread : ofBytes body = (Json.Read.run
      (Reader.record readers (126 + 1) "struct GraphQLRequest" false) body).map ofJson := rfl
  rw [hread]
  constructor
  . intro h
    cases hrun : Json.Read.run
        (Reader.record readers (126 + 1) "struct GraphQLRequest" false) body with
    | error fault =>
      rw [hrun] at h
      cases h
    | ok v =>
      rw [hrun] at h
      cases h
      obtain ⟨after, hrecord, hend⟩ := Json.Read.run_eq_ok.mp hrun
      exact ⟨v, after, hrecord, hend, rfl⟩
  . rintro ⟨v, after, hrecord, hend, rfl⟩
    rw [Json.Read.run_eq_ok.mpr ⟨after, hrecord, hend⟩]
    rfl

theorem ofBytes_eq_ok_iff {body : List UInt8} {envelope : Envelope}
    : ofBytes body = .ok envelope
        ↔ WrittenAsObject body envelope ∨ WrittenAsList body envelope := by
  rw [ofBytes_eq_ok]
  -- An object and a list come down to the same: what is written for the text and for the variables.
  constructor
  . rintro ⟨v, after, hrecord, hend, henvelope⟩
    obtain ⟨result, rfl, hobject | hlist⟩ := (Reader.record_eq_ok takes_readers).mp hrecord
    . obtain ⟨members, hwritten, hnodup, hforms, hresult⟩ := hobject
      rw [ofMembers_readers] at hresult
      have hform : ∀ name, ∀ v ∈ Ordered.get? members name, Form name v :=
        fun name v hv => hforms (name, v) (Ordered.mem_of_get? hv)
      exact .inl ⟨members, after, hwritten, hend, hnodup,
        (filled_iff 126 (hform _) (hform _)).mp ⟨result, hresult, henvelope⟩⟩
    . obtain ⟨items, hwritten, hforms, hresult⟩ := hlist
      have hlength := length_le_of_ofElements hresult
      rw [ofElements_readers hlength] at hresult
      cases items with
      | nil => cases hresult
      | cons first rest =>
        have htext : Form "query" first := hforms (textReader 126, first) List.mem_cons_self
        have hvariables : ∀ v ∈ rest.head?, Form "variables" v := by
          intro v hv
          obtain ⟨others, rfl⟩ := List.head?_eq_some_iff.mp hv
          exact hforms (variablesReader 126, v) (by simp [readers])
        obtain ⟨heq, hbinds⟩ := (filled_iff 126 (by simpa using htext) hvariables).mp
          ⟨result, hresult, henvelope⟩
        cases heq
        exact .inr ⟨rest, after, hwritten, hend, Nat.le_of_succ_le_succ hlength, hbinds⟩
  . rintro (⟨members, after, hwritten, hend, hnodup, htext, hbinds⟩
      | ⟨rest, after, hwritten, hend, hlength, hbinds⟩)
    . have hforms : ∀ member ∈ members, Form member.1 member.2 := by
        rintro ⟨name, v⟩ hmember
        have hget := Ordered.get?_of_mem hnodup hmember
        refine ⟨?_, ?_⟩
        . rintro rfl
          exact ⟨_, Option.some.inj (hget.symm.trans htext)⟩
        . rintro rfl
          exact Binds.form (hget ▸ hbinds)
      have hform : ∀ name, ∀ v ∈ Ordered.get? members name, Form name v :=
        fun name v hv => hforms (name, v) (Ordered.mem_of_get? hv)
      obtain ⟨result, hfilled, henvelope⟩ :=
        (filled_iff 126 (hform _) (hform _)).mpr ⟨htext, hbinds⟩
      rw [← ofMembers_readers] at hfilled
      exact ⟨.object result, after, (Reader.record_eq_ok takes_readers).mpr
        ⟨result, rfl, .inl ⟨members, hwritten, hnodup, hforms, hfilled⟩⟩, hend, henvelope⟩
    . have htext : ∀ v ∈ some (Json.string envelope.text), Form "query" v := by
        simp [form_query]
      have hvariables : ∀ v ∈ rest.head?, Form "variables" v :=
        fun v hv => form_variables.mpr (Binds.form (Option.mem_def.mp hv ▸ hbinds))
      have hforms : ∀ pair ∈ (readers 126).zip (.string envelope.text :: rest),
          Form pair.1.name pair.2 := by
        refine List.forall_mem_cons.mpr ⟨htext _ rfl, ?_⟩
        cases rest with
        | nil => exact nofun
        | cons v others => exact List.forall_mem_cons.mpr ⟨hvariables v rfl, nofun⟩
      obtain ⟨result, hfilled, henvelope⟩ :=
        (filled_iff 126 htext hvariables).mpr ⟨rfl, hbinds⟩
      have hle : (Json.string envelope.text :: rest).length ≤ 2 := Nat.succ_le_succ hlength
      have helements := (ofElements_readers hle).trans hfilled
      exact ⟨.object result, after, (Reader.record_eq_ok takes_readers).mpr
        ⟨result, rfl, .inr ⟨_, hwritten, hforms, helements⟩⟩, hend, henvelope⟩

end Envelope
end GraphGateway
