import GraphGateway.Proofs.Json.Forms

/-!
This module contains objects and lists as they are written, member after member and element
after element, and the proof that the reader of a record takes exactly the objects whose known
members are of their forms and not repeated, and the lists whose elements are of the forms of
the members in order.
-/

namespace GraphGateway
namespace Json
namespace Read

variable {α β : Type}

theorem pure_eq_ok {a b : α} {before after : Cursor}
    : (pure a : Read α) before = .ok b after ↔ a = b ∧ after = before := by
  constructor
  . intro h
    cases h
    exact ⟨rfl, rfl⟩
  . rintro ⟨rfl, rfl⟩
    rfl

theorem mapM_eq_ok {γ : Type} {f : γ → Read α} {g : γ → Option α}
    (h : ∀ x before a after, f x before = .ok a after ↔ g x = some a ∧ after = before)
    {xs : List γ} {as : List α} {before after : Cursor}
    : xs.mapM f before = .ok as after ↔ xs.mapM g = some as ∧ after = before := by
  induction xs generalizing as before with
  | nil => simp [pure_eq_ok]
  | cons x rest ih =>
    rw [List.mapM_cons, List.mapM_cons, bind_eq_ok_iff]
    constructor
    . rintro ⟨a, middle, hfirst, hrest⟩
      obtain ⟨ha, rfl⟩ := (h x before a middle).mp hfirst
      obtain ⟨others, last, hlast, hpure⟩ := bind_eq_ok_iff.mp hrest
      cases hpure
      obtain ⟨hothers, rfl⟩ := ih.mp hlast
      exact ⟨by simp [ha, hothers], rfl⟩
    . rintro ⟨has, rfl⟩
      simp only [Option.bind_eq_bind, Option.bind_eq_some_iff, Option.pure_def,
        Option.some.injEq] at has
      obtain ⟨a, ha, others, hothers, rfl⟩ := has
      exact ⟨a, after, (h x after a after).mpr ⟨ha, rfl⟩,
        bind_eq_ok_iff.mpr ⟨others, after, ih.mpr ⟨hothers, rfl⟩, rfl⟩⟩

theorem unless_eq_ok {c : Prop} [Decidable c] {reason : Reason} {f : Unit → Read β} {b : β}
    {before after : Cursor}
    : (if c then fail reason >>= f else f ()) before = .ok b after
        ↔ ¬ c ∧ f () before = .ok b after := by
  by_cases hc : c
  . rw [if_pos hc]
    exact ⟨nofun, fun h => absurd hc h.1⟩
  . rw [if_neg hc]
    exact ⟨fun h => ⟨hc, h⟩, And.right⟩

def nextMember (first : Bool) : Read (Option String) := do
  if ← hasMember first then
    let name ← key
    colon
    return some name
  else
    return none

theorem nextMember_eq_none {first : Bool} {before after : Cursor}
    : nextMember first before = .ok none after ↔ hasMember first before = .ok false after := by
  constructor
  . intro h
    obtain ⟨more, middle, hmember, h⟩ := bind_eq_ok_iff.mp h
    cases more with
    | true =>
      obtain ⟨name, start, _, h⟩ := bind_eq_ok_iff.mp h
      obtain ⟨_, last, _, h⟩ := bind_eq_ok_iff.mp h
      cases h
    | false =>
      cases h
      exact hmember
  . intro h
    exact bind_eq_ok_iff.mpr ⟨false, after, h, rfl⟩

theorem nextMember_eq_some {first : Bool} {before after : Cursor} {name : String}
    : nextMember first before = .ok (some name) after
        ↔ ∃ atKey atColon, hasMember first before = .ok true atKey
          ∧ key atKey = .ok name atColon ∧ colon atColon = .ok () after := by
  constructor
  . intro h
    obtain ⟨more, atKey, hmember, h⟩ := bind_eq_ok_iff.mp h
    cases more with
    | true =>
      obtain ⟨found, atColon, hkey, h⟩ := bind_eq_ok_iff.mp h
      obtain ⟨_, last, hcolon, h⟩ := bind_eq_ok_iff.mp h
      cases h
      exact ⟨atKey, atColon, hmember, hkey, hcolon⟩
    | false => cases h
  . rintro ⟨atKey, atColon, hmember, hkey, hcolon⟩
    exact bind_eq_ok_iff.mpr ⟨true, atKey, hmember,
      bind_eq_ok_iff.mpr ⟨name, atColon, hkey, bind_eq_ok_iff.mpr ⟨(), after, hcolon, rfl⟩⟩⟩

/--
The members of an object as they are written, up to its closing brace. The values of the members
that are known are read, and all others are passed over.
-/
inductive Written (known : List String) (left : Nat)
    : Bool → Cursor → List (String × Json) → Cursor → Prop where
  | nil {first : Bool} {before after : Cursor} (hend : nextMember first before = .ok none after)
    : Written known left first before [] after
  | known {first : Bool} {before start behind after : Cursor} {name : String} {v : Json}
    {members : List (String × Json)} (hnext : nextMember first before = .ok (some name) start)
    (hknown : name ∈ known) (hvalue : value left start = .ok v behind)
    (hrest : Written known left false behind members after)
    : Written known left first before ((name, v) :: members) after
  | other {first : Bool} {before start behind after : Cursor} {name : String}
    {members : List (String × Json)} (hnext : nextMember first before = .ok (some name) start)
    (hunknown : name ∉ known) (hskip : skipValue start = .ok () behind)
    (hrest : Written known left false behind members after)
    : Written known left first before members after

theorem head?_of_peekPastSpace {c : Option Char} {before after : Cursor}
    (h : peekPastSpace before = .ok c after)
    : after.head? = c := by
  cases h
  rfl

theorem length_next_lt {cursor : Cursor} {c : Char} (h : cursor.head? = some c)
    : cursor.next.rest.length < cursor.rest.length := by
  unfold Cursor.head? at h
  unfold Cursor.next
  cases hrest : cursor.rest with
  | nil =>
    rw [hrest] at h
    cases h
  | cons byte rest => simp

theorem length_lt_of_colon {before after : Cursor} (h : colon before = .ok () after)
    : after.rest.length < before.rest.length := by
  unfold colon at h
  obtain ⟨c, middle, hpeek, h⟩ := bind_eq_ok_iff.mp h
  have hmiddle := shrinks_peekPastSpace before c middle hpeek
  have hhead := head?_of_peekPastSpace hpeek
  split at h
  . cases h
    exact Nat.lt_of_lt_of_le (length_next_lt hhead) hmiddle
  . cases h
  . cases h

theorem length_lt_of_nextMember {first : Bool} {before after : Cursor} {name : String}
    (h : nextMember first before = .ok (some name) after)
    : after.rest.length < before.rest.length := by
  obtain ⟨atKey, atColon, hmember, hkey, hcolon⟩ := nextMember_eq_some.mp h
  have hfirst := shrinks_hasMember first before true atKey hmember
  have hsecond := shrinks_key atKey name atColon hkey
  have hthird := length_lt_of_colon hcolon
  omega

/-! # Elements -/

theorem hasItem_eq_false {first : Bool} {before after : Cursor}
    : hasItem first before = .ok false after ↔ peekPastSpace before = .ok (some ']') after := by
  unfold hasItem
  rw [bind_eq_ok_iff]
  constructor
  . rintro ⟨c, middle, hpeek, h⟩
    split at h
    . cases h
      exact hpeek
    . cases first with
      | true => cases h
      | false =>
        obtain ⟨_, _, _, h⟩ := bind_eq_ok_iff.mp h
        obtain ⟨next, _, _, h⟩ := bind_eq_ok_iff.mp h
        split at h <;> cases h
    . cases first <;> cases h
    . cases h
  . intro h
    exact ⟨some ']', after, h, rfl⟩

theorem hasItem_idem {first : Bool} {before after : Cursor} (other : Bool)
    (h : hasItem first before = .ok false after)
    : hasItem other after = .ok false after :=
  hasItem_eq_false.mpr (peekPastSpace_idem (hasItem_eq_false.mp h))

theorem endList_of_peekPastSpace {c : Option Char} {before middle : Cursor}
    (h : peekPastSpace before = .ok c middle)
    : endList before = endList middle := by
  unfold endList
  rw [bind_of_ok h, bind_of_ok (peekPastSpace_idem h)]

theorem exists_of_endList {before after : Cursor} (h : endList before = .ok () after)
    : ∃ middle, peekPastSpace before = .ok (some ']') middle := by
  unfold endList at h
  obtain ⟨c, middle, hpeek, h⟩ := bind_eq_ok_iff.mp h
  split at h
  . exact ⟨middle, hpeek⟩
  . obtain ⟨_, _, _, h⟩ := bind_eq_ok_iff.mp h
    obtain ⟨next, _, _, h⟩ := bind_eq_ok_iff.mp h
    split at h <;> cases h
  . cases h
  . cases h

inductive Listed (left : Nat) : Bool → Cursor → List Json → Cursor → Prop where
  | nil {first : Bool} {before after : Cursor} (hend : hasItem first before = .ok false after)
    : Listed left first before [] after
  | cons {first : Bool} {before start behind after : Cursor} {v : Json} {items : List Json}
    (hnext : hasItem first before = .ok true start) (hvalue : value left start = .ok v behind)
    (hrest : Listed left false behind items after)
    : Listed left first before (v :: items) after

def ListWritten (left : Nat) (before : Cursor) (items : List Json) (after : Cursor) : Prop :=
  ∃ atStart atEnd, peekPastSpace before = .ok (some '[') atStart
    ∧ Listed left true atStart.next items atEnd ∧ endList atEnd = .ok () after

def ObjectWritten (known : List String) (left : Nat) (before : Cursor) (members : Members)
    (after : Cursor)
    : Prop :=
  ∃ atStart atEnd, peekPastSpace before = .ok (some '\x7b') atStart
    ∧ Written known left true atStart.next members atEnd ∧ endObject atEnd = .ok () after

theorem closedBy_eq_ok {read : Read α} {close : Read Unit} {a : α} {before after : Cursor}
    : closedBy read close before = .ok a after
        ↔ ∃ middle, read before = .ok a middle ∧ close middle = .ok () after := by
  unfold closedBy
  constructor
  . intro h
    split at h
    . next b middle hread =>
      split at h
      . next hclose =>
        cases h
        exact ⟨middle, hread, hclose⟩
      . cases h
    . split at h <;> cases h
  . rintro ⟨middle, hread, hclose⟩
    simp only [hread, hclose]

end Read

namespace Shape

open Read (value skipValue nextMember Written Listed ListWritten ObjectWritten hasItem_idem
  bind_eq_ok_iff pure_eq_ok mapM_eq_ok unless_eq_ok)

/-- A reader takes the values that any reader would take there, if they are of a form. -/
def Reader.Takes (reader : Reader) (left : Nat) (Form : Json → Prop) : Prop :=
  ∀ before v after, reader.read before = .ok v after ↔ value left before = .ok v after ∧ Form v

namespace Reader

variable {readers : List Reader} {left : Nat} {Form : String → Json → Prop}
  {rounds : List UInt8} {first : Bool} {found result : Members} {before after : Cursor}

theorem go_cons {byte : UInt8}
    : members.go readers false (byte :: rounds) first found = (do
        if ← Read.hasMember first then
          let name ← Read.key
          match readers.find? fun reader => reader.name = name with
          | none =>
            Read.colon
            Read.skipValue
            members.go readers false rounds false found
          | some reader =>
            if Ordered.contains found name then Read.fail (.duplicateField name)
            Read.colon
            let v ← reader.read
            members.go readers false rounds false (found ++ [(name, v)])
        else
          return found) := rfl

theorem go_cons_iff {byte : UInt8}
    : members.go readers false (byte :: rounds) first found before = .ok result after
        ↔ (nextMember first before = .ok none after ∧ result = found)
          ∨ ∃ name start, nextMember first before = .ok (some name) start
            ∧ ((readers.find? (·.name = name) = none ∧ ∃ behind, skipValue start = .ok () behind
                ∧ members.go readers false rounds false found behind = .ok result after)
              ∨ ∃ reader, readers.find? (·.name = name) = some reader ∧ name ∉ Ordered.keys found
                ∧ ∃ v behind, reader.read start = .ok v behind
                  ∧ members.go readers false rounds false (found ++ [(name, v)]) behind
                    = .ok result after) := by
  simp only [← Ordered.contains_iff_mem_keys]
  rw [go_cons]
  constructor
  . intro h
    obtain ⟨more, atKey, hmember, h⟩ := bind_eq_ok_iff.mp h
    cases more with
    | false =>
      cases h
      exact .inl ⟨Read.nextMember_eq_none.mpr hmember, rfl⟩
    | true =>
      obtain ⟨name, atColon, hkey, h⟩ := bind_eq_ok_iff.mp h
      refine .inr ⟨name, ?_⟩
      cases hfind : readers.find? fun reader => reader.name = name with
      | none =>
        rw [hfind] at h
        obtain ⟨_, start, hcolon, h⟩ := bind_eq_ok_iff.mp h
        obtain ⟨_, behind, hskip, h⟩ := bind_eq_ok_iff.mp h
        exact ⟨start, Read.nextMember_eq_some.mpr ⟨atKey, atColon, hmember, hkey, hcolon⟩,
          .inl ⟨rfl, behind, hskip, h⟩⟩
      | some reader =>
        rw [hfind] at h
        obtain ⟨hnew, h⟩ := unless_eq_ok.mp h
        obtain ⟨_, start, hcolon, h⟩ := bind_eq_ok_iff.mp h
        obtain ⟨v, behind, hread, h⟩ := bind_eq_ok_iff.mp h
        exact ⟨start, Read.nextMember_eq_some.mpr ⟨atKey, atColon, hmember, hkey, hcolon⟩,
          .inr ⟨reader, rfl, hnew, v, behind, hread, h⟩⟩
  . rintro (⟨hend, rfl⟩ | ⟨name, start, hnext, hcase⟩)
    . exact bind_eq_ok_iff.mpr ⟨false, after, Read.nextMember_eq_none.mp hend, rfl⟩
    . obtain ⟨atKey, atColon, hmember, hkey, hcolon⟩ := Read.nextMember_eq_some.mp hnext
      refine bind_eq_ok_iff.mpr ⟨true, atKey, hmember, bind_eq_ok_iff.mpr ⟨name, atColon, hkey, ?_⟩⟩
      rcases hcase with
        ⟨hfind, behind, hskip, h⟩ | ⟨reader, hfind, hnew, v, behind, hread, h⟩
      . rw [hfind]
        exact bind_eq_ok_iff.mpr ⟨(), start, hcolon, bind_eq_ok_iff.mpr ⟨(), behind, hskip, h⟩⟩
      . rw [hfind]
        exact unless_eq_ok.mpr ⟨hnew, bind_eq_ok_iff.mpr ⟨(), start, hcolon,
          bind_eq_ok_iff.mpr ⟨v, behind, hread, h⟩⟩⟩

theorem find?_eq_none_iff {name : String}
    : readers.find? (·.name = name) = none ↔ name ∉ readers.map Reader.name := by
  simp

theorem exists_find?_of_mem {name : String} (h : name ∈ readers.map Reader.name)
    : ∃ reader ∈ readers, reader.name = name ∧ readers.find? (·.name = name) = some reader := by
  cases hfind : readers.find? (·.name = name) with
  | none => exact absurd h (find?_eq_none_iff.mp hfind)
  | some reader =>
    exact ⟨reader, List.mem_of_find?_eq_some hfind, by simpa using List.find?_some hfind, rfl⟩

theorem nodup_keys_append_singleton {name : String} {v : Json}
    : (Ordered.keys (found ++ [(name, v)])).Nodup
        ↔ (Ordered.keys found).Nodup ∧ name ∉ Ordered.keys found := by
  unfold Ordered.keys
  rw [List.map_append, List.nodup_append]
  grind

theorem rounds_left {α : Type} {x : Read α} {a : α} {name : String} {byte : UInt8}
    {start behind : Cursor} (hx : Read.Shrinks x)
    (hnext : nextMember first before = .ok (some name) start) (h : x start = .ok a behind)
    (hrounds : before.rest.length < (byte :: rounds).length)
    : behind.rest.length < rounds.length := by
  have hstart := Read.length_lt_of_nextMember hnext
  have hbehind := hx start a behind h
  rw [List.length_cons] at hrounds
  omega

/--
The members that are read are those that are written, all of them of their forms and
under different names.
-/
theorem go_iff (h : ∀ reader ∈ readers, reader.Takes left (Form reader.name))
    (hrounds : before.rest.length < rounds.length) (hfound : (Ordered.keys found).Nodup)
    : members.go readers false rounds first found before = .ok result after
        ↔ ∃ written, Written (readers.map Reader.name) left first before written after
          ∧ (Ordered.keys (found ++ written)).Nodup
          ∧ (∀ member ∈ written, Form member.1 member.2) ∧ result = found ++ written := by
  -- There are more rounds than bytes, so that the loop never stops before the members do.
  induction rounds generalizing first found before with
  | nil => cases hrounds
  | cons byte rounds ih =>
    rw [go_cons_iff]
    constructor
    . rintro (⟨hend, rfl⟩ | ⟨name, start, hnext, hcase⟩)
      . exact ⟨[], .nil hend, by simpa using hfound, nofun, by simp⟩
      rcases hcase with
        ⟨hfind, behind, hskip, hgo⟩ | ⟨reader, hfind, hnew, v, behind, hread, hgo⟩
      . have hleft := rounds_left Read.shrinks_skipValue hnext hskip hrounds
        obtain ⟨written, hwritten, hrest⟩ := (ih hleft hfound).mp hgo
        exact ⟨written, .other hnext (find?_eq_none_iff.mp hfind) hskip hwritten, hrest⟩
      . have hreader := List.mem_of_find?_eq_some hfind
        have hname : reader.name = name := by simpa using List.find?_some hfind
        obtain ⟨hvalue, hform⟩ := (h reader hreader start v behind).mp hread
        have hleft := rounds_left (Read.shrinks_value left) hnext hvalue hrounds
        obtain ⟨written, hwritten, hnodup, hforms, hresult⟩ :=
          (ih hleft (nodup_keys_append_singleton.mpr ⟨hfound, hnew⟩)).mp hgo
        rw [List.append_assoc] at hnodup hresult
        refine ⟨(name, v) :: written, ?_, hnodup, ?_, hresult⟩
        . exact .known hnext (List.mem_map.mpr ⟨reader, hreader, hname⟩) hvalue hwritten
        . exact List.forall_mem_cons.mpr ⟨hname ▸ hform, hforms⟩
    . rintro ⟨written, hwritten, hnodup, hforms, rfl⟩
      cases hwritten with
      | nil hend => exact .inl ⟨hend, List.append_nil found⟩
      | @other _ _ start behind _ name _ hnext hunknown hskip hrest =>
        have hleft := rounds_left Read.shrinks_skipValue hnext hskip hrounds
        have hgo := (ih hleft hfound).mpr ⟨written, hrest, hnodup, hforms, rfl⟩
        exact .inr ⟨name, start, hnext, .inl ⟨find?_eq_none_iff.mpr hunknown, behind, hskip, hgo⟩⟩
      | @known _ _ start behind _ name v rest hnext hknown hvalue hrest =>
        have hleft := rounds_left (Read.shrinks_value left) hnext hvalue hrounds
        obtain ⟨hform, hforms⟩ := List.forall_mem_cons.mp hforms
        obtain ⟨reader, hreader, hname, hfind⟩ := exists_find?_of_mem hknown
        rw [List.append_cons] at hnodup
        have hfirst : (Ordered.keys (found ++ [(name, v)])).Nodup := by
          rw [Ordered.keys, List.map_append] at hnodup
          exact (List.nodup_append.mp hnodup).1
        have hgo := (ih hleft hfirst).mpr
          ⟨rest, hrest, hnodup, hforms, List.append_cons found (name, v) rest⟩
        have hread := (h reader hreader start v behind).mpr ⟨hvalue, hname ▸ hform⟩
        have hnew := (nodup_keys_append_singleton.mp hfirst).2
        exact .inr ⟨name, start, hnext, .inr ⟨reader, hfind, hnew, v, behind, hread, hgo⟩⟩

def fill (reader : Reader) (v : Option Json) : Option (String × Json) :=
  (v.or reader.fallback).map (reader.name, ·)

def filled (found : Members) (reader : Reader) : Read (String × Json) :=
  match Ordered.get? found reader.name, reader.fallback with
  | some v, _ => return (reader.name, v)
  | none, some v => return (reader.name, v)
  | none, none => Read.fail (.missingField reader.name)

theorem filled_eq_ok (found : Members) (reader : Reader) {member : String × Json}
    : filled found reader before = .ok member after
        ↔ reader.fill (Ordered.get? found reader.name) = some member ∧ after = before := by
  unfold filled fill
  cases Ordered.get? found reader.name with
  | some v => simp [pure_eq_ok]
  | none =>
    cases reader.fallback with
    | some v => simp [pure_eq_ok]
    | none => exact ⟨nofun, nofun⟩

def ofMembers (readers : List Reader) (written : Members) : Option Members :=
  readers.mapM fun reader => reader.fill (Ordered.get? written reader.name)

theorem members_eq_ok (h : ∀ reader ∈ readers, reader.Takes left (Form reader.name))
    : members readers false before = .ok result after
        ↔ ∃ written, Written (readers.map Reader.name) left true before written after
          ∧ (Ordered.keys written).Nodup ∧ (∀ member ∈ written, Form member.1 member.2)
          ∧ ofMembers readers written = some result := by
  have hrounds : before.rest.length < ((0 : UInt8) :: before.rest).length := Nat.lt_succ_self _
  have hgo : ∀ found middle,
      members.go readers false (0 :: before.rest) true [] before = .ok found middle
        ↔ ∃ written, Written (readers.map Reader.name) left true before written middle
          ∧ (Ordered.keys written).Nodup ∧ (∀ member ∈ written, Form member.1 member.2)
          ∧ found = written :=
    fun _ _ => go_iff h hrounds List.nodup_nil
  have hfill : ∀ written middle, readers.mapM (filled written) middle = .ok result after
      ↔ ofMembers readers written = some result ∧ after = middle :=
    fun written _ => mapM_eq_ok fun reader _ _ _ => filled_eq_ok written reader
  have hmembers : members readers false before
      = (members.go readers false (0 :: before.rest) true [] >>= fun found =>
          readers.mapM (filled found)) before := rfl
  rw [hmembers, bind_eq_ok_iff]
  constructor
  . rintro ⟨found, middle, hfound, hrest⟩
    obtain ⟨written, hwritten, hnodup, hforms, rfl⟩ := (hgo found middle).mp hfound
    obtain ⟨hresult, rfl⟩ := (hfill found middle).mp hrest
    exact ⟨found, hwritten, hnodup, hforms, hresult⟩
  . rintro ⟨written, hwritten, hnodup, hforms, hresult⟩
    have hfound := (hgo written after).mpr ⟨written, hwritten, hnodup, hforms, rfl⟩
    exact ⟨written, after, hfound, (hfill written after).mpr ⟨hresult, rfl⟩⟩

def element (count : Nat) (name : String) (placed : Reader × Nat) : Read (String × Json) := do
  if ← Read.hasItem (placed.2 = 0) then return (placed.1.name, ← placed.1.read)
  else
    match placed.1.fallback with
    | some v => return (placed.1.name, v)
    | none => Read.fail (.invalidLength placed.2 s!"{name} with {Shape.elements count}")

theorem element_eq_ok (count : Nat) (name : String) {place : Nat} {reader : Reader}
    {member : String × Json}
    : element count name (reader, place) before = .ok member after
        ↔ (∃ start v, Read.hasItem (place = 0) before = .ok true start
            ∧ reader.read start = .ok v after ∧ (reader.name, v) = member)
          ∨ (Read.hasItem (place = 0) before = .ok false after
            ∧ reader.fill none = some member) := by
  have helement : element count name (reader, place) = (do
      if ← Read.hasItem (place = 0) then return (reader.name, ← reader.read)
      else
        match reader.fallback with
        | some v => return (reader.name, v)
        | none => Read.fail (.invalidLength place s!"{name} with {Shape.elements count}")) := rfl
  rw [helement, bind_eq_ok_iff]
  unfold fill
  constructor
  . rintro ⟨more, start, hitem, h⟩
    cases more with
    | true =>
      obtain ⟨v, _, hread, hpure⟩ := bind_eq_ok_iff.mp h
      cases hpure
      exact .inl ⟨start, v, hitem, hread, rfl⟩
    | false =>
      cases hfallback : reader.fallback with
      | some v =>
        rw [hfallback] at h
        cases h
        exact .inr ⟨hitem, rfl⟩
      | none =>
        rw [hfallback] at h
        cases h
  . rintro (⟨start, v, hitem, hread, rfl⟩ | ⟨hitem, hfill⟩)
    . exact ⟨true, start, hitem, bind_eq_ok_iff.mpr ⟨v, after, hread, rfl⟩⟩
    . refine ⟨false, after, hitem, ?_⟩
      cases hfallback : reader.fallback with
      | some v =>
        rw [hfallback] at hfill
        cases hfill
        rfl
      | none =>
        rw [hfallback] at hfill
        cases hfill

def ofElements : List Reader → List Json → Option Members
  | [], [] => some []
  | [], _ :: _ => none
  | reader :: rest, items => do
    let member ← reader.fill items.head?
    return member :: (← ofElements rest items.tail)

theorem mapM_element_eq_ok {name : String} {count : Nat} (place : Nat)
    (h : ∀ reader ∈ readers, reader.Takes left (Form reader.name))
    : (∃ middle, (readers.zipIdx place).mapM (element count name) before = .ok result middle
        ∧ Read.endList middle = .ok () after)
        ↔ ∃ items atEnd, Listed left (place = 0) before items atEnd
          ∧ Read.endList atEnd = .ok () after
          ∧ (∀ pair ∈ readers.zip items, Form pair.1.name pair.2)
          ∧ ofElements readers items = some result := by
  -- Each reader takes the next element; those that are left when the list ends have defaults.
  induction readers generalizing place before result with
  | nil =>
    constructor
    . rintro ⟨middle, hread, hclose⟩
      cases hread
      obtain ⟨atEnd, hpeek⟩ := Read.exists_of_endList hclose
      rw [Read.endList_of_peekPastSpace hpeek] at hclose
      exact ⟨[], atEnd, .nil (Read.hasItem_eq_false.mpr hpeek), hclose, nofun, rfl⟩
    . rintro ⟨items, atEnd, hlisted, hclose, _, hresult⟩
      cases hlisted with
      | cons => cases hresult
      | nil hend =>
        cases hresult
        have hpeek := Read.hasItem_eq_false.mp hend
        exact ⟨before, rfl, (Read.endList_of_peekPastSpace hpeek).trans hclose⟩
  | cons reader rest ih =>
    have htakes : ∀ reader ∈ rest, reader.Takes left (Form reader.name) :=
      fun reader hreader => h reader (List.mem_cons_of_mem _ hreader)
    rw [List.zipIdx_cons, List.mapM_cons]
    constructor
    . rintro ⟨middle, hread, hclose⟩
      obtain ⟨member, behind, hmember, hread⟩ := bind_eq_ok_iff.mp hread
      obtain ⟨members, last, hrest, hpure⟩ := bind_eq_ok_iff.mp hread
      cases hpure
      obtain ⟨items, atEnd, hlisted, hclose, hforms, hresult⟩ :=
        (ih (place + 1) htakes).mp ⟨middle, hrest, hclose⟩
      rcases (element_eq_ok count name).mp hmember with
        ⟨start, v, hitem, hreader, rfl⟩ | ⟨hitem, hfill⟩
      . obtain ⟨hvalue, hform⟩ := (h reader List.mem_cons_self start v behind).mp hreader
        refine ⟨v :: items, atEnd, .cons hitem hvalue hlisted, hclose, ?_, ?_⟩
        . exact List.forall_mem_cons.mpr ⟨hform, hforms⟩
        . simp [ofElements, fill, hresult]
      . -- Where the list has ended, no later reader finds an element either.
        cases hlisted with
        | cons hnext => cases (hasItem_idem _ hitem).symm.trans hnext
        | nil hend =>
          cases (hasItem_idem _ hitem).symm.trans hend
          exact ⟨[], behind, .nil hitem, hclose, nofun, by simp [ofElements, hfill, hresult]⟩
    . rintro ⟨items, atEnd, hlisted, hclose, hforms, hresult⟩
      simp only [ofElements, Option.bind_eq_bind, Option.bind_eq_some_iff, Option.pure_def,
        Option.some.injEq] at hresult
      obtain ⟨member, hfill, members, hresult, rfl⟩ := hresult
      cases hlisted with
      | nil hend =>
        have hlisted : Listed left (decide (place + 1 = 0)) atEnd [] atEnd :=
          .nil (hasItem_idem _ hend)
        obtain ⟨middle, hrest, hclose⟩ :=
          (ih (place + 1) htakes).mpr ⟨[], atEnd, hlisted, hclose, by simp, hresult⟩
        have hmember := (element_eq_ok count name).mpr (.inr ⟨hend, hfill⟩)
        exact ⟨middle, bind_eq_ok_iff.mpr ⟨member, atEnd, hmember,
          bind_eq_ok_iff.mpr ⟨members, middle, hrest, rfl⟩⟩, hclose⟩
      | @cons _ _ start behind _ v items hnext hvalue hlisted =>
        obtain ⟨hform, hforms⟩ := List.forall_mem_cons.mp hforms
        obtain ⟨middle, hrest, hclose⟩ :=
          (ih (place + 1) htakes).mpr ⟨items, atEnd, hlisted, hclose, hforms, hresult⟩
        have hreader := (h reader List.mem_cons_self start v behind).mpr ⟨hvalue, hform⟩
        have hmember := (element_eq_ok count name).mpr
          (.inl ⟨start, v, hnext, hreader, Option.some.inj hfill⟩)
        exact ⟨middle, bind_eq_ok_iff.mpr ⟨member, behind, hmember,
          bind_eq_ok_iff.mpr ⟨members, middle, hrest, rfl⟩⟩, hclose⟩

theorem elements_eq_ok (name : String)
    (h : ∀ reader ∈ readers, reader.Takes left (Form reader.name))
    : (∃ middle, elements readers name before = .ok result middle
        ∧ Read.endList middle = .ok () after)
        ↔ ∃ items atEnd, Listed left true before items atEnd ∧ Read.endList atEnd = .ok () after
          ∧ (∀ pair ∈ readers.zip items, Form pair.1.name pair.2)
          ∧ ofElements readers items = some result :=
  mapM_element_eq_ok 0 h

theorem record_eq_ok {readers : Nat → List Reader} {name : String} {v : Json}
    (h : ∀ left, ∀ reader ∈ readers left, reader.Takes left (Form reader.name))
    : record readers (left + 1) name false before = .ok v after
        ↔ ∃ result, v = .object result
          ∧ ((∃ written, ObjectWritten ((readers left).map Reader.name) left before written after
              ∧ (Ordered.keys written).Nodup ∧ (∀ member ∈ written, Form member.1 member.2)
              ∧ ofMembers (readers left) written = some result)
            ∨ ∃ items, ListWritten left before items after
              ∧ (∀ pair ∈ (readers left).zip items, Form pair.1.name pair.2)
              ∧ ofElements (readers left) items = some result) := by
  have hrecord : record readers (left + 1) name false = Read.placed (do
      let c ← start
      if c = '[' then
        Read.skip
        return .object (← Read.closedBy (elements (readers left) name) Read.endList)
      else if c = '\x7b' then
        Read.skip
        return .object (← Read.closedBy (members (readers left) false) Read.endObject)
      else
        unexpected c name) := rfl
  rw [hrecord, Read.placed_eq_ok, bind_eq_ok_iff]
  constructor
  . rintro ⟨c, atStart, hstart, hread⟩
    have hpeek := start_eq_ok.mp hstart
    by_cases hlist : c = '['
    . rw [if_pos hlist] at hread
      obtain ⟨_, _, hskip, hread⟩ := bind_eq_ok_iff.mp hread
      cases hskip
      obtain ⟨result, _, hread, hpure⟩ := bind_eq_ok_iff.mp hread
      cases hpure
      obtain ⟨items, atEnd, hlisted, hclose, hrest⟩ :=
        (elements_eq_ok name (h left)).mp (Read.closedBy_eq_ok.mp hread)
      exact ⟨result, rfl, .inr ⟨items, ⟨atStart, atEnd, hlist ▸ hpeek, hlisted, hclose⟩, hrest⟩⟩
    . rw [if_neg hlist] at hread
      by_cases hobject : c = '\x7b'
      . rw [if_pos hobject] at hread
        obtain ⟨_, _, hskip, hread⟩ := bind_eq_ok_iff.mp hread
        cases hskip
        obtain ⟨result, _, hread, hpure⟩ := bind_eq_ok_iff.mp hread
        cases hpure
        obtain ⟨atEnd, hmembers, hclose⟩ := Read.closedBy_eq_ok.mp hread
        obtain ⟨written, hwritten, hrest⟩ := (members_eq_ok (h left)).mp hmembers
        exact ⟨result, rfl,
          .inl ⟨written, ⟨atStart, atEnd, hobject ▸ hpeek, hwritten, hclose⟩, hrest⟩⟩
      . rw [if_neg hobject] at hread
        exact (unexpected_ne_ok c name _ _ _ hread).elim
  . rintro ⟨result, rfl, hobject | hlist⟩
    . obtain ⟨written, ⟨atStart, atEnd, hpeek, hwritten, hclose⟩, hrest⟩ := hobject
      have hmembers := (members_eq_ok (h left)).mpr ⟨written, hwritten, hrest⟩
      refine ⟨'\x7b', atStart, start_eq_ok.mpr hpeek, bind_eq_ok_iff.mpr ⟨(), _, rfl, ?_⟩⟩
      exact bind_eq_ok_iff.mpr ⟨result, after,
        Read.closedBy_eq_ok.mpr ⟨atEnd, hmembers, hclose⟩, rfl⟩
    . obtain ⟨items, ⟨atStart, atEnd, hpeek, hlisted, hclose⟩, hrest⟩ := hlist
      have helements := (elements_eq_ok name (h left)).mpr ⟨items, atEnd, hlisted, hclose, hrest⟩
      refine ⟨'[', atStart, start_eq_ok.mpr hpeek, bind_eq_ok_iff.mpr ⟨(), _, rfl, ?_⟩⟩
      exact bind_eq_ok_iff.mpr ⟨result, after, Read.closedBy_eq_ok.mpr helements, rfl⟩

end Reader

end Shape
end Json
end GraphGateway
