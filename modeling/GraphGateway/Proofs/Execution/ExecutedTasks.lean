import GraphGateway.Proofs.Execution.ExecutedFields

/-!
This module contains which tasks are done in the course of a run without panics: those of all its
fields, unless a mutation ends before them. What they note is noted in the run, and a field that
fails has its failure among the errors, or another one with the same null.
-/

namespace GraphGateway

open SelectionItem (admittedAll depthAll headsAll)

structure Journal.Within (first second : Journal) : Prop where
  failures : first.failures ⊆ second.failures
  entries : first.entries ⊆ second.entries

namespace Journal.Within

variable {first second third : Journal}

theorem refl (journal : Journal) : journal.Within journal :=
  ⟨List.Subset.refl _, List.Subset.refl _⟩

theorem trans (h : first.Within second) (h' : second.Within third) : first.Within third :=
  ⟨List.Subset.trans h.failures h'.failures, List.Subset.trans h.entries h'.entries⟩

theorem left (first second : Journal) : first.Within (first ++ second) :=
  ⟨List.subset_append_left _ _, List.subset_append_left _ _⟩

theorem right (first second : Journal) : second.Within (first ++ second) :=
  ⟨List.subset_append_right _ _, List.subset_append_right _ _⟩

end Journal.Within

namespace Task

/-- A task is done in the course of another one. In a series nothing is done after a failure. -/
inductive DoneIn (done : Task) : Task → Prop where
  | itself : DoneIn done done
  | invoke {site : Site} {call : Call} {reply : Reply} {next : Task} (h : DoneIn done next)
    : DoneIn done (.invoke site call reply next)
  | join {container : Container} {tasks : List Task} {task : Task} (hmem : task ∈ tasks)
    (h : DoneIn done task)
    : DoneIn done (.join container tasks)
  | series {container : Container} {values : List Json} {before after : List Task} {task : Task}
    (hbefore : ∀ other ∈ before, ∃ v, other.value = .ok v) (h : DoneIn done task)
    : DoneIn done (.series container values (before ++ task :: after))
  | position {site : Site} {nonNull : Bool} {task : Task} (h : DoneIn done task)
    : DoneIn done (.position site nonNull task)

theorem within_journalAll {task : Task} {tasks : List Task} (h : task ∈ tasks)
    : task.journal.Within (journalAll tasks) := by
  induction tasks with
  | nil => cases h
  | cons first rest ih =>
    rw [journalAll]
    obtain rfl | h := List.mem_cons.mp h
    . exact .left _ _
    . exact (ih h).trans (.right _ _)

theorem within_journalSeries {before after : List Task} {task : Task}
    (h : ∀ other ∈ before, ∃ v, other.value = .ok v)
    : task.journal.Within (journalSeries (before ++ task :: after)) := by
  induction before with
  | nil =>
    rw [List.nil_append, journalSeries]
    split
    . exact .left _ _
    . exact .refl _
  | cons first rest ih =>
    obtain ⟨⟨v, hv⟩, hrest⟩ := List.forall_mem_cons.mp h
    rw [List.cons_append, journalSeries, hv]
    exact (ih hrest).trans (.right _ _)

theorem assembled_of_error {container : Container} {tasks : List Task} {task : Task}
    (hmem : task ∈ tasks) {failure : Failure} (h : task.value = .error failure)
    : ∃ first, assembled container tasks = .error first := by
  cases hvalue : assembled container tasks with
  | error first => exact ⟨first, rfl⟩
  | ok w =>
    obtain ⟨vs, _, hvs⟩ := assembled_eq_ok hvalue
    have hmap : task.value ∈ vs.map .ok := hvs ▸ List.mem_map_of_mem hmem
    obtain ⟨v, _, hv⟩ := List.mem_map.mp hmap
    cases hv.trans h

namespace DoneIn

variable {done middle task : Task}

theorem trans (h : done.DoneIn middle) (h' : middle.DoneIn task) : done.DoneIn task := by
  induction h' with
  | itself => exact h
  | invoke _ ih => exact .invoke ih
  | join hmem _ ih => exact .join hmem ih
  | series hbefore _ ih => exact .series hbefore ih
  | position _ ih => exact .position ih

theorem within (h : done.DoneIn task) : done.journal.Within task.journal := by
  induction h with
  | itself => exact .refl _
  | invoke _ ih => exact ih.trans (.right _ _)
  | join hmem _ ih => exact ih.trans (within_journalAll hmem)
  | series hbefore _ ih => exact ih.trans (within_journalSeries hbefore)
  | position _ ih => exact ih.trans (.left _ _)

end DoneIn

section Complete

variable {setting : Setting} {object : ObjectTasks} {children : List SelectionItem}

theorem complete_bare (type : OutputType) (site : Site) (v : Json)
    : complete object children type site v = complete object children type.bare site v := by
  induction type with
  | nonNull inner ih => exact ih
  | _ => rfl

variable {group : FieldGroup} {type : String} {parent : Json} {site : Site}

theorem complete_doneIn_resolve (hsound : Compile.TypenameSound group.first.head) {v : Json}
    (hsupply : group.first.head.supply setting type parent = .ok v) (hnull : v.isNull = false)
    : (complete object group.children group.first.head.output site v).DoneIn
          (resolve setting object type parent group site)
        ∧ (resolve setting object type parent group site).value
          = (complete object group.children group.first.head.output site v).value := by
  have hresolves := resolves setting object type parent group site
  rw [hsupply] at hresolves
  generalize resolve setting object type parent group site = task at hresolves ⊢
  cases hresolves with
  | typename hresolution =>
    rw [hsound.output hresolution]
    exact ⟨.itself, rfl⟩
  | property => exact ⟨.itself, rfl⟩
  | value => exact ⟨.invoke .itself, rfl⟩
  | panic => cases hnull

end Complete

structure Stands (whole : Task) (places : Places) (setting : Setting) (path : Path) (place : Place)
    (site : Site) (task : Task)
    : Prop where
  standsAt : site.path = path
  done : (position site place.type.isNonNull task).DoneIn whole
  sound : ∀ head ∈ headsAll place.children, Compile.TypenameSound head
  settles : Settles places path place task.value task.journal
  completes : ∀ v, place.supplied = .ok v → v.isNull = false →
    ∃ levels, depthAll place.children ≤ levels
      ∧ (complete (ofObject setting levels) place.children place.type site v).DoneIn task
      ∧ task.value = (complete (ofObject setting levels) place.children place.type site v).value

section Stands

variable {whole : Task} {places : Places} {setting : Setting} {path : Path} {place : Place}
  {site : Site} {task : Task}

theorem stands_of_group {levels : Nat} {type key : String} {parent : Json} {group : FieldGroup}
    (hdone : (ofGroup setting (ofObject setting levels) type parent path key group).DoneIn whole)
    (hdepth : depthAll group.children ≤ levels)
    (hsound : ∀ head ∈ headsAll group.children, Compile.TypenameSound head)
    (hfirst : Compile.TypenameSound group.first.head)
    (hat : places.At setting (path ++ [.key key]) (.ofGroup setting type parent group))
    : Stands whole places setting (path ++ [.key key]) (.ofGroup setting type parent group)
        ⟨group.first.head.coordinate, group.positions, path ++ [.key key]⟩
        (resolve setting (ofObject setting levels) type parent group
          ⟨group.first.head.coordinate, group.positions, path ++ [.key key]⟩) where
  standsAt := rfl
  done := hdone
  sound := hsound
  settles := settles_resolve ⟨group.first.head.coordinate, group.positions, path ++ [.key key]⟩
    (settles_ofObject hdepth hsound) hfirst hat
  completes _ hsupplied hnull :=
    ⟨levels, hdepth, complete_doneIn_resolve hfirst hsupplied hnull⟩

theorem Stands.element (h : Stands whole places setting path place site task)
    {inner : OutputType} (htype : place.type.bare = .list inner) {items : List Json}
    (hsupplied : place.supplied = .ok (.array items)) {i : Nat} {item : Json}
    (hitem : items[i]? = some item)
    (hat : places.At setting (path ++ [.index i]) ⟨inner, place.children, .ok item⟩)
    : ∃ next, Stands whole places setting (path ++ [.index i]) ⟨inner, place.children, .ok item⟩
          (site.element i) next
        ∧ ∀ failure, (position (site.element i) inner.isNonNull next).value = .error failure →
          ∃ first, task.value = .error first := by
  obtain ⟨levels, hdepth, hdone, hvalue⟩ := h.completes _ hsupplied rfl
  rw [complete_bare, htype] at hdone hvalue
  unfold complete at hdone hvalue
  dsimp only at hdone hvalue
  rw [← map_snd_elements] at hdone hvalue
  have hpath : (site.element i).path = path ++ [.index i] := by
    rw [Site.element, h.standsAt]
  have hmem : position (site.element i) inner.isNonNull
      (complete (ofObject setting levels) place.children inner (site.element i) item)
        ∈ (elements (ofObject setting levels) place.children inner site items).map Prod.snd :=
    List.mem_map.mpr ⟨_, mem_elements_iff.mpr ⟨i, item, hitem, rfl, rfl⟩, rfl⟩
  refine ⟨complete (ofObject setting levels) place.children inner (site.element i) item,
    ⟨hpath, ?_, h.sound, ?_, ?_⟩, ?_⟩
  . exact ((DoneIn.join hmem .itself).trans hdone).trans ((DoneIn.position .itself).trans h.done)
  . rw [← hpath] at hat ⊢
    exact settles_complete (settles_ofObject hdepth h.sound) inner _ item _ rfl rfl rfl hat
  . rintro _ ⟨⟩ _
    exact ⟨levels, hdepth, .itself, rfl⟩
  . intro failure hfailure
    rw [hvalue, value_join]
    exact assembled_of_error hmem hfailure

theorem Stands.field (h : Stands whole places setting path place site task)
    {type : String} (htype : place.type.bare = .object type) {parent : Json}
    (hsupplied : place.supplied = .ok parent) (hnull : parent.isNull = false) {key : String}
    {group : FieldGroup}
    (hgroup : FieldGroup.ofKey? key (admittedAll setting.bindings place.children) = some group)
    : ∃ levels, depthAll group.children ≤ levels
        ∧ (ofGroup setting (ofObject setting levels) type parent path key group).DoneIn whole
        ∧ ∀ failure, (ofGroup setting (ofObject setting levels) type parent path key group).value
            = .error failure →
          ∃ first, task.value = .error first := by
  obtain ⟨levels, hdepth, hdone, hvalue⟩ := h.completes _ hsupplied hnull
  rw [complete_bare, htype] at hdone hvalue
  unfold complete at hdone hvalue
  rw [hnull, if_neg Bool.false_ne_true, h.standsAt] at hdone hvalue
  have hlt := FieldGroup.depthAll_children_lt hgroup
  have hentry :=
    (mem_ofSelection_iff setting hdepth type parent path key _).mpr ⟨group, hgroup, rfl⟩
  have hmem : _ ∈ (ofSelection setting levels type place.children parent path).map Prod.snd :=
    List.mem_map_of_mem hentry
  refine ⟨levels - 1, by omega, ?_, ?_⟩
  . exact ((DoneIn.join hmem .itself).trans hdone).trans ((DoneIn.position .itself).trans h.done)
  . intro failure hfailure
    rw [hvalue]
    exact assembled_of_error hmem hfailure

/-- A position whose task fails is one that must not be null, or has the null that stands for it. -/
theorem Stands.home (h : Stands whole places setting path place site task) {failure : Failure}
    (hfailure : task.value = .error failure) (hat : places.At setting path place)
    (htype : place.type.isNonNull = false)
    : places.Home path failure.site.path ∧ failure ∈ whole.journal.failures := by
  have hsettles := h.settles
  rw [hfailure] at hsettles
  refine ⟨hsettles.home hat.eq_some htype, h.done.within.failures ?_⟩
  rw [journal, htype, hfailure, kept]
  simp

end Stands

end Task

theorem exists_split_of_mem {α : Type} {entries : Ordered α} (hnodup : entries.keys.Nodup)
    {key : String} {a : α} (h : (key, a) ∈ entries)
    : ∃ after, entries = entries.takeWhile (·.1 ≠ key) ++ (key, a) :: after := by
  induction entries with
  | nil => cases h
  | cons entry rest ih =>
    obtain ⟨other, b⟩ := entry
    rw [Ordered.keys, List.map_cons, List.nodup_cons] at hnodup
    obtain heq | h := List.mem_cons.mp h
    . cases heq
      exact ⟨rest, by simp⟩
    . have hne : other ≠ key := by
        rintro rfl
        exact hnodup.1 (List.mem_map.mpr ⟨_, h, rfl⟩)
      obtain ⟨after, hrest⟩ := ih hnodup.2 h
      refine ⟨after, ?_⟩
      rw [List.takeWhile_cons_of_pos (by simpa using hne), List.cons_append, ← hrest]

namespace Plan

variable {plan : Plan} {setting : Setting} {root : Json}

/-- A run comes to a field, unless it is a mutation and a root field before it has failed. -/
def Reaches (plan : Plan) (setting : Setting) (root : Json) : Path → Prop
  | .key key :: _ => plan.isSerial = true →
    ∀ entry ∈ (Task.ofSelection setting plan.depth plan.rootType plan.selection root []).takeWhile
      (·.1 ≠ key), ∃ v, entry.2.value = .ok v
  | _ => True

theorem doneIn_ofPlan {key : String} {group : FieldGroup}
    (hgroup : FieldGroup.ofKey? key (admittedAll setting.bindings plan.selection) = some group)
    (hreaches : plan.Reaches setting root [.key key])
    : (Task.ofGroup setting (Task.ofObject setting (plan.depth - 1)) plan.rootType root [] key
          group).DoneIn (Task.ofPlan plan setting root)
        ∧ ∀ failure,
            (Task.ofGroup setting (Task.ofObject setting (plan.depth - 1)) plan.rootType root []
              key group).value = .error failure →
          ∃ first, (Task.ofPlan plan setting root).value = .error first := by
  have hentry :=
    (Task.mem_ofSelection_iff setting (Nat.le_refl plan.depth) plan.rootType root [] key _).mpr
      ⟨group, hgroup, rfl⟩
  have hmem : _ ∈ (Task.ofSelection setting plan.depth plan.rootType plan.selection root []).map
      Prod.snd := List.mem_map_of_mem hentry
  constructor
  . unfold Task.ofPlan
    dsimp only
    split
    . next hserial =>
      obtain ⟨after, hsplit⟩ :=
        exists_split_of_mem (Task.nodup_keys_ofSelection (Nat.le_refl plan.depth)) hentry
      rw [hsplit, List.map_append, List.map_cons]
      refine .series ?_ .itself
      intro task htask
      obtain ⟨entry, hbefore, rfl⟩ := List.mem_map.mp htask
      exact hreaches hserial entry hbefore
    . exact .join hmem .itself
  . intro failure hfailure
    rw [Task.value_ofPlan]
    exact Task.assembled_of_error hmem hfailure

theorem places_concat {path : Path} (hne : path ≠ []) (segment : PathSegment)
    : plan.places setting root (path ++ [segment])
        = (plan.places setting root path).bind (·.step? setting segment) := by
  cases path with
  | nil => exact absurd rfl hne
  | cons first rest =>
    cases first with
    | index i => rfl
    | key key =>
      rw [List.cons_append, places, places]
      cases Place.ofField? setting plan.rootType plan.selection root key with
      | none => rfl
      | some place =>
        rw [Option.bind_some, Option.bind_some, Place.walk?_append]
        congr 1
        funext next
        rw [Place.walk?]
        cases next.step? setting segment <;> rfl

end Plan

namespace Places

variable {places : Places} {path : Path}

theorem Nullable.home (h : places.Nullable path) : places.Home path path where
  above := List.prefix_refl path
  nullable := h
  nearest := by
    intro q hq hpath hne
    exact absurd (hpath.eq_of_length_le hq.length_le) hne

theorem Home.concat {home : Path} (h : places.Home home path) {segment : PathSegment}
    (hnonNull : places.NonNull (path ++ [segment]))
    : places.Home home (path ++ [segment]) where
  above := h.above.trans (List.prefix_append _ _)
  nullable := h.nullable
  nearest := by
    intro q hq hpath hne
    obtain rfl | hpath := List.prefix_concat_iff.mp hpath
    . exact hnonNull
    . exact h.nearest q hq hpath hne

end Places

theorem Task.isNonNull_of_error {site : Site} {nonNull : Bool} {task : Task} {failure : Failure}
    (h : (position site nonNull task).value = .error failure)
    : nonNull = true := by
  rw [value] at h
  cases nonNull with
  | true => rfl
  | false => cases hvalue : task.value <;> rw [hvalue] at h <;> cases h

namespace Plan

variable {plan : Plan} {setting : Setting} {root : Json}

def Reports (plan : Plan) (setting : Setting) (root : Json) (path : Path) : Prop :=
  ∃ home, (plan.places setting root).Home home path
    ∧ ∃ failure ∈ (Task.ofPlan plan setting root).journal.failures
        ++ (Task.ofPlan plan setting root).value.failures,
      (plan.places setting root).Home home failure.site.path

def Works (plan : Plan) (setting : Setting) (root : Json) (path : Path) (place : Place)
    (site : Site) (task : Task)
    : Prop :=
  Task.Stands (Task.ofPlan plan setting root) (plan.places setting root) setting path place
      site task
    ∧ ∀ failure, (Task.position site place.type.isNonNull task).value = .error failure →
      plan.Reports setting root path

variable {path : Path} {place next : Place} {site : Site} {task : Task} {segment : PathSegment}

theorem Works.reports_concat (h : plan.Works setting root path place site task)
    (hat : (plan.places setting root).At setting path place)
    (hnext : plan.places setting root (path ++ [segment]) = some next)
    (hnonNull : next.type.isNonNull = true) {failure : Failure}
    (hfailure : task.value = .error failure)
    : plan.Reports setting root (path ++ [segment]) := by
  obtain ⟨hstands, hreports⟩ := h
  have hbelow : (plan.places setting root).NonNull (path ++ [segment]) := ⟨next, hnext, hnonNull⟩
  cases htype : place.type.isNonNull with
  | true =>
    have hvalue : (Task.position site place.type.isNonNull task).value = .error failure := by
      rw [Task.value, hfailure, htype]
      rfl
    obtain ⟨home, hhome, reported⟩ := hreports failure hvalue
    exact ⟨home, hhome.concat hbelow, reported⟩
  | false =>
    obtain ⟨hhome, hmem⟩ := hstands.home hfailure hat htype
    have hself : (plan.places setting root).Nullable path := ⟨place, hat.eq_some, htype⟩
    exact ⟨path, (Places.Nullable.home hself).concat hbelow, failure, List.mem_append_left _ hmem,
      hhome⟩

section Sound

variable (hsound : ∀ head ∈ plan.heads, Compile.TypenameSound head)

include hsound

theorem reports_root (hnext : plan.places setting root [segment] = some next)
    (hnonNull : next.type.isNonNull = true) {failure : Failure}
    (hfailure : (Task.ofPlan plan setting root).value = .error failure)
    : plan.Reports setting root [segment] := by
  have hroot : (plan.places setting root).Nullable [] := ⟨_, rfl, rfl⟩
  have hbelow : (plan.places setting root).NonNull ([] ++ [segment]) := ⟨next, hnext, hnonNull⟩
  have hsettles : Settles (plan.places setting root) [] (plan.rootPlace root) _ _ :=
    settles_ofPlan hsound
  rw [hfailure] at hsettles
  refine ⟨[], (Places.Nullable.home hroot).concat hbelow, failure, ?_, hsettles.home rfl rfl⟩
  rw [hfailure]
  exact List.mem_append_right _ (List.mem_singleton_self failure)

theorem works_root (hnext : plan.places setting root [segment] = some next)
    (hreaches : plan.Reaches setting root [segment])
    : ∃ site task, plan.Works setting root [segment] next site task := by
  have hat := at_of_places (List.cons_ne_nil _ _) hnext
  cases segment with
  | index i => cases hnext
  | key key =>
    obtain ⟨_, hfield, hwalk⟩ := Option.bind_eq_some_iff.mp hnext
    cases hwalk
    obtain ⟨group, hgroup, rfl⟩ := Option.map_eq_some_iff.mp hfield
    obtain ⟨hdone, hfails⟩ := doneIn_ofPlan hgroup hreaches
    have hlt : depthAll group.children < plan.depth := FieldGroup.depthAll_children_lt hgroup
    have hstands := Task.stands_of_group hdone (by omega)
      (FieldGroup.forall_headsAll_children hgroup hsound)
      (hsound _ (FieldGroup.first_mem_headsAll hgroup)) hat
    refine ⟨_, _, hstands, fun failure hfailure => ?_⟩
    obtain ⟨first, hfirst⟩ := hfails failure hfailure
    exact reports_root hsound hnext (Task.isNonNull_of_error hfailure) hfirst

end Sound

/-- A step: what is next below a position that is worked on is worked on. -/
theorem Works.concat (h : plan.Works setting root path place site task)
    (hat : (plan.places setting root).At setting path place)
    (hstep : place.step? setting segment = some next)
    : ∃ site task, plan.Works setting root (path ++ [segment]) next site task := by
  have hnext := (hat.step hstep).eq_some
  unfold Place.step? at hstep
  split at hstep
  . next inner items i htype hsupplied =>
    obtain ⟨item, hitem, rfl⟩ := Option.map_eq_some_iff.mp hstep
    obtain ⟨element, hstands, hfails⟩ :=
      h.1.element htype hsupplied hitem (at_of_places (by simp) hnext)
    refine ⟨_, _, hstands, fun failure hfailure => ?_⟩
    obtain ⟨first, hfirst⟩ := hfails failure hfailure
    exact h.reports_concat hat hnext (Task.isNonNull_of_error hfailure) hfirst
  . next name v key htype hsupplied =>
    split at hstep
    . cases hstep
    . next hnull =>
      obtain ⟨group, hgroup, rfl⟩ := Option.map_eq_some_iff.mp hstep
      obtain ⟨levels, hdepth, hdone, hfails⟩ :=
        h.1.field htype hsupplied (Bool.eq_false_iff.mpr hnull) hgroup
      have hstands := Task.stands_of_group hdone hdepth
        (FieldGroup.forall_headsAll_children hgroup h.1.sound)
        (h.1.sound _ (FieldGroup.first_mem_headsAll hgroup)) (at_of_places (by simp) hnext)
      refine ⟨_, _, hstands, fun failure hfailure => ?_⟩
      obtain ⟨first, hfirst⟩ := hfails failure hfailure
      exact h.reports_concat hat hnext (Task.isNonNull_of_error hfailure) hfirst
  . cases hstep

/-- A run: every position that it comes to is worked on. -/
theorem works_of_places (hsound : ∀ head ∈ plan.heads, Compile.TypenameSound head) (hne : path ≠ [])
    (hplace : plan.places setting root path = some place)
    (hreaches : plan.Reaches setting root path)
    : ∃ site task, plan.Works setting root path place site task := by
  induction path using List.reverseRecOn generalizing place with
  | nil => exact absurd rfl hne
  | append_singleton above segment ih =>
    cases above with
    | nil => exact works_root hsound hplace hreaches
    | cons first rest =>
      have habove : first :: rest ≠ [] := List.cons_ne_nil _ _
      rw [places_concat habove] at hplace
      obtain ⟨outer, houter, hstep⟩ := Option.bind_eq_some_iff.mp hplace
      obtain ⟨site, task, hworks⟩ := ih habove houter (by cases first <;> exact hreaches)
      exact hworks.concat (at_of_places habove houter) hstep

theorem FieldAt.doneIn {type : String} {parent : Json} {group : FieldGroup}
    (h : plan.FieldAt setting root path type parent group)
    (hsound : ∀ head ∈ plan.heads, Compile.TypenameSound head)
    (hreaches : plan.Reaches setting root path)
    : ∃ levels above key, path = above ++ [.key key]
        ∧ (Task.ofGroup setting (Task.ofObject setting levels) type parent above key group).DoneIn
          (Task.ofPlan plan setting root) := by
  obtain ⟨above, key, place, rfl, hplace, hobject, hgroup⟩ := h
  cases above with
  | nil =>
    cases hplace
    cases hobject.type
    cases hobject.supplied
    exact ⟨_, [], key, rfl, (doneIn_ofPlan hgroup hreaches).1⟩
  | cons first rest =>
    have habove : first :: rest ≠ [] := List.cons_ne_nil _ _
    obtain ⟨site, task, hworks⟩ :=
      works_of_places hsound habove hplace (by cases first <;> exact hreaches)
    obtain ⟨levels, _, hdone, _⟩ :=
      hworks.1.field hobject.type hobject.supplied (hobject.notNull habove) hgroup
    exact ⟨levels, _, key, rfl, hdone⟩

end Plan
end GraphGateway
