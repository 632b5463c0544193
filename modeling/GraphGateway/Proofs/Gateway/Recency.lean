import GraphGateway.Proofs.Gateway.Conservation
import GraphGateway.Proofs.Gateway.FailedPreparation
import GraphGateway.Proofs.Gateway.SingleCompilation
import Mathlib.Data.Finset.Card

/-!
This module contains what a cache with a bound holds in a session: the texts of the last uses, as
many as it may have. A use of a text is that its plan is stored or found.
-/

namespace GraphGateway

section Recent

variable {text : String} {texts : List String}

/-- Every text once, those of the last uses first, if the last use comes first. -/
def recent (texts : List String) : List String :=
  match texts with
  | [] => []
  | text :: rest => text :: (recent rest).filter (· != text)

theorem mem_recent : text ∈ recent texts ↔ text ∈ texts := by
  induction texts with
  | nil => exact Iff.rfl
  | cons head rest ih =>
    rw [recent, List.mem_cons, List.mem_cons, List.mem_filter, ih, bne_iff_ne]
    by_cases h : text = head <;> simp [h]

theorem nodup_recent (texts : List String) : (recent texts).Nodup := by
  induction texts with
  | nil => exact .nil
  | cons head rest ih =>
    refine List.nodup_cons.mpr ⟨?_, ih.filter _⟩
    simp

theorem length_recent (texts : List String) : (recent texts).length = texts.toFinset.card := by
  rw [← List.toFinset_card_of_nodup (nodup_recent texts)]
  congr 1
  ext text
  rw [List.mem_toFinset, List.mem_toFinset, mem_recent]

theorem takeWhile_filter_bne {head : String} (h : head ≠ text) (texts : List String)
    : (texts.filter (· != head)).takeWhile (· != text)
        = (texts.takeWhile (· != text)).filter (· != head) := by
  induction texts with
  | nil => rfl
  | cons next rest ih =>
    by_cases hnext : next = head
    . subst hnext
      simp [h, ih]
    . by_cases htext : next = text
      . subst htext
        simp [hnext]
      . simp [hnext, htext, ih]

theorem takeWhile_recent (text : String) (texts : List String)
    : (recent texts).takeWhile (· != text) = recent (texts.takeWhile (· != text)) := by
  induction texts with
  | nil => rfl
  | cons head rest ih =>
    by_cases h : head = text
    . subst h
      simp [recent]
    . rw [recent, List.takeWhile_cons_of_pos (by simpa using h),
        List.takeWhile_cons_of_pos (by simpa using h), takeWhile_filter_bne h, ih, recent]

theorem mem_take_iff {bound : Nat}
    : text ∈ texts.take bound ↔ text ∈ texts ∧ (texts.takeWhile (· != text)).length < bound := by
  induction texts generalizing bound with
  | nil => simp
  | cons head rest ih =>
    cases bound with
    | zero => simp
    | succ bound =>
      by_cases h : head = text
      . subst h
        simp
      . rw [List.take_succ_cons, List.mem_cons, List.mem_cons, ih,
          List.takeWhile_cons_of_pos (by simpa using h), List.length_cons, Nat.add_lt_add_iff_right]
        simp [Ne.symm h]

theorem take_filter_take (hnodup : texts.Nodup) (text : String) (bound : Nat)
    : ((texts.take (bound + 1)).filter (· != text)).take bound
        = (texts.filter (· != text)).take bound := by
  induction texts generalizing bound with
  | nil => rfl
  | cons head rest ih =>
    obtain ⟨hhead, hnodup⟩ := List.nodup_cons.mp hnodup
    rw [List.take_succ_cons]
    by_cases h : head = text
    . subst h
      have hrest : rest.filter (· != head) = rest := by
        apply List.filter_eq_self.mpr
        intro next hnext
        simpa using ne_of_mem_of_not_mem hnext hhead
      have htake : (rest.take bound).filter (· != head) = rest.take bound := by
        apply List.filter_eq_self.mpr
        intro next hnext
        simpa using ne_of_mem_of_not_mem (List.mem_of_mem_take hnext) hhead
      simp [hrest, htake]
    . cases bound with
      | zero => rfl
      | succ bound =>
        rw [List.filter_cons_of_pos (by simpa using h), List.filter_cons_of_pos (by simpa using h),
          List.take_succ_cons, List.take_succ_cons, ih hnodup]

theorem mem_take_recent {bound : Nat}
    : text ∈ (recent texts).take bound
        ↔ text ∈ texts ∧ (texts.takeWhile (· != text)).toFinset.card < bound := by
  rw [mem_take_iff, mem_recent, takeWhile_recent, length_recent]

end Recent

inductive Use where
  | stored (text : String)
  | hit (text : String)
deriving DecidableEq

namespace Use

def text : Use → String
  | stored text | hit text => text

/-- The texts that were used after the last use of a text, if the last use of all comes first. -/
def after (text : String) (uses : List Use) : List String :=
  (uses.map Use.text).takeWhile (· != text)

/-- A text was stored, and fewer than so many others were used after its own last use. -/
def Recent (bound : Nat) (uses : List Use) (text : String) : Prop :=
  .stored text ∈ uses ∧ (after text uses).toFinset.card < bound

instance (bound : Nat) (uses : List Use) (text : String) : Decidable (Recent bound uses text) :=
  inferInstanceAs (Decidable (_ ∧ _))

end Use

namespace PlanCache

variable {α : Type} {cache : PlanCache α} {text : String}

def used (cache : PlanCache α) (text : String) (value : α) : PlanCache α :=
  { cache with entries := keep cache.retention (without text cache.entries ++ [(text, value)]) }

theorem fresh_of_settled (h : cache.settle = cache) : cache.fresh = [] := by
  rw [← h]
  rfl

theorem looks_of_settled (h : cache.settle = cache) : cache.looks = 0 := by
  rw [← h]
  rfl

theorem used_eq_settle (hsettled : cache.settle = cache) (text : String) (value : α)
    : cache.used text value
        = { cache with entries := without text cache.entries ++ [(text, value)] }.settle := by
  simp [used, settle, fresh_of_settled hsettled, looks_of_settled hsettled]

theorem settle_lookup {value : α} (hsettled : cache.settle = cache)
    (h : cache.get? text = some value)
    : (cache.lookup text).2.settle = cache.used text value := by
  have hfresh := fresh_of_settled hsettled
  have hlooks := looks_of_settled hsettled
  have hvalue : Ordered.get? cache.entries text = some value := by
    rw [get?, hfresh] at h
    simpa [Ordered.get?] using h
  unfold lookup touch
  simp [hlooks, patience, hvalue, settle, hfresh, used]

theorem settle_store (hsettled : cache.settle = cache) (hretention : cache.retention ≠ .lru 0)
    (looks : Nat) (text : String) (value : α)
    : ({ cache with looks }.store text value).settle = cache.used text value := by
  have hfresh := fresh_of_settled hsettled
  have hlooks := looks_of_settled hsettled
  unfold store
  rw [if_neg hretention]
  simp [settle, used, hfresh, hlooks, without]

end PlanCache

/-- How a settled cache goes from one step to the next, by the use that the step makes of a text. -/
inductive PlanCache.Follows {α : Type} (cache : PlanCache α) : Option Use → PlanCache α → Prop where
  | idle : Follows cache none cache
  | stored (text : String) (value : α) : Follows cache (some (.stored text)) (cache.used text value)
  | hit (text : String) (value : α) (h : cache.contains text = true)
    : Follows cache (some (.hit text)) (cache.used text value)

namespace Gateway.Course

def use? (text : String) : Course → Option Use
  | hit _ => some (.hit text)
  | compiled _ => some (.stored text)
  | _ => none

theorem get?_of_compiled {gateway : Gateway} {text : String} {cache : PlanCache PreparedPlan}
    {plan : Plan} (h : gateway.course text cache = .compiled plan)
    : cache.get? text = none := by
  unfold course at h
  split at h
  . cases h
  . assumption

theorem follows_keep {gateway : Gateway} {text : String} {cache : PlanCache PreparedPlan}
    (hsettled : cache.settle = cache) (hretention : cache.retention ≠ .lru 0) (number : Nat)
    : cache.Follows ((gateway.course text cache).use? text)
        ((gateway.course text cache).keep gateway text number cache).settle := by
  cases hcourse : gateway.course text cache with
  | hit prepared =>
    have hget := get?_of_hit hcourse
    have hkeep : ((hit prepared).keep gateway text number cache).settle
        = cache.used text prepared :=
      PlanCache.settle_lookup hsettled hget
    rw [hkeep]
    exact .hit text prepared (Option.isSome_of_eq_some hget)
  | compiled plan =>
    obtain ⟨looks, hlook⟩ := exists_look_eq_withLooks hsettled (get?_of_compiled hcourse) gateway
      (.compiled plan)
    have hkeep : ((compiled plan).keep gateway text number cache).settle
        = cache.used text ⟨plan, number⟩ := by
      unfold keep
      rw [hlook]
      exact PlanCache.settle_store hsettled hretention looks text _
    rw [hkeep]
    exact .stored text _
  | parserPanic p | syntaxError e | compilerPanic p | compileErrors errors =>
    have hkeep := settle_keep_of_error (congrArg outcome hcourse) hsettled number
    rw [hcourse] at hkeep
    rw [hkeep]
    exact .idle

end Gateway.Course

namespace Session

open Gateway (State Course)

/--
The use that a step makes of a text. A text whose plan is asked for is looked up,
and only then compiled.
-/
def use? (session : Session) (entry : Bool × SessionStep × State) : Option Use :=
  match entry with
  | (_, .lookup text, state) => if state.cache.contains text then some (.hit text) else none
  | (second, step, state) =>
    step.asked?.bind fun text => ((session.gateway second).course text state.cache).use? text

def usesAfter (session : Session) (uses : List Use) (entry : Bool × SessionStep × State)
    : List Use :=
  match entry.2.1 with
  | .clear => []
  | _ => (session.use? entry).toList ++ uses

def uses (session : Session) (steps : List (Bool × SessionStep)) (state : State) : List Use :=
  (session.trail steps state).foldl session.usesAfter []

theorem follows_step (session : Session) (second : Bool) {step : SessionStep} {state : State}
    (hclear : step ≠ .clear) (hsettled : state.cache.settle = state.cache)
    (hretention : state.cache.retention ≠ .lru 0)
    : state.cache.Follows (session.use? (second, step, state))
        (session.step second step state).2.cache := by
  have hasks {text : String} (hasked : step.asked? = some text)
      : state.cache.Follows (((session.gateway second).course text state.cache).use? text)
          (session.step second step state).2.cache := by
    have halike := alike_perform_of_asked session second hasked state
    have hcache : (session.step second step state).2.cache
        = (session.perform second step state).2.cache.settle := rfl
    rw [hcache, halike.cache]
    exact Course.follows_keep hsettled hretention _
  cases step with
  | execute request | prepare text => exact hasks rfl
  | lookup text =>
    have hcache : (session.step second (.lookup text) state).2.cache
        = (state.cache.lookup text).2.settle := rfl
    rw [hcache, use?]
    split
    . next hcontains =>
      obtain ⟨prepared, hget⟩ := Option.isSome_iff_exists.mp hcontains
      rw [PlanCache.settle_lookup hsettled hget]
      exact .hit text prepared hcontains
    . next hmissed =>
      have hnone : state.cache.get? text = none := by
        simpa [PlanCache.contains] using hmissed
      obtain ⟨looks, hlooked⟩ :=
        PlanCache.exists_lookup_eq_withLooks hsettled hnone state.cache.looks
      have hlooked : (state.cache.lookup text).2 = { state.cache with looks } := hlooked
      rw [hlooked, PlanCache.settle_withLooks, hsettled]
      exact .idle
  | contains text =>
    have hcache : (session.step second (.contains text) state).2.cache = state.cache := hsettled
    rw [hcache]
    exact .idle
  | clear => exact absurd rfl hclear

/--
A settled cache holds the texts of the last uses. Whatever was used since the last clear
was stored since then.
-/
structure Recalls (bound : Nat) (uses : List Use) (cache : PlanCache PreparedPlan) : Prop where
  retention : cache.retention = .lru bound
  settled : cache.settle = cache
  keys : (Ordered.keys cache.entries).reverse = (recent (uses.map Use.text)).take bound
  stored : ∀ text ∈ uses.map Use.text, .stored text ∈ uses

theorem recalls_empty (bound : Nat) : Recalls bound [] (.empty (.lru bound)) where
  retention := rfl
  settled := PlanCache.settle_empty _
  keys := by simp [recent, PlanCache.empty, Ordered.keys]
  stored := by simp

namespace Recalls

variable {bound : Nat} {uses : List Use} {cache : PlanCache PreparedPlan}

theorem contains_iff (h : Recalls bound uses cache) (text : String)
    : cache.contains text = true ↔ Use.Recent bound uses text := by
  have hkeys : cache.contains text = true ↔ text ∈ (recent (uses.map Use.text)).take bound := by
    rw [← h.keys, List.mem_reverse, ← Ordered.contains_iff_mem_keys, PlanCache.contains,
      PlanCache.get?, PlanCache.fresh_of_settled h.settled]
    simp [Ordered.get?, Ordered.contains]
  rw [hkeys, mem_take_recent]
  apply and_congr_left'
  constructor
  . exact h.stored text
  . intro hstored
    exact List.mem_map_of_mem hstored

theorem length_le (h : Recalls bound uses cache) : cache.length ≤ bound := by
  rw [← h.settled]
  exact cache.length_settle_le bound h.retention

theorem keys_used (h : cache.retention = .lru (bound + 1)) (text : String) (value : PreparedPlan)
    : (Ordered.keys (cache.used text value).entries).reverse
        = text :: ((Ordered.keys cache.entries).reverse.filter (· != text)).take bound := by
  have hwithout : Ordered.keys (PlanCache.without text cache.entries)
      = (Ordered.keys cache.entries).filter (· != text) := by
    simp [Ordered.keys, PlanCache.without, List.filter_map, Function.comp_def]
  have hkeys : Ordered.keys (PlanCache.without text cache.entries ++ [(text, value)])
      = (Ordered.keys cache.entries).filter (· != text) ++ [text] := by
    rw [← hwithout]
    simp [Ordered.keys]
  have hkeep (entries : List (String × PreparedPlan))
      : (Ordered.keys (PlanCache.keep (.lru (bound + 1)) entries)).reverse
          = (Ordered.keys entries).reverse.take (bound + 1) := by
    rw [List.take_reverse, PlanCache.keep, Ordered.keys, Ordered.keys, List.map_drop,
      List.length_map]
  rw [PlanCache.used, h, hkeep, hkeys, List.reverse_append, List.reverse_singleton,
    List.singleton_append, List.take_succ_cons, List.filter_reverse]

theorem used (h : Recalls (bound + 1) uses cache) {use : Use} (value : PreparedPlan)
    (hstored : .stored use.text ∈ use :: uses)
    : Recalls (bound + 1) (use :: uses) (cache.used use.text value) where
  retention := h.retention
  settled := by
    rw [PlanCache.used_eq_settle h.settled, PlanCache.settle_settle]
  keys := by
    rw [keys_used h.retention, h.keys, List.map_cons, recent, List.take_succ_cons,
      take_filter_take (nodup_recent _)]
  stored := by
    rw [List.map_cons, List.forall_mem_cons]
    exact ⟨hstored, fun text htext => List.mem_cons_of_mem _ (h.stored text htext)⟩

theorem follows (h : Recalls (bound + 1) uses cache) {use? : Option Use}
    {after : PlanCache PreparedPlan} (hfollows : cache.Follows use? after)
    : Recalls (bound + 1) (use?.toList ++ uses) after := by
  cases hfollows with
  | idle => exact h
  | stored text value => exact h.used value List.mem_cons_self
  | hit text value hcontains =>
    have hrecent := (h.contains_iff text).mp hcontains
    exact h.used value (List.mem_cons_of_mem _ hrecent.1)

theorem step {session : Session} {state : State} (h : Recalls (bound + 1) uses state.cache)
    (second : Bool) (step : SessionStep)
    : Recalls (bound + 1) (session.usesAfter uses (second, step, state))
        (session.step second step state).2.cache := by
  have hretention : state.cache.retention ≠ .lru 0 := by
    rw [h.retention]
    simp
  cases step with
  | clear =>
    have hcache : (session.step second .clear state).2.cache
        = (PlanCache.empty state.cache.retention).settle :=
      rfl
    rw [hcache, h.retention, PlanCache.settle_empty]
    exact recalls_empty _
  | execute request => exact h.follows (session.follows_step second nofun h.settled hretention)
  | prepare text => exact h.follows (session.follows_step second nofun h.settled hretention)
  | lookup text => exact h.follows (session.follows_step second nofun h.settled hretention)
  | contains text => exact h.follows (session.follows_step second nofun h.settled hretention)

theorem run {session : Session} {uses : List Use} {state : State}
    (h : Recalls (bound + 1) uses state.cache) (steps : List (Bool × SessionStep))
    : Recalls (bound + 1) ((session.trail steps state).foldl session.usesAfter uses)
        (session.run steps state).2.cache := by
  induction steps generalizing uses state with
  | nil => exact h
  | cons head rest ih =>
    obtain ⟨second, step⟩ := head
    rw [run_cons]
    exact ih (h.step second step)

end Recalls

/--
A cache with a bound holds the texts that were stored since the last clear and are among the last
that were used. A text that compiles is compiled when it is not one of them.
-/
theorem cache_holds_recent (session : Session) {bound : Nat} (hbound : 1 ≤ bound)
    (steps : List (Bool × SessionStep))
    : let before := (session.run steps (.initial (.lru bound))).2
      let uses := session.uses steps (.initial (.lru bound))
      before.cache.length ≤ bound
        ∧ (∀ text, before.cache.contains text = true ↔ Use.Recent bound uses text)
        ∧ ∀ second step text plan, step.asked? = some text →
          (session.gateway second).planOf text = .ok plan →
            let after := (session.step second step before).2
            let calls := if Use.Recent bound uses text then 0 else 1
            after.parserCalls = before.parserCalls + calls
              ∧ after.compilerCalls = before.compilerCalls + calls := by
  intro before uses
  obtain ⟨bound, rfl⟩ := Nat.exists_eq_add_of_le' hbound
  have hrecalls : Recalls (bound + 1) uses before.cache := by
    have hinitial : Recalls (bound + 1) [] (State.initial (.lru (bound + 1))).cache :=
      recalls_empty _
    exact hinitial.run steps
  refine ⟨hrecalls.length_le, hrecalls.contains_iff, ?_⟩
  intro second step text plan hasked hplan after calls
  have hcalls := alike_perform_of_asked session second hasked before
  have hrecent := hrecalls.contains_iff text
  -- Whether the text is read and compiled depends on the cache, and not on how its plan runs.
  suffices hcourse : ((session.gateway second).course text before.cache).reads.toNat = calls
      ∧ ((session.gateway second).course text before.cache).compiles.toNat = calls by
    exact ⟨hcourse.1 ▸ hcalls.parserCalls, hcourse.2 ▸ hcalls.compilerCalls⟩
  unfold Gateway.course
  cases hget : before.cache.get? text with
  | some prepared =>
    rw [PlanCache.contains, hget] at hrecent
    have hcalls : calls = 0 := if_pos (hrecent.mp rfl)
    rw [hcalls]
    exact ⟨rfl, rfl⟩
  | none =>
    rw [PlanCache.contains, hget] at hrecent
    have hcalls : calls = 1 := if_neg fun h => Bool.false_ne_true (hrecent.mpr h)
    rw [hcalls]
    dsimp only
    rw [Course.eq_compiled_of_planOf hplan]
    exact ⟨rfl, rfl⟩

theorem cache_holds_recent_ofLibrary
    : let steps := [(false, SessionStep.prepare namesRequest.text), (true, .contains "")]
      let before := (ofLibrary.run steps (.initial (.lru 1))).2
      1 ≤ 1 ∧ before.cache.length ≤ 1 ∧ before.cache.contains namesRequest.text = true
        ∧ (ofLibrary.step true (.execute namesRequest) before).2.compilerCalls
          = before.compilerCalls := by
  intro steps before
  obtain ⟨hlength, hcontains, hcalls⟩ := cache_holds_recent ofLibrary (Nat.le_refl 1) steps
  have huses : ofLibrary.uses steps (.initial (.lru 1)) = [.stored namesRequest.text] := by
    have hcourse : ofLibrary.first.course namesRequest.text (.empty (.lru 1))
        = .compiled (Library.namesPlan Library.authors .sync) :=
      Course.eq_compiled_of_planOf planOf_namesRequest
    simp [steps, uses, trail, usesAfter, use?, SessionStep.asked?, gateway, State.initial, hcourse,
      Course.use?]
  have hrecent : Use.Recent 1 [.stored namesRequest.text] namesRequest.text := by decide
  have hplan : ofLibrary.second.planOf namesRequest.text
      = .ok (Library.namesPlan Library.authors .sync) := planOf_namesRequest
  rw [huses] at hcontains hcalls
  have hcalls := (hcalls true (.execute namesRequest) namesRequest.text _ rfl hplan).2
  rw [if_pos hrecent] at hcalls
  exact ⟨Nat.le_refl 1, hlength, (hcontains _).mpr hrecent, hcalls⟩

end Session

end GraphGateway
