import GraphGateway.Ordered

/-!
This module contains caches from exact texts to values. The entries come in the order of their last
use, and those stored since the cache last settled follow in the order in which they were stored.
When a cache settles, the least recently used entries beyond its bound are dropped; it does so by
itself now and then.
-/

namespace GraphGateway

inductive Retention where
  | unbounded
  | lru (maxEntries : Nat)
deriving DecidableEq, Repr

structure PlanCache (α : Type) where
  retention : Retention
  entries : List (String × α)
  fresh : List (String × α)
  looks : Nat

namespace PlanCache

variable {α : Type}

def empty (retention : Retention) : PlanCache α :=
  ⟨retention, [], [], 0⟩

def length (cache : PlanCache α) : Nat :=
  cache.entries.length + cache.fresh.length

def get? (cache : PlanCache α) (text : String) : Option α :=
  (Ordered.get? cache.entries text).or (Ordered.get? cache.fresh text)

/-- Whether there is an entry; looking for it is no use of it. -/
def contains (cache : PlanCache α) (text : String) : Bool :=
  (cache.get? text).isSome

def without (text : String) (entries : List (String × α)) : List (String × α) :=
  entries.filter fun entry => entry.1 != text

def keep (retention : Retention) (entries : List (String × α)) : List (String × α) :=
  match retention with
  | .unbounded => entries
  | .lru maxEntries => entries.drop (entries.length - maxEntries)

def settle (cache : PlanCache α) : PlanCache α :=
  ⟨cache.retention, keep cache.retention (cache.entries ++ cache.fresh), [], 0⟩

/--
Stores a value, in place of the one that the text may have. A cache that may have no entries does
not keep any, not even until it settles.
-/
def store (cache : PlanCache α) (text : String) (value : α) : PlanCache α :=
  if cache.retention = .lru 0 then cache
  else
    { cache with
      entries := without text cache.entries
      fresh := without text cache.fresh ++ [(text, value)] }

/-- Makes an entry the most recently used; one that is fresh stays where it is. -/
def touch (cache : PlanCache α) (text : String) : PlanCache α :=
  match Ordered.get? cache.entries text with
  | some value => { cache with entries := without text cache.entries ++ [(text, value)] }
  | none => cache

/-- How often a cache is looked at before it settles by itself. -/
def patience : Nat :=
  64

/-- The value of a text, which is then the most recently used. -/
def lookup (cache : PlanCache α) (text : String) : Option α × PlanCache α :=
  let rested := if patience ≤ cache.looks then cache.settle else cache
  (cache.get? text, { rested.touch text with looks := rested.looks + 1 })

def clear (cache : PlanCache α) : PlanCache α :=
  empty cache.retention

def getOrInsert {ε : Type} (cache : PlanCache α) (text : String) (make : Except ε α)
    : Except ε α × PlanCache α :=
  match cache.lookup text with
  | (some value, cache) => (.ok value, cache)
  | (none, cache) =>
    match make with
    | .ok value => (.ok value, cache.store text value)
    | .error e => (.error e, cache)

theorem length_settle_le (cache : PlanCache α) (bound : Nat) (h : cache.retention = .lru bound)
    : cache.settle.length ≤ bound := by
  simp only [settle, keep, length, h, List.length_drop, List.length_nil]
  omega

theorem settle_settle (cache : PlanCache α) : cache.settle.settle = cache.settle := by
  obtain ⟨retention, entries, fresh, looks⟩ := cache
  cases retention with
  | unbounded => simp [settle, keep]
  | lru bound =>
    have : (entries ++ fresh).length - ((entries ++ fresh).length - bound) - bound = 0 := by omega
    simp only [settle, keep, List.append_nil, List.length_drop, this, List.drop_zero]

theorem touch_of_get?_eq_none (cache : PlanCache α) (text : String) (h : cache.get? text = none)
    : cache.touch text = cache := by
  have : Ordered.get? cache.entries text = none := by
    simp only [get?, Option.or_eq_none_iff] at h
    exact h.1
  simp [touch, this]

end PlanCache

end GraphGateway
