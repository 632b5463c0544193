import GraphGateway.Proofs.Http.Queries

/-!
This module contains what is answered to requests that no endpoint is there for. They all leave the
gateway as it is, but not all are told that nothing has been found: the two endpoints that can be
read refuse other methods.
-/

namespace GraphGateway
namespace Http

def Request.IsServed (request : Request) : Prop :=
  (request.method = "POST" ∧ (request.path = "/" ∨ request.path = "/graphql"))
    ∨ (request.method = "GET" ∧ (request.path = "/health" ∨ request.path = "/metrics"))

namespace Endpoint

variable {path : String}

theorem ofPath?_eq_query_iff : ofPath? path = some .query ↔ path = "/" ∨ path = "/graphql" := by
  unfold ofPath?
  split <;> simp_all

theorem ofPath?_eq_health_iff : ofPath? path = some .health ↔ path = "/health" := by
  unfold ofPath?
  split <;> simp_all

theorem ofPath?_eq_metrics_iff : ofPath? path = some .metrics ↔ path = "/metrics" := by
  unfold ofPath?
  split <;> simp_all

end Endpoint

namespace Router

def unserved (path : String) : Response :=
  match Endpoint.ofPath? path with
  | none => notFound
  | some endpoint => (refusal endpoint).allowing endpoint

theorem unserved_of_read {path : String} (h : path = "/health" ∨ path = "/metrics")
    : (unserved path).status = 405 ∧ (unserved path).body = "" := by
  rcases h with rfl | rfl <;> exact ⟨rfl, rfl⟩

theorem unserved_of_not_read {path : String} (h : ¬ (path = "/health" ∨ path = "/metrics"))
    : (unserved path).status = 404 ∧ (unserved path).body = "404" := by
  unfold unserved
  cases hendpoint : Endpoint.ofPath? path with
  | none => exact ⟨rfl, rfl⟩
  | some endpoint =>
    cases endpoint with
    | query => exact ⟨rfl, rfl⟩
    | health => exact absurd (.inl (Endpoint.ofPath?_eq_health_iff.mp hendpoint)) h
    | metrics => exact absurd (.inr (Endpoint.ofPath?_eq_metrics_iff.mp hendpoint)) h

section Unserved

variable (router : Router) {request : Request} (state : Gateway.State)
  (hoptions : request.method ≠ "OPTIONS") (hhead : request.method ≠ "HEAD")
  (hserved : ¬ request.IsServed)

include hhead hserved in
theorem not_mem_methods {endpoint : Endpoint} (h : Endpoint.ofPath? request.path = some endpoint)
    : request.method ∉ endpoint.methods := by
  intro hmethod
  apply hserved
  cases endpoint with
  | query =>
    have hpost : request.method = "POST" := by
      simpa [Endpoint.methods] using hmethod
    exact .inl ⟨hpost, Endpoint.ofPath?_eq_query_iff.mp h⟩
  | health =>
    have hget : request.method = "GET" := by
      simpa [Endpoint.methods, hhead] using hmethod
    exact .inr ⟨hget, .inl (Endpoint.ofPath?_eq_health_iff.mp h)⟩
  | metrics =>
    have hget : request.method = "GET" := by
      simpa [Endpoint.methods, hhead] using hmethod
    exact .inr ⟨hget, .inr (Endpoint.ofPath?_eq_metrics_iff.mp h)⟩

include hoptions hhead hserved

theorem route_unserved : router.route request = pure (unserved request.path) := by
  unfold route unserved
  cases hendpoint : Endpoint.ofPath? request.path with
  | none => simp [hoptions]
  | some endpoint => simp [hoptions, not_mem_methods hhead hserved hendpoint]

theorem respond_unserved
    : router.respond request state
        = (router.origins.share request (unserved request.path), state) := by
  have hanswers : answersHead request = false := by
    simp [answersHead, hhead]
  unfold respond
  rw [route_unserved router hoptions hhead hserved, hanswers]
  rfl

/--
A request that is not served leaves the gateway as it is, with all counters and the cache. It is
told that nothing has been found, unless what it does not read is the health or the metrics: there,
other methods are refused without a word.
-/
theorem respond_of_not_isServed
    : let (response, after) := router.respond request state
      after = state
        ∧ (request.path = "/health" ∨ request.path = "/metrics" →
          response.status = 405 ∧ response.body = "")
        ∧ (¬ (request.path = "/health" ∨ request.path = "/metrics") →
          response.status = 404 ∧ response.body = "404") := by
  rw [respond_unserved router state hoptions hhead hserved]
  dsimp only
  rw [Origins.status_share, Origins.body_share]
  exact ⟨rfl, unserved_of_read, unserved_of_not_read⟩

end Unserved

def readQueries : Request :=
  ⟨"GET", "/graphql", [], []⟩

theorem path_readQueries : readQueries.path = "/graphql" := by
  cbv

theorem not_isServed_readQueries : ¬ readQueries.IsServed := by
  unfold Request.IsServed
  rw [path_readQueries]
  decide

theorem respond_readQueries
    : let (response, after) := overLibrary.respond readQueries (.initial .unbounded)
      after = .initial .unbounded ∧ response.status = 404 ∧ response.body = "404" := by
  have hresponded := respond_of_not_isServed overLibrary (.initial .unbounded) (by decide)
    (by decide) not_isServed_readQueries
  rw [path_readQueries] at hresponded
  exact ⟨hresponded.1, hresponded.2.2 (by decide)⟩

def postedHealth : Request :=
  ⟨"POST", "/health", [], []⟩

theorem path_postedHealth : postedHealth.path = "/health" := by
  cbv

theorem not_isServed_postedHealth : ¬ postedHealth.IsServed := by
  unfold Request.IsServed
  rw [path_postedHealth]
  decide

theorem status_postedHealth
    : (overLibrary.respond postedHealth (.initial .unbounded)).1.status = 405 := by
  rw [respond_unserved _ _ (by decide) (by decide) not_isServed_postedHealth, path_postedHealth]
  exact Origins.status_share _ _ _

theorem not_respond_notFound
    : ¬ ∀ (router : Router) (request : Request) (state : Gateway.State),
        request.method ≠ "OPTIONS" → request.method ≠ "HEAD" → ¬ request.IsServed →
        let (response, after) := router.respond request state
        response.status = 404 ∧ response.body = "404" ∧ after = state := by
  intro h
  have hfound := h overLibrary postedHealth (.initial .unbounded) (by decide) (by decide)
    not_isServed_postedHealth
  cases status_postedHealth.symm.trans hfound.1

end Router

end Http
end GraphGateway
