import AskMetrics.Proofs.Http.Headers
import AskMetrics.Proofs.Service.Counting
import AskMetrics.Scripted.Scenario
import AskMetrics.Service.Server

/-!
# What the layers leave on a response

A request passes through the layers from the outside in, and each layer can answer without the ones
inside it. The rate limit does so for a client that comes too early, inside the layers that count
and that set the security headers. Sharing across origins does so for the requests that ask
beforehand what is allowed, outside of them: so these are neither counted nor given the headers.
-/
namespace AskMetrics.Service

open Http Prometheus

/-! ## The security headers -/

/-- Sets a header where it is not set. -/
def withMissing (r : Response) (h : String × String) : Response :=
  if (r.headers.get? h.1).isSome then r else r.withHeader h.1 h.2

theorem secured_eq (r : Response) : secured r = securityHeaders.foldl withMissing r := rfl

/-- A header of another name stays as it is. -/
theorem get?_withMissing_of_ne {r : Response} {h : String × String} {name : String}
    (hne : Headers.sameName h.1 name = false) :
    (withMissing r h).headers.get? name = r.headers.get? name := by
  rw [withMissing]
  split_ifs
  · rfl
  · simp [Response.get?_withHeader, hne]

/-- A header that is not set is set. -/
theorem get?_withMissing_self {r : Response} {h : String × String}
    (hnone : r.headers.get? h.1 = none) :
    (withMissing r h).headers.get? h.1 = some h.2 := by
  simp [withMissing, hnone, Response.get?_withHeader, Headers.sameName_refl]

theorem get?_foldl_withMissing_of_ne {headers : Headers} {r : Response} {name : String}
    (h : ∀ p ∈ headers, Headers.sameName p.1 name = false) :
    (headers.foldl withMissing r).headers.get? name = r.headers.get? name := by
  induction headers generalizing r with
  | nil => rfl
  | cons p headers ih =>
    rw [List.foldl_cons, ih fun q hq => h q (.tail _ hq), get?_withMissing_of_ne (h p (.head _))]

/-- Headers of different names that are not set are all set, each to its own value. -/
theorem get?_foldl_withMissing {headers : Headers} {r : Response}
    (hnames : headers.Pairwise fun p q => Headers.sameName p.1 q.1 = false)
    (hnone : ∀ p ∈ headers, r.headers.get? p.1 = none) :
    ∀ p ∈ headers, (headers.foldl withMissing r).headers.get? p.1 = some p.2 := by
  induction headers generalizing r with
  | nil => simp
  | cons q headers ih =>
    obtain ⟨hq, hrest⟩ := List.pairwise_cons.mp hnames
    intro p hp
    rw [List.foldl_cons]
    rcases List.mem_cons.mp hp with rfl | hp
    · rw [get?_foldl_withMissing_of_ne fun x hx => ?_, get?_withMissing_self (hnone p (.head _))]
      rw [Headers.sameName_comm]
      exact hq x hx
    · refine ih hrest (fun x hx => ?_) p hp
      rw [get?_withMissing_of_ne (hq x hx)]
      exact hnone x (.tail _ hx)

/-- No two of the security headers have the same name. -/
theorem pairwise_securityHeaders :
    securityHeaders.Pairwise fun p q => Headers.sameName p.1 q.1 = false := by
  decide

/-- The names of the headers that routes and the rate limit set. -/
def routeHeaders : List String := ["content-type", "retry-after", "x-ratelimit-limit"]

theorem not_sameName_routeHeaders : ∀ p ∈ securityHeaders, ∀ name ∈ routeHeaders,
    Headers.sameName name p.1 = false := by
  decide

/-- **A secured response has the security headers**, with their values, if nothing but the headers
of routes was set before. -/
theorem get?_secured {r : Response} (h : r.Within routeHeaders) :
    ∀ p ∈ securityHeaders, (secured r).headers.get? p.1 = some p.2 := by
  rw [secured_eq]
  exact get?_foldl_withMissing pairwise_securityHeaders fun p hp =>
    h.get?_eq_none (not_sameName_routeHeaders p hp)

/-! ## The counter of requests -/

/-- The family in which answered requests are counted. -/
def requestFamily : String := "sextant_http_requests_total"

/-- Counters that have grown, but not by requests. -/
def Counters.GrowsWithin (before after : Counters) : Prop :=
  ∃ added, after = before ++ added ∧ ∀ c ∈ added, c.family ≠ requestFamily

namespace Counters
variable {before after : Counters}

theorem GrowsWithin.refl (counters : Counters) : counters.GrowsWithin counters :=
  ⟨[], by simp, by simp⟩

/-- The total of requests stays as it is. -/
theorem GrowsWithin.total_eq (h : before.GrowsWithin after) :
    after.total requestFamily = before.total requestFamily := by
  obtain ⟨added, rfl, hadded⟩ := h
  have hzero : added.total requestFamily = 0 := by
    rw [total, List.countP_eq_zero]
    simpa using hadded
  rw [total_append, hzero, Nat.add_zero]

/-- So does the counter of each kind of request. -/
theorem GrowsWithin.value_eq (h : before.GrowsWithin after) (method path : String) (status : Nat) :
    after.value (.request method path status) = before.value (.request method path status) := by
  obtain ⟨added, rfl, hadded⟩ := h
  have hzero : added.value (.request method path status) = 0 := by
    rw [value, List.count_eq_zero]
    exact fun hmem => hadded _ hmem rfl
  rw [value_append, hzero, Nat.add_zero]

end Counters

/-- A question counts no request. -/
theorem Pipeline.growsWithin_ask {σ : Type} (p : Pipeline σ) (question : Question)
    (cache : CatalogCache) (s : σ) (before : Counters) :
    before.GrowsWithin (before ++ (p.ask question cache s).1.counted) := by
  refine ⟨_, rfl, fun c hc => ?_⟩
  simp only [counted_ask, List.mem_append, List.mem_map, List.mem_singleton] at hc
  rcases hc with (⟨a, -, rfl⟩ | ⟨answer, -, rfl⟩) | rfl <;>
    simp [countAttempt, countListing, Counter.family, requestFamily]

/-! ## Routes -/

theorem within_jsonResponse (status : Nat) (body : Json) :
    (jsonResponse status body).Within routeHeaders := by
  simp [jsonResponse, Response.Within, routeHeaders]

theorem within_emptyResponse (status : Nat) : (emptyResponse status).Within routeHeaders := by
  simp [emptyResponse, Response.Within]

theorem within_tooEarly (retryAfter : Nat) : (tooEarly retryAfter).Within routeHeaders :=
  (within_jsonResponse _ _).withHeader (by decide) _

namespace Server
variable {σ : Type} (server : Server σ)

/-- A response with the headers of a route, after which no request has been counted yet. -/
structure Inner (state : ServerState σ) (out : Response × ServerState σ) : Prop where
  within : out.1.Within routeHeaders
  grows : state.counters.GrowsWithin out.2.counters

section
variable (route : Route) (request : Request) (state : ServerState σ)

theorem within_metricsResponse {α : Type} (toJson : α → Json) (answer : Except MetricsFailure α) :
    (metricsResponse toJson answer).Within routeHeaders := by
  cases answer <;> exact within_jsonResponse _ _

theorem inner_serveQuestion : Inner state (server.serveQuestion request state) := by
  unfold serveQuestion
  cases readQuestion request with
  | error rejection => exact ⟨within_jsonResponse _ _, .refl _⟩
  | ok question =>
    have hgrows :=
      server.pipeline.growsWithin_ask question state.cache state.world state.counters
    obtain ⟨asked, cache, world, hask⟩ : ∃ asked cache world,
        server.pipeline.ask question state.cache state.world = (asked, cache, world) :=
      ⟨_, _, _, rfl⟩
    rw [hask] at hgrows
    simp only [hask]
    refine ⟨?_, hgrows⟩
    cases asked.result <;> exact within_jsonResponse _ _

theorem inner_serveRange : Inner state (server.serveRange request state) := by
  unfold serveRange
  cases readRange request with
  | error rejection => exact ⟨within_jsonResponse _ _, .refl _⟩
  | ok query => exact ⟨within_metricsResponse _ _, .refl _⟩

theorem inner_serveInstant : Inner state (server.serveInstant request state) := by
  unfold serveInstant
  cases readInstant request with
  | error rejection => exact ⟨within_jsonResponse _ _, .refl _⟩
  | ok query => exact ⟨within_metricsResponse _ _, .refl _⟩

theorem inner_serveRoute : Inner state (server.serveRoute route request state) := by
  cases route with
  | index => exact ⟨within_jsonResponse _ _, .refl _⟩
  | metrics =>
    refine ⟨?_, .refl _⟩
    simp [serveRoute, serveCounters, Response.Within, routeHeaders]
  | models => exact ⟨within_jsonResponse _ _, .refl _⟩
  | ask => exact server.inner_serveQuestion request state
  | queryRange => exact server.inner_serveRange request state
  | queryInstant => exact server.inner_serveInstant request state
  | health => exact ⟨within_jsonResponse _ _, .refl _⟩

theorem inner_serveMethod : Inner state (server.serveMethod route request state) := by
  unfold serveMethod
  split_ifs
  · exact server.inner_serveRoute route request state
  · exact ⟨within_emptyResponse _, .refl _⟩

/-- The rate limit answers in place of a route, or adds a header to what the route answers. -/
theorem inner_limited (limit : RateLimit) (verdict : Verdict)
    {serve : ServerState σ → Response × ServerState σ} (h : Inner state (serve state)) :
    Inner state (limited limit verdict serve state) := by
  cases verdict with
  | free => exact h
  | rejected retryAfter => exact ⟨within_tooEarly retryAfter, .refl _⟩
  | admitted => exact ⟨h.within.withHeader (by decide) _, h.grows⟩

theorem inner_serveLimited : Inner state (server.serveLimited route request state) := by
  obtain ⟨now, world, hclock⟩ : ∃ now world, server.clock.uptime state.world = (now, world) :=
    ⟨_, _, rfl⟩
  obtain ⟨verdict, limiter, hcheck⟩ : ∃ verdict limiter,
      state.limiter.check server.rateLimit (clientOf request) now = (verdict, limiter) :=
    ⟨_, _, rfl⟩
  unfold serveLimited
  split_ifs
  · simp only [hclock, hcheck]
    have hinner := inner_limited { state with world, limiter } server.rateLimit verdict
      (server.inner_serveMethod route request { state with world, limiter })
    exact ⟨hinner.within, hinner.grows⟩
  · exact server.inner_serveMethod route request state

/-- What the layers of counting and of the security headers find. -/
theorem inner_servePath : Inner state (server.servePath request state) := by
  unfold servePath
  cases Route.ofPath? request.path with
  | none => exact ⟨within_jsonResponse _ _, .refl _⟩
  | some route => exact server.inner_serveLimited route request state

end

/-! ## Sharing across origins -/

/-- The names of the headers that sharing across origins sets, and of the one that a route adds
last. -/
def outerHeaders : List String :=
  ["access-control-allow-origin", "access-control-allow-credentials",
    "access-control-allow-methods", "access-control-allow-headers", "access-control-max-age",
    "access-control-expose-headers", "allow"]

theorem not_sameName_outerHeaders : ∀ p ∈ securityHeaders, ∀ name ∈ outerHeaders,
    Headers.sameName name p.1 = false := by
  decide

theorem mem_outerHeaders_of_origin {c : Config} {origin : Option String} {p : String × String}
    (hp : p ∈ originHeaders c origin) : p.1 ∈ outerHeaders := by
  have hname : p.1 = "access-control-allow-origin" ∨ p.1 = "access-control-allow-credentials" := by
    simp only [originHeaders] at hp
    grind
  rcases hname with h | h <;> simp [outerHeaders, h]

theorem mem_outerHeaders_of_shared : ∀ p ∈ sharedHeaders, p.1 ∈ outerHeaders := by
  decide

theorem mem_outerHeaders_of_preflight {c : Config} {p : String × String}
    (hp : p ∈ preflightHeaders c) : p.1 ∈ outerHeaders := by
  simp only [preflightHeaders, List.mem_cons, List.not_mem_nil, or_false] at hp
  rcases hp with rfl | rfl | rfl <;> simp [outerHeaders]

/-- What is set around the layers leaves the security headers alone. -/
theorem get?_withHeaders_outer {r : Response} {headers : Headers} {p : String × String}
    (hp : p ∈ securityHeaders) (h : ∀ q ∈ headers, q.1 ∈ outerHeaders) :
    (r.withHeaders headers).headers.get? p.1 = r.headers.get? p.1 :=
  Response.get?_withHeaders_of_not_mem fun q hq => not_sameName_outerHeaders p hp q.1 (h q hq)

theorem status_withHeaders (r : Response) (headers : Headers) :
    (r.withHeaders headers).status = r.status := by
  induction headers generalizing r with
  | nil => rfl
  | cons p headers ih => exact ih (r.withHeader p.1 p.2)

/-- So does what a route adds last. -/
theorem get?_finish (request : Request) (r : Response) {p : String × String}
    (hp : p ∈ securityHeaders) : (finish request r).headers.get? p.1 = r.headers.get? p.1 := by
  have hallow := not_sameName_outerHeaders p hp "allow" (by decide)
  unfold finish
  cases Route.ofPath? request.path with
  | none => rfl
  | some route =>
    simp only
    split_ifs
    · simp [Response.get?_withHeader, hallow]
    · rfl
    · rfl

theorem status_finish (request : Request) (r : Response) :
    (finish request r).status = r.status := by
  unfold finish
  cases Route.ofPath? request.path with
  | none => rfl
  | some route =>
    simp only
    split_ifs <;> rfl

/-! ## All layers together -/

/-- What the layers leave on a response and in the counters. -/
structure Layered (request : Request) (state : ServerState σ) : Prop where
  /-- All five security headers are on the response, and the request is counted once. -/
  passed : request.method ≠ "OPTIONS" →
    (∀ p ∈ securityHeaders, (server.handle request state).1.headers.get? p.1 = some p.2) ∧
      (server.handle request state).2.counters.total requestFamily =
        state.counters.total requestFamily + 1 ∧
      let label := Counter.request request.method (pathLabel request.path)
        (server.handle request state).1.status
      (server.handle request state).2.counters.value label = state.counters.value label + 1
  /-- A request that asks beforehand gets none of them, and nothing is changed by it. -/
  preflight : request.method = "OPTIONS" →
    (∀ p ∈ securityHeaders, (server.handle request state).1.headers.get? p.1 = none) ∧
      (server.handle request state).2 = state

section
variable (request : Request) (state : ServerState σ)

/-- A request that asks beforehand is answered by the outermost layer. -/
theorem handle_of_preflight (h : request.method = "OPTIONS") :
    server.handle request state =
      (finish request ((emptyResponse 200).withHeaders
        (originHeaders server.config (request.headers.plain? "origin") ++
          preflightHeaders server.config)), state) := by
  simp [handle, h]

/-- Any other request passes through the layers that count and that set the security headers. -/
theorem handle_of_passed (h : request.method ≠ "OPTIONS") :
    server.handle request state =
      let inner := server.servePath request state
      let response := secured inner.1
      (finish request (response.withHeaders
        (originHeaders server.config (request.headers.plain? "origin") ++ sharedHeaders)),
        { inner.2 with counters := inner.2.counters ++ countRequest request response }) := by
  simp [handle, serveCounted, h]

/-- An answered request is counted once, -/
theorem total_countRequest (response : Response) :
    Counters.total (countRequest request response) requestFamily = 1 := by
  simp [countRequest, Counters.total, Counter.family, requestFamily]

/-- under its method, its path and the status of its response. -/
theorem value_countRequest (response : Response) :
    Counters.value (countRequest request response)
      (.request request.method (pathLabel request.path) response.status) = 1 := by
  simp [countRequest, Counters.value]

/-- The step: one request. -/
theorem layered : server.Layered request state where
  passed h := by
    obtain ⟨hwithin, hgrows⟩ := server.inner_servePath request state
    have houter : ∀ q ∈ originHeaders server.config (request.headers.plain? "origin") ++
        sharedHeaders, q.1 ∈ outerHeaders := fun q hq =>
      (List.mem_append.mp hq).elim mem_outerHeaders_of_origin (mem_outerHeaders_of_shared q)
    rw [server.handle_of_passed request state h]
    refine ⟨fun p hp => ?_, ?_, ?_⟩
    · rw [get?_finish _ _ hp, get?_withHeaders_outer hp houter, get?_secured hwithin p hp]
    · rw [Counters.total_append, hgrows.total_eq, total_countRequest]
    · simp only [status_finish, status_withHeaders, Counters.value_append, hgrows.value_eq,
        value_countRequest]
  preflight h := by
    rw [server.handle_of_preflight request state h]
    refine ⟨fun p hp => ?_, rfl⟩
    have houter : ∀ q ∈ originHeaders server.config (request.headers.plain? "origin") ++
        preflightHeaders server.config, q.1 ∈ outerHeaders := fun q hq =>
      (List.mem_append.mp hq).elim mem_outerHeaders_of_origin mem_outerHeaders_of_preflight
    rw [get?_finish _ _ hp, get?_withHeaders_outer hp houter]
    rfl

/-- What is kept after some requests. -/
def after (requests : List Request) : ServerState σ :=
  requests.foldl (fun state request => (server.handle request state).2) state

/-- The run: as many requests are counted as do not ask beforehand. -/
theorem total_after (requests : List Request) :
    (server.after state requests).counters.total requestFamily =
      state.counters.total requestFamily + requests.countP (·.method ≠ "OPTIONS") := by
  induction requests generalizing state with
  | nil => rfl
  | cons request requests ih =>
    rw [after, List.foldl_cons, ← after, ih]
    by_cases h : request.method = "OPTIONS"
    · rw [((server.layered request state).preflight h).2]
      simp [h]
    · rw [((server.layered request state).passed h).2.1]
      simp [h]
      omega

end

/-- **What the layers do**, for every configuration, all backends, every client and whatever is kept:
each response has the security headers and is counted, unless its request asks beforehand what is
allowed. -/
theorem handle_layered :
    (∀ request state, server.Layered request state) ∧
      ∀ state requests, (server.after state requests).counters.total requestFamily =
        state.counters.total requestFamily + requests.countP (·.method ≠ "OPTIONS") :=
  ⟨server.layered, server.total_after⟩

end Server

/-- The question of a browser whether a page may send a question. -/
def preflight : Request where
  method := "OPTIONS"
  target := "/api/nl2promql"
  headers :=
    [("origin", "https://grafana.example.com"), ("access-control-request-method", "POST")]
  body := ""

/-- A server with the defaults. -/
def standardServer : Server Scripted.Scenario where
  config := .ofDeployment .development
  generation := Scripted.Scenario.generation true
  metrics := Scripted.Scenario.metrics "fixture"
  clock := Scripted.Scenario.clock

/-- An answer to such a question has none of the headers that every response is to have, and is not
among the requests that are counted. -/
theorem preflight_unobserved :
    let (response, state) :=
      standardServer.handle preflight (standardServer.initialState (.ofReplies []))
    response.status = 200 ∧ (∀ p ∈ securityHeaders, response.headers.get? p.1 = none) ∧
      state.counters.total requestFamily = 0 := by
  rw [standardServer.handle_of_preflight _ _ rfl]
  decide +kernel

end AskMetrics.Service
