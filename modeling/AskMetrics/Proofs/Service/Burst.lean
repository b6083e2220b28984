import AskMetrics.Proofs.Service.Arrivals
import AskMetrics.Service.Config
import Mathlib.Data.Finset.Card

/-!
# Bursts

While the clock stands still, a client uses up its allowance request by request, and nothing that
other clients send changes what is left of it. No client is idle then, so none is dropped, however
often idle clients are looked for.
-/
namespace AskMetrics.Service

open Http RateLimiter

/-! ## Settings -/

namespace RateLimit

/-- Another request may come after some time, since a minute has more nanoseconds than requests can
be asked for. -/
theorem period_ofConfig_pos {c : Config} (h : c.rateLimitRequests ≤ max32) :
    0 < (ofConfig c).period := by
  simp only [ofConfig]
  split_ifs with hzero
  · have hmax : max 1 c.rateLimitRequests ≤ 60 * nanosPerSecond :=
      Nat.max_le.mpr ⟨by decide, h.trans (by decide)⟩
    exact Nat.div_pos hmax (Nat.lt_of_lt_of_le Nat.zero_lt_one (Nat.le_max_left ..))
  · exact Nat.pos_of_ne_zero hzero

end RateLimit

/-! ## One instant -/

/-- Requests that all come at one time. -/
def burst (now : Nat) (addresses : List Address) : List Arrival := addresses.map (⟨·, now⟩)

/-- What is kept of all clients while the clock stands still: each has used up one period for each
of its requests that were let through. -/
structure InBurst (limit : RateLimit) (now : Nat) (seen : List Address) (r : RateLimiter) :
    Prop where
  keyed : r.Keyed
  client : ∀ a, r.client? a =
    if a ∈ seen then
      some ⟨now + (min (seen.count a) limit.requests + 1) * limit.period, now / nanosPerMilli⟩
    else none

section
variable {limit : RateLimit} {now : Nat} {seen : List Address} {r : RateLimiter}

theorem inBurst_empty : InBurst limit now [] empty where
  keyed := keyed_empty
  client a := by simp [client?_empty]

namespace InBurst

/-- The clients that are kept are those that have come. -/
theorem tracked_eq (h : InBurst limit now seen r) : r.tracked = seen.toFinset.card := by
  have hkeys : (r.clients.map (·.1)).toFinset = seen.toFinset := by
    ext a
    rw [List.mem_toFinset, List.mem_toFinset, ← client?_isSome_iff, h.client a]
    split_ifs with ha <;> simp [ha]
  rw [← hkeys, List.toFinset_card_of_nodup h.keyed, List.length_map, tracked]

/-- No client is dropped during a burst: each was seen just now. -/
theorem client?_sweep (h : InBurst limit now seen r) (hidle : 1 ≤ limit.idleAfter)
    (a : Address) : (r.sweep limit now).client? a = r.client? a := by
  have hnot : ∀ p ∈ r.clients, ¬ Idle limit now p.2 := by
    intro p hp
    have hclient := (client?_eq_some_iff h.keyed).mpr hp
    rw [h.client] at hclient
    split_ifs at hclient with hseen
    rw [← Option.some.inj hclient]
    simp only [Idle, Nat.sub_self]
    omega
  simp only [client?, sweep_clients_of_not_idle hnot]

theorem dueAt_eq (h : InBurst limit now seen r) (hidle : 1 ≤ limit.idleAfter) (a : Address) :
    r.dueAt limit a now = now + (min (seen.count a) limit.requests + 1) * limit.period := by
  rw [dueAt, h.client?_sweep hidle, h.client]
  split_ifs with ha
  · rfl
  · simp [List.count_eq_zero.mpr ha]

/-- The verdict on a request whose client has had some requests let through, and what is due after
it. -/
theorem judge_eq (hperiod : 0 < limit.period) (k : Nat) :
    judge limit (now + (min k limit.requests + 1) * limit.period) now =
      (if k < limit.requests then .admitted
        else .rejected (max 1 (limit.period / nanosPerSecond)),
      now + (min (k + 1) limit.requests + 1) * limit.period) := by
  by_cases hk : k < limit.requests
  · have hle : (k + 1) * limit.period ≤ limit.period * limit.requests := by
      rw [Nat.mul_comm]
      exact Nat.mul_le_mul_left _ hk
    have hmin : min k limit.requests = k := by omega
    have hmin' : min (k + 1) limit.requests = k + 1 := by omega
    rw [hmin, hmin', if_pos hk, judge_of_le (by rw [RateLimit.tolerance]; omega),
      Nat.max_eq_left (by omega), Nat.add_mul (k + 1) 1, Nat.one_mul, Nat.add_assoc]
  · have hmin : min k limit.requests = limit.requests := by omega
    have hmin' : min (k + 1) limit.requests = limit.requests := by omega
    have hdue : (limit.requests + 1) * limit.period = limit.tolerance + limit.period := by
      rw [RateLimit.tolerance, Nat.add_mul, Nat.one_mul, Nat.mul_comm]
    have hwait : now + (limit.tolerance + limit.period) - limit.tolerance - now =
        limit.period := by omega
    rw [hmin, hmin', if_neg hk, hdue, judge_of_lt (by omega), hwait]

/-- A request uses up some of its client's allowance and none of another's. -/
theorem check (h : InBurst limit now seen r) (hon : limit.enabled = true)
    (hidle : 1 ≤ limit.idleAfter) (hperiod : 0 < limit.period) (a : Address) :
    (RateLimiter.check limit a now r).1 =
        (if seen.count a < limit.requests then .admitted
          else .rejected (max 1 (limit.period / nanosPerSecond))) ∧
      InBurst limit now (seen ++ [a]) (RateLimiter.check limit a now r).2 := by
  rw [check_of_enabled hon, h.dueAt_eq hidle, judge_eq hperiod]
  refine ⟨rfl, keyed_put (keyed_sweep h.keyed), fun b => ?_⟩
  by_cases hb : b = a
  · simp [hb]
  · have hcount : (seen ++ [a]).count b = seen.count b := by
      simp [List.count_append, Ne.symm hb]
    rw [client?_put_of_ne hb, h.client?_sweep hidle, h.client, hcount]
    simp [hb]

end InBurst

/-- During a burst that no one came before, what is kept is as said. -/
theorem inBurst_after (hon : limit.enabled = true) (hidle : 1 ≤ limit.idleAfter)
    (hperiod : 0 < limit.period) (now : Nat) (addresses : List Address) :
    InBurst limit now addresses (empty.after limit (burst now addresses)) := by
  induction addresses using List.reverseRecOn with
  | nil => exact inBurst_empty
  | append_singleton addresses a ih =>
    rw [burst, List.map_append, List.map_singleton, after_concat]
    exact (ih.check hon hidle hperiod a).2

end

/-! ## Verdicts in a burst -/

/-- **Who is let through in a burst.** With a limit and a window of at least one millisecond,
whatever clients send requests at one time and in whatever order: a client's request is let through
if fewer than the allowed number came from it before, and turned away otherwise; and of each client
that came, something is kept. Without a limit, everything is let through, at whatever times, and
nothing is kept. -/
theorem verdicts_of_burst (c : Config) (hrequests : c.rateLimitRequests ≤ max32) :
    (c.rateLimitEnabled = true → 1 ≤ c.rateLimitWindowMs → ∀ now addresses,
      (∀ i a, addresses[i]? = some a →
        ((empty.verdicts (.ofConfig c) (burst now addresses))[i]? = some .admitted ↔
          (addresses.take i).count a < max 1 c.rateLimitRequests) ∧
        ((∃ retryAfter, (empty.verdicts (.ofConfig c) (burst now addresses))[i]? =
            some (.rejected retryAfter)) ↔
          max 1 c.rateLimitRequests ≤ (addresses.take i).count a)) ∧
      (empty.after (.ofConfig c) (burst now addresses)).tracked = addresses.toFinset.card) ∧
    (c.rateLimitEnabled = false → ∀ arrivals,
      empty.verdicts (.ofConfig c) arrivals = List.replicate arrivals.length .free ∧
      (empty.after (.ofConfig c) arrivals).tracked = 0) := by
  have hperiod := RateLimit.period_ofConfig_pos hrequests
  constructor
  · intro hon hwindow now addresses
    have hlimit : (RateLimit.ofConfig c).enabled = true := hon
    have hinv := inBurst_after hlimit hwindow hperiod now
    constructor
    · intro i a ha
      have hverdict : (empty.verdicts (.ofConfig c) (burst now addresses))[i]? =
          some (if (addresses.take i).count a < max 1 c.rateLimitRequests then .admitted
            else .rejected (max 1 ((RateLimit.ofConfig c).period / nanosPerSecond))) := by
        have hcheck := ((hinv (addresses.take i)).check hon hwindow hperiod a).1
        rw [verdicts_getElem?, burst, List.getElem?_map, ha, ← List.map_take]
        exact congrArg some hcheck
      rw [hverdict]
      split_ifs with hlt
      · simp [hlt, Nat.not_le.mpr hlt]
      · simp [hlt, Nat.not_lt.mp hlt]
    · exact (hinv addresses).tracked_eq
  · intro hoff arrivals
    rw [verdicts_of_disabled hoff, after_of_disabled hoff]
    exact ⟨rfl, rfl⟩

/-- With one request for each client, another client is let through where the first one has been
turned away. -/
theorem verdicts_of_burst_twoClients :
    let c := { Config.ofDeployment .production with rateLimitRequests := 1 }
    let x := Address.v4 10 0 0 1
    let y := Address.v4 10 0 0 2
    (empty.verdicts (.ofConfig c) (burst 7 [x, x, y]))[2]? = some .admitted ∧
      (∃ retryAfter, (empty.verdicts (.ofConfig c) (burst 7 [x, x, y]))[1]? =
        some (.rejected retryAfter)) ∧
      (empty.after (.ofConfig c) (burst 7 [x, x, y])).tracked = 2 := by
  intro c x y
  obtain ⟨hverdict, htracked⟩ :=
    (verdicts_of_burst c (by decide)).1 rfl (by decide) 7 [x, x, y]
  refine ⟨(hverdict 2 y rfl).1.mpr (by decide), (hverdict 1 x rfl).2.mpr (by decide), ?_⟩
  rw [htracked]
  decide

end AskMetrics.Service
