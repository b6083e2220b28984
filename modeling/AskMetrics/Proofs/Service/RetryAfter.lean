import AskMetrics.Proofs.Service.Arrivals
import AskMetrics.Service.Config

/-!
# Coming back

A client whose request is turned away has to wait until what is due of it is no further ahead than
it may be, and that is never longer than one period. It is told the wait in whole seconds, rounded
down but at least one. So a wait of more than a second with a fraction is told too short.
-/
namespace AskMetrics.Service

open Http RateLimiter

/-- Requests that come one after another between two times. -/
def InOrder (start : Nat) (arrivals : List Arrival) (stop : Nat) : Prop :=
  arrivals.Pairwise (fun x y => x.time ≤ y.time) ∧
    ∀ x ∈ arrivals, start ≤ x.time ∧ x.time ≤ stop

/-- A client that has sent a request at a time is let through if it sends none for a pause, whatever
others send until it comes back. -/
def Readmitted (limit : RateLimit) (r : RateLimiter) (a : Address) (t pause : Nat) : Prop :=
  ∀ others t', InOrder t others t' → (∀ x ∈ others, x.address ≠ a) → t + pause ≤ t' →
    (check limit a t' (r.after limit others)).1 = .admitted

/-! ## How far ahead what is due can be -/

/-- No client's next request is due more than a period further ahead than it may be. -/
structure CaughtUp (limit : RateLimit) (t : Nat) (r : RateLimiter) : Prop where
  keyed : r.Keyed
  due_le : ∀ a c, r.client? a = some c → c.due ≤ t + limit.tolerance + limit.period

section
variable {limit : RateLimit} {r : RateLimiter} {a : Address} {t now pause : Nat}

theorem judge_due_le {due : Nat} (h : due ≤ now + limit.tolerance + limit.period) :
    (judge limit due now).2 ≤ now + limit.tolerance + limit.period := by
  by_cases hle : due ≤ now + limit.tolerance
  · rw [judge_of_le hle]
    dsimp only
    omega
  · rw [judge_of_lt (by omega)]
    exact h

namespace CaughtUp

theorem empty : CaughtUp limit t .empty where
  keyed := keyed_empty
  due_le a c h := by simp [client?_empty] at h

theorem dueAt_le (h : CaughtUp limit t r) (ht : t ≤ now) :
    r.dueAt limit a now ≤ now + limit.tolerance + limit.period := by
  unfold dueAt
  cases hc : (r.sweep limit now).client? a with
  | none =>
    simp only [Option.map_none, Option.getD_none]
    omega
  | some c =>
    have hold : r.client? a = some c := by
      cases client?_sweep_eq_or h.keyed limit now a with
      | inl hsame => rw [← hsame, hc]
      | inr hnone => simp [hnone] at hc
    have hdue := h.due_le a c hold
    simp only [Option.map_some, Option.getD_some]
    omega

/-- A request that does not come before the last one puts nothing further ahead. -/
theorem check (h : CaughtUp limit t r) (ht : t ≤ now) :
    CaughtUp limit now (RateLimiter.check limit a now r).2 where
  keyed := keyed_check h.keyed
  due_le b c hb := by
    by_cases hon : limit.enabled = true
    · by_cases hba : b = a
      · rw [check_of_enabled hon, hba] at hb
        simp only [client?_put_self, Option.some.injEq] at hb
        rw [← hb]
        exact judge_due_le (h.dueAt_le ht)
      · have hold : r.client? b = some c := by
          cases client?_check_eq_or h.keyed hba limit now with
          | inl hsame => rw [← hsame, hb]
          | inr hnone => simp [hnone] at hb
        have hdue := h.due_le b c hold
        omega
    · rw [check_of_disabled (by simpa using hon)] at hb
      have hdue := h.due_le b c hb
      omega

end CaughtUp

theorem caughtUp_after (limit : RateLimit) {history : List Arrival} (h : InOrder 0 history t) :
    CaughtUp limit t (RateLimiter.empty.after limit history) := by
  induction history using List.reverseRecOn generalizing t with
  | nil => exact .empty
  | append_singleton history x ih =>
    obtain ⟨hsorted, htimes⟩ := h
    obtain ⟨hbefore, -, hlast⟩ := List.pairwise_append.mp hsorted
    have hx : x.time ≤ t := (htimes x (by simp)).2
    have hstep : CaughtUp limit x.time (RateLimiter.empty.after limit history) :=
      ih ⟨hbefore, fun y hy => ⟨Nat.zero_le _, hlast y hy x (by simp)⟩⟩
    rw [after_concat]
    have hnext := hstep.check (a := x.address) (Nat.le_refl _)
    exact ⟨hnext.keyed, fun b c hb => Nat.le_trans (hnext.due_le b c hb) (by omega)⟩

/-! ## The wait -/

/-- A client of which nothing is further ahead than it may be is let through, also if it has been
dropped meanwhile. -/
theorem check_admitted (due : Nat) (hon : limit.enabled = true) (hreq : 1 ≤ limit.requests)
    (hr : r.Keyed) (hc : (r.client? a).map (·.due) = some due ∨ r.client? a = none)
    (hdue : due ≤ now + limit.tolerance) : (check limit a now r).1 = .admitted := by
  have hperiod : limit.period ≤ limit.tolerance := Nat.le_mul_of_pos_right _ hreq
  have hle : r.dueAt limit a now ≤ now + limit.tolerance := by
    unfold dueAt
    cases client?_sweep_eq_or hr limit now a with
    | inr hnone =>
      simp only [hnone, Option.map_none, Option.getD_none]
      omega
    | inl hsame =>
      rw [hsame]
      cases hc with
      | inl hsome => simpa only [hsome, Option.getD_some] using hdue
      | inr hnone =>
        simp only [hnone, Option.map_none, Option.getD_none]
        omega
  rw [check_of_enabled hon, judge_of_le hle]

/-- A client that is kept and has something further ahead than it may be is turned away. -/
theorem check_rejected {c : Client} (hon : limit.enabled = true)
    (hc : (r.sweep limit now).client? a = some c) (hdue : now + limit.tolerance < c.due) :
    (check limit a now r).1 ≠ .admitted := by
  have heq : r.dueAt limit a now = c.due := by
    rw [dueAt, hc]
    rfl
  rw [check_of_enabled hon, heq, judge_of_lt hdue]
  simp

/-- Someone else. -/
theorem exists_address_ne (a : Address) : ∃ b, b ≠ a := by
  by_cases h : a = noAddress
  · exact ⟨.v6 [], by rw [h]; decide⟩
  · exact ⟨noAddress, Ne.symm h⟩

/-- A pause is enough if and only if what is due is then no further ahead than it may be. A shorter
one might be enough for a client that comes back just when idle clients are dropped; but it is not,
if someone else comes before. -/
theorem readmitted_iff {c : Client} (hon : limit.enabled = true) (hreq : 1 ≤ limit.requests)
    (hidle : 1 ≤ limit.idleAfter) (hr : r.Keyed) (hc : r.client? a = some c)
    (hseen : c.lastSeen = t / nanosPerMilli) :
    Readmitted limit r a t pause ↔ c.due ≤ t + pause + limit.tolerance := by
  constructor
  · intro h
    by_contra hearly
    by_cases hsweep : r.checks % sweepEvery = sweepEvery - 1
    · -- someone else comes at once, so that the next time to look for idle clients is far off
      obtain ⟨b, hb⟩ := exists_address_ne a
      have hactive : ¬ Idle limit t c := by
        simp only [Idle, hseen, Nat.sub_self]
        omega
      have hkeep : (check limit b t r).2.client? a = some c := by
        rw [check_of_enabled hon]
        simp only [client?_put_of_ne (Ne.symm hb)]
        exact client?_sweep_of_not_idle hr hc hactive
      have hchecks : (check limit b t r).2.checks = r.checks + 1 := by
        rw [check_of_enabled hon]
        simp only [checks_put, checks_sweep]
      have hlater : (check limit b t r).2.checks % sweepEvery ≠ sweepEvery - 1 := by
        rw [hchecks]
        simp only [sweepEvery] at hsweep ⊢
        omega
      have hclient :
          ((check limit b t r).2.sweep limit (t + pause)).client? a = some c := by
        rw [← hkeep]
        simp only [client?, sweep_clients_of_ne hlater]
      refine check_rejected hon hclient (by omega) (h [⟨b, t⟩] (t + pause) ?_ ?_ (Nat.le_refl _))
      · simp [InOrder]
      · simpa using hb
    · have hclient : (r.sweep limit (t + pause)).client? a = some c := by
        rw [← hc]
        simp only [client?, sweep_clients_of_ne hsweep]
      refine check_rejected hon hclient (by omega) (h [] (t + pause) ?_ ?_ (Nat.le_refl _))
      · simp [InOrder]
      · simp
  · intro hdue others t' horder hothers hpause
    refine check_admitted c.due hon hreq (keyed_after hr) ?_ (by omega)
    cases client?_after_eq_or hr hothers limit with
    | inl hsame => exact .inl (by rw [hsame, hc]; rfl)
    | inr hnone => exact .inr hnone

end

/-! ## Waiting as long as one is told -/

/-- **When it is enough to wait as long as one is told.** Whatever requests have come, a client
whose request is turned away has to wait for some time, at most a period. It is told that time in
whole seconds, rounded down but at least one. Waiting for as long as that is enough if the wait is
at most a second or a number of whole seconds; waiting for one second more always is. -/
theorem readmitted_of_rejected (c : Config) (hwindow : 1 ≤ c.rateLimitWindowMs)
    {history : List Arrival} {a : Address} {t retryAfter : Nat} {r : RateLimiter}
    (horder : InOrder 0 history t)
    (hrejected : check (.ofConfig c) a t (empty.after (.ofConfig c) history) =
      (.rejected retryAfter, r)) :
    ∃ wait, 0 < wait ∧ wait ≤ (RateLimit.ofConfig c).period ∧
      retryAfter = max 1 (wait / nanosPerSecond) ∧
      (∀ pause, Readmitted (.ofConfig c) r a t pause ↔ wait ≤ pause) ∧
      (Readmitted (.ofConfig c) r a t (retryAfter * nanosPerSecond) ↔
        wait ≤ nanosPerSecond ∨ nanosPerSecond ∣ wait) ∧
      Readmitted (.ofConfig c) r a t ((retryAfter + 1) * nanosPerSecond) := by
  have hcaught := caughtUp_after (.ofConfig c) horder
  have hon : (RateLimit.ofConfig c).enabled = true :=
    enabled_of_check_ne_free (by rw [hrejected]; simp)
  have hbound := hcaught.dueAt_le (a := a) (Nat.le_refl t)
  rw [check_of_enabled hon] at hrejected
  generalize (empty.after (.ofConfig c) history).dueAt (.ofConfig c) a t = due at *
  by_cases hle : due ≤ t + (RateLimit.ofConfig c).tolerance
  · simp [judge_of_le hle] at hrejected
  · rw [judge_of_lt (by omega)] at hrejected
    obtain ⟨hverdict, hstate⟩ := Prod.mk.inj hrejected
    have hretry := (Verdict.rejected.inj hverdict).symm
    have hiff : ∀ pause, Readmitted (.ofConfig c) r a t pause ↔
        due - (RateLimit.ofConfig c).tolerance - t ≤ pause := by
      intro pause
      rw [← hstate, readmitted_iff hon (Nat.le_max_left ..) hwindow
        (keyed_put (keyed_sweep hcaught.keyed)) client?_put_self rfl]
      dsimp only
      omega
    refine ⟨due - (RateLimit.ofConfig c).tolerance - t, by omega, by omega, hretry, hiff, ?_, ?_⟩
    · rw [hiff, hretry]
      simp only [nanosPerSecond]
      omega
    · rw [hiff, hretry]
      simp only [nanosPerSecond]
      omega

/-- With two requests in 901 seconds, the third one is told to wait for 450 seconds, and it is half
a second too early then. -/
theorem rejected_after_retryAfter :
    let limit := RateLimit.ofConfig
      { Config.ofDeployment .production with rateLimitRequests := 2, rateLimitWindowMs := 901000 }
    let x := Address.v4 1 1 1 1
    let first := check limit x 0 (empty.after limit [⟨x, 0⟩, ⟨x, 0⟩])
    first.1 = .rejected 450 ∧
      (check limit x (450 * nanosPerSecond) first.2).1 = .rejected 1 := by
  decide +kernel

/-- There it is enough to wait for 451 seconds. -/
theorem readmitted_of_rejected_twoRequests :
    let limit := RateLimit.ofConfig
      { Config.ofDeployment .production with rateLimitRequests := 2, rateLimitWindowMs := 901000 }
    let x := Address.v4 1 1 1 1
    let first := check limit x 0 (empty.after limit [⟨x, 0⟩, ⟨x, 0⟩])
    Readmitted limit first.2 x 0 (451 * nanosPerSecond) := by
  intro limit x first
  have horder : InOrder 0 [⟨x, 0⟩, ⟨x, 0⟩] 0 := ⟨by decide, by decide⟩
  have hrejected : check limit x 0 (empty.after limit [⟨x, 0⟩, ⟨x, 0⟩]) =
      (.rejected 450, first.2) := by decide +kernel
  obtain ⟨-, -, -, -, -, -, hlonger⟩ := readmitted_of_rejected
    { Config.ofDeployment .production with rateLimitRequests := 2, rateLimitWindowMs := 901000 }
    (by decide) horder hrejected
  exact hlonger

end AskMetrics.Service
