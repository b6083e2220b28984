import AskMetrics.Service.RateLimit
import Mathlib.Data.List.Induction
import Mathlib.Data.List.Nodup

/-!
# Requests one after another

What the limiter keeps of a client is changed by the requests of that client alone. Dropping the
idle ones is the only way in which the others come in, and it takes away a client as a whole.
-/
namespace AskMetrics.Service

open Http

/-- A request as the limiter sees it. -/
structure Arrival where
  address : Address
  /-- The time in nanoseconds. -/
  time : Nat
  deriving DecidableEq, Repr

namespace RateLimiter

/-! ## Keeping something of a client -/

/-- Of each client, something is kept once. -/
def Keyed (r : RateLimiter) : Prop := (r.clients.map (·.1)).Nodup

section
variable {r : RateLimiter} {a b : Address} {c : Client}

theorem keyed_empty : empty.Keyed := List.nodup_nil

theorem client?_empty : empty.client? a = none := rfl

/-- Something is kept of those clients that are in the list. -/
theorem client?_isSome_iff : (r.client? a).isSome ↔ a ∈ r.clients.map (·.1) := by
  obtain ⟨clients, checks⟩ := r
  simp only [client?]
  induction clients with
  | nil => simp
  | cons p clients ih =>
    rcases p with ⟨key, old⟩
    by_cases h : a = key
    · simp [h]
    · have hne : (a == key) = false := beq_false_of_ne h
      simp only [List.lookup_cons, hne, ih, List.map_cons, List.mem_cons, h, false_or]

/-- What is kept of a client is what stands in the list. -/
theorem client?_eq_some_iff (hr : r.Keyed) : r.client? a = some c ↔ (a, c) ∈ r.clients := by
  obtain ⟨clients, checks⟩ := r
  simp only [client?, Keyed] at hr ⊢
  induction clients with
  | nil => simp
  | cons p clients ih =>
    rcases p with ⟨key, old⟩
    obtain ⟨hkey, hrest⟩ := List.nodup_cons.mp hr
    by_cases h : a = key
    · have hnot : (key, c) ∉ clients := fun hmem => hkey (List.mem_map.mpr ⟨_, hmem, rfl⟩)
      simp [h, hnot, eq_comm]
    · have hne : (a == key) = false := beq_false_of_ne h
      simp only [List.lookup_cons, hne, ih hrest, List.mem_cons, Prod.mk.injEq, h, false_and,
        false_or]

theorem keys_put : ((r.put a c).clients.map (·.1)) =
    if (r.client? a).isSome then r.clients.map (·.1) else a :: r.clients.map (·.1) := by
  unfold put
  split_ifs <;> simp [Function.comp_def]

theorem keyed_put (hr : r.Keyed) : (r.put a c).Keyed := by
  unfold Keyed
  rw [keys_put]
  split_ifs with h
  · exact hr
  · exact List.nodup_cons.mpr ⟨fun hmem => h (client?_isSome_iff.mpr hmem), hr⟩

@[simp] theorem client?_put_self : (r.put a c).client? a = some c := by
  unfold put
  split_ifs with h
  · rw [client?_isSome_iff] at h
    obtain ⟨clients, checks⟩ := r
    simp only [client?]
    induction clients with
    | nil => simp at h
    | cons p clients ih =>
      rcases p with ⟨key, old⟩
      by_cases hkey : a = key
      · simp [hkey]
      · have hne : (a == key) = false := beq_false_of_ne hkey
        have hmem : a ∈ clients.map (·.1) := by simpa [hkey] using h
        simp only [List.map_cons, List.lookup_cons, hne]
        exact ih hmem
  · simp [client?]

theorem client?_put_of_ne (h : b ≠ a) : (r.put a c).client? b = r.client? b := by
  have hne : (b == a) = false := beq_false_of_ne h
  unfold put
  split_ifs
  · obtain ⟨clients, checks⟩ := r
    simp only [client?]
    clear * - h
    induction clients with
    | nil => rfl
    | cons p clients ih =>
      rcases p with ⟨key, old⟩
      by_cases hkey : b = key
      · have : key ≠ a := hkey ▸ h
        simp [this, hkey]
      · have hbk : (b == key) = false := beq_false_of_ne hkey
        simp only [List.map_cons, List.lookup_cons, hbk, ih]
  · simp [client?, List.lookup_cons, hne]

@[simp] theorem checks_put : (r.put a c).checks = r.checks := by
  unfold put
  split_ifs <;> rfl

/-! ## Dropping idle clients -/

variable {limit : RateLimit} {now : Nat}

/-- A client is idle if it has sent nothing for a window. -/
def Idle (limit : RateLimit) (now : Nat) (c : Client) : Prop :=
  limit.idleAfter ≤ now / nanosPerMilli - c.lastSeen

theorem sweep_clients_sublist : (r.sweep limit now).clients.Sublist r.clients := by
  unfold sweep
  split_ifs
  · exact List.filter_sublist
  · exact List.Sublist.refl _

@[simp] theorem checks_sweep : (r.sweep limit now).checks = r.checks + 1 := by
  unfold sweep
  split_ifs <;> rfl

theorem keyed_sweep (hr : r.Keyed) : (r.sweep limit now).Keyed :=
  hr.sublist (sweep_clients_sublist.map _)

/-- Between two times that idle clients are dropped, no client is. -/
theorem sweep_clients_of_ne (h : r.checks % sweepEvery ≠ sweepEvery - 1) :
    (r.sweep limit now).clients = r.clients := by
  simp [sweep, h]

/-- If no client is idle, none is dropped. -/
theorem sweep_clients_of_not_idle (h : ∀ p ∈ r.clients, ¬ Idle limit now p.2) :
    (r.sweep limit now).clients = r.clients := by
  have hkept : r.clients.filter (fun p => now / nanosPerMilli - p.2.lastSeen < limit.idleAfter) =
      r.clients := by
    refine List.filter_eq_self.mpr fun p hp => ?_
    exact decide_eq_true (Nat.lt_of_not_le (h p hp))
  unfold sweep
  split_ifs
  · exact hkept
  · rfl

/-- What is kept of a client stays unless it is dropped. -/
theorem client?_sweep_eq_or (hr : r.Keyed) (limit : RateLimit) (now : Nat) (a : Address) :
    (r.sweep limit now).client? a = r.client? a ∨ (r.sweep limit now).client? a = none := by
  cases h : (r.sweep limit now).client? a with
  | none => exact .inr rfl
  | some c =>
    have hmem := (client?_eq_some_iff (keyed_sweep hr)).mp h
    have hold := (client?_eq_some_iff hr).mpr (sweep_clients_sublist.mem hmem)
    exact .inl hold.symm

/-- A client that is not idle is not dropped. -/
theorem client?_sweep_of_not_idle (hr : r.Keyed) (hc : r.client? a = some c)
    (hidle : ¬ Idle limit now c) : (r.sweep limit now).client? a = some c := by
  rw [client?_eq_some_iff (keyed_sweep hr)]
  have hmem := (client?_eq_some_iff hr).mp hc
  unfold sweep
  split_ifs
  · exact List.mem_filter.mpr ⟨hmem, decide_eq_true (Nat.lt_of_not_le hidle)⟩
  · exact hmem

end

/-! ## One request -/

section
variable {limit : RateLimit} {r : RateLimiter} {a b : Address} {now : Nat}

/-- When the next request of a client is due at a time. One who has not come before starts with a
request just let through. -/
def dueAt (limit : RateLimit) (r : RateLimiter) (a : Address) (now : Nat) : Nat :=
  (((r.sweep limit now).client? a).map (·.due)).getD (now + limit.period)

/-- A request under a limit is judged by when it is due, and the client is kept with what is due
after it. -/
theorem check_of_enabled (h : limit.enabled = true) : check limit a now r =
    ((judge limit (r.dueAt limit a now) now).1,
      (r.sweep limit now).put a
        ⟨(judge limit (r.dueAt limit a now) now).2, now / nanosPerMilli⟩) := by
  simp [check, h, dueAt]

theorem check_of_disabled (h : limit.enabled = false) : check limit a now r = (.free, r) := by
  simp [check, h]

/-- A limit is on if a request has been turned away or let through under it. -/
theorem enabled_of_check_ne_free (h : (check limit a now r).1 ≠ .free) : limit.enabled = true := by
  by_contra hoff
  exact h (by rw [check_of_disabled (by simpa using hoff)])

theorem keyed_check (hr : r.Keyed) : (check limit a now r).2.Keyed := by
  by_cases h : limit.enabled = true
  · rw [check_of_enabled h]
    exact keyed_put (keyed_sweep hr)
  · rw [check_of_disabled (by simpa using h)]
    exact hr

/-- A request changes nothing about another client, unless that one is dropped. -/
theorem client?_check_eq_or (hr : r.Keyed) (h : b ≠ a) (limit : RateLimit) (now : Nat) :
    (check limit a now r).2.client? b = r.client? b ∨
      (check limit a now r).2.client? b = none := by
  by_cases hon : limit.enabled = true
  · rw [check_of_enabled hon]
    simp only [client?_put_of_ne h]
    exact client?_sweep_eq_or hr limit now b
  · rw [check_of_disabled (by simpa using hon)]
    exact .inl rfl

/-- A request is let through as soon as what is due is no further ahead than it may be. -/
theorem judge_of_le {due : Nat} (h : due ≤ now + limit.tolerance) :
    judge limit due now = (.admitted, max due now + limit.period) := by
  have : ¬ now < due - limit.tolerance := by omega
  simp [judge, this]

/-- A request that comes before that is turned away, and what is due stays. -/
theorem judge_of_lt {due : Nat} (h : now + limit.tolerance < due) :
    judge limit due now =
      (.rejected (max 1 ((due - limit.tolerance - now) / nanosPerSecond)), due) := by
  have : now < due - limit.tolerance := by omega
  simp [judge, this]

end

/-! ## A run -/

section
variable (limit : RateLimit)

/-- What is kept after some requests. -/
def after (r : RateLimiter) (arrivals : List Arrival) : RateLimiter :=
  arrivals.foldl (fun r x => (check limit x.address x.time r).2) r

/-- The verdicts on requests that come one after another. -/
def verdicts (r : RateLimiter) : List Arrival → List Verdict
  | [] => []
  | x :: xs =>
    (check limit x.address x.time r).1 :: (check limit x.address x.time r).2.verdicts xs

variable {limit} {r : RateLimiter} {x : Arrival} {xs ys : List Arrival}

@[simp] theorem after_nil : r.after limit [] = r := rfl

@[simp] theorem after_cons :
    r.after limit (x :: xs) = (check limit x.address x.time r).2.after limit xs := rfl

theorem after_concat :
    r.after limit (xs ++ [x]) = (check limit x.address x.time (r.after limit xs)).2 := by
  simp [after]

/-- Each verdict is the one that the requests before it lead to. -/
theorem verdicts_getElem? (i : Nat) : (r.verdicts limit xs)[i]? =
    xs[i]?.map fun x => (check limit x.address x.time (r.after limit (xs.take i))).1 := by
  induction xs generalizing r i with
  | nil => simp [verdicts]
  | cons x xs ih =>
    cases i with
    | zero => simp [verdicts]
    | succ i => simp [verdicts, ih]

theorem keyed_after (hr : r.Keyed) : (r.after limit xs).Keyed := by
  induction xs generalizing r with
  | nil => exact hr
  | cons x xs ih => exact ih (keyed_check hr)

/-- A run without requests of a client changes nothing about it, unless it is dropped. -/
theorem client?_after_eq_or {a : Address} (hr : r.Keyed) (h : ∀ x ∈ xs, x.address ≠ a)
    (limit : RateLimit) :
    (r.after limit xs).client? a = r.client? a ∨ (r.after limit xs).client? a = none := by
  induction xs generalizing r with
  | nil => exact .inl rfl
  | cons x xs ih =>
    have hne : a ≠ x.address := Ne.symm (h x List.mem_cons_self)
    rw [after_cons]
    cases ih (keyed_check hr) (fun y hy => h y (List.mem_cons_of_mem _ hy)) with
    | inr hnone => exact .inr hnone
    | inl hsame =>
      rw [hsame]
      exact client?_check_eq_or hr hne limit x.time

/-- Without a limit, a run changes nothing. -/
theorem after_of_disabled (h : limit.enabled = false) : r.after limit xs = r := by
  induction xs with
  | nil => rfl
  | cons x xs ih => rw [after_cons, check_of_disabled h, ih]

/-- Without a limit, every request is let through. -/
theorem verdicts_of_disabled (h : limit.enabled = false) :
    r.verdicts limit xs = List.replicate xs.length .free := by
  induction xs with
  | nil => rfl
  | cons x xs ih => simp [verdicts, check_of_disabled h, ih, List.replicate_succ]

end

end RateLimiter

end AskMetrics.Service
