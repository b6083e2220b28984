import AskMetrics.Http.Exchange
import Mathlib.Data.List.Basic

/-!
# Headers by name

Headers are looked up by name without regard to letter case, and setting one takes earlier ones with
the same name away. So headers behave like a map from names, and what is set under one name is not
seen under another.
-/
namespace AskMetrics.Http

namespace Headers
variable {headers : Headers} {a b c name other value : String}

/-! ## Names -/

theorem sameName_iff :
    sameName a b = true ↔ a.toList.map Char.toLower = b.toList.map Char.toLower := by
  simp [sameName]

theorem sameName_refl (a : String) : sameName a a = true := by
  simp [sameName_iff]

theorem sameName_comm (a b : String) : sameName a b = sameName b a := by
  rw [Bool.eq_iff_iff, sameName_iff, sameName_iff]
  exact eq_comm

/-- One name in place of another with the same letters. -/
theorem sameName_congr (h : sameName a b = true) (c : String) : sameName c a = sameName c b := by
  simp only [sameName, sameName_iff.mp h]

/-! ## Setting -/

/-- A header that is set is found under its name, and all others are found as before. -/
theorem get?_set (headers : Headers) (name value other : String) :
    (headers.set name value).get? other =
      if sameName name other = true then some value else headers.get? other := by
  simp only [get?, set, List.find?_append, List.find?_filter]
  split_ifs with h
  · have hnone : headers.find? (fun p => !sameName p.1 name && sameName p.1 other) = none := by
      rw [List.find?_eq_none]
      intro p _
      rw [sameName_congr h]
      simp
    simp [hnone, h]
  · rw [Bool.not_eq_true] at h
    have hsame : (fun p : String × String => !sameName p.1 name && sameName p.1 other) =
        fun p => sameName p.1 other := by
      funext p
      by_cases hp : sameName p.1 other = true
      · have hname : sameName p.1 name = false := by
          rw [sameName_comm, sameName_congr hp]
          exact h
        simp [hp, hname]
      · simp [hp]
    simp [hsame, h]

/-- A name that no header has is not found. -/
theorem get?_eq_none (h : ∀ p ∈ headers, sameName p.1 name = false) : headers.get? name = none := by
  rw [get?, Option.map_eq_none_iff, List.find?_eq_none]
  intro p hp
  simp [h p hp]

theorem mem_set {p : String × String} (h : p ∈ headers.set name value) :
    p ∈ headers ∨ p = (name, value) := by
  rcases List.mem_append.mp h with h | h
  · exact .inl (List.mem_filter.mp h).1
  · exact .inr (List.mem_singleton.mp h)

end Headers

namespace Response
variable {r : Response} {name value other : String}

theorem get?_withHeader (r : Response) (name value other : String) :
    (r.withHeader name value).headers.get? other =
      if Headers.sameName name other = true then some value else r.headers.get? other :=
  Headers.get?_set ..

/-- Headers of other names change nothing. -/
theorem get?_withHeaders_of_not_mem {headers : Headers}
    (h : ∀ p ∈ headers, Headers.sameName p.1 name = false) :
    (r.withHeaders headers).headers.get? name = r.headers.get? name := by
  induction headers generalizing r with
  | nil => rfl
  | cons p headers ih =>
    rw [withHeaders, List.foldl_cons, ← withHeaders, ih fun q hq => h q (.tail _ hq),
      get?_withHeader, h p (.head _)]
    simp

/-- A response that has headers of some names only. -/
def Within (names : List String) (r : Response) : Prop := ∀ p ∈ r.headers, p.1 ∈ names

theorem Within.withHeader {names : List String} (h : r.Within names) (hname : name ∈ names)
    (value : String) : (r.withHeader name value).Within names := by
  intro p hp
  rcases Headers.mem_set hp with hp | rfl
  · exact h p hp
  · exact hname

/-- Other names are not found. -/
theorem Within.get?_eq_none {names : List String} (h : r.Within names)
    (hname : ∀ n ∈ names, Headers.sameName n name = false) : r.headers.get? name = none :=
  Headers.get?_eq_none fun p hp => hname p.1 (h p hp)

end Response

end AskMetrics.Http
