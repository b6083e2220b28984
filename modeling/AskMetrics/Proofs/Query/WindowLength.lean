import AskMetrics.Proofs.Query.Window

/-!
# How long a query is with a window

The limit on the length of a query is checked before a window is put into it and not afterwards. A
window of less than ten minutes is written with one digit, as short as a range selector can be, so
it lengthens no query. Any other window may do so, by what it has more than the selectors that
were there. How much that can be depends on the digits of the window alone.
-/
namespace AskMetrics.Query

open AskMetrics.Text

/-- The range selectors that a window is put in place of. -/
def selectors (s : List Char) : List (List Char) :=
  (findAll [rangeSelector] s).map Match.text

/-- What a window does to the length of a text: `s` is the text without it and `t` the text with
it. -/
structure Sized (s : List Char) (window : Option Nat) (t : List Char) : Prop where
  checked : s.length ≤ maxLength
  /-- No window, or one of zero minutes, leaves the text as it is. -/
  kept : window.getD 0 = 0 → t = s
  /-- Any other window takes the place of each selector. -/
  length_add : ∀ n, window = some (n + 1) →
    t.length + (selectors s).flatten.length =
      s.length + (selectors s).length * (minutesSelector (n + 1)).length
  /-- A selector of four characters, the shortest there is, keeps the text within the limit, and
  each further one lengthens it by at most a quarter of the limit. -/
  four_mul_length_le :
    4 * t.length ≤ maxLength * max 4 (minutesSelector (window.getD 0)).length
  /-- Checking the text again would find nothing else wrong with it. -/
  checked_again : brokenRule? t = if t.length ≤ maxLength then none else some .proseContamination

theorem IsSpan.two_le_length {i : List Char} (h : IsSpan i) : 2 ≤ i.length := by
  obtain ⟨u, hu, hdigit⟩ := h.digit
  obtain ⟨v, hv, hletter⟩ := h.letter
  obtain ⟨i, rfl⟩ := List.head?_eq_some_iff.mp hu
  have hne : v ≠ u := by
    rintro rfl
    rw [isDecimal_of_isAlpha hletter] at hdigit
    exact absurd hdigit (by decide)
  have hpos := List.length_pos_of_mem ((List.mem_cons.mp hv).resolve_left hne)
  simp only [List.length_cons]
  omega

section
variable {s : List Char}

/-- A selector is at least the brackets, a digit and a unit. -/
theorem four_le_length_of_mem_selectors {part : List Char} (h : part ∈ selectors s) :
    4 ≤ part.length := by
  obtain ⟨m, hm, rfl⟩ := List.mem_map.mp h
  obtain ⟨b, a, -, -, hmatch⟩ := exists_matchAt_of_mem_findAll hm
  rw [matchAt_singleton, Option.map_eq_some_iff] at hmatch
  obtain ⟨d, hfirst, rfl⟩ := hmatch
  obtain ⟨i, hi, hread⟩ := exists_span_of_mem_rangeSelector (Pattern.mem_ends_of_first hfirst)
  have hspan := hi.two_le_length
  simp only [Match.text, List.flatten_singleton, hread.upTo, List.length_cons, List.length_append,
    List.length_nil]
  omega

theorem four_mul_length_selectors_le : 4 * (selectors s).length ≤ (selectors s).flatten.length := by
  have hparts : ∀ parts : List (List Char), (∀ part ∈ parts, 4 ≤ part.length) →
      4 * parts.length ≤ parts.flatten.length := by
    intro parts hlong
    induction parts with
    | nil => simp
    | cons part parts ih =>
      have hpart := hlong part (.head _)
      have hrest := ih fun p hp => hlong p (.tail _ hp)
      simp only [List.length_cons, List.flatten_cons, List.length_append]
      omega
  exact hparts _ fun part => four_le_length_of_mem_selectors

/-- The selectors of a text are parts of it that do not overlap. -/
theorem length_flatten_selectors_le : (selectors s).flatten.length ≤ s.length := by
  have hcut := length_replaceAll [rangeSelector] [] s
  rw [List.length_nil, Nat.mul_zero, Nat.add_zero] at hcut
  rw [← hcut]
  exact Nat.le_add_left ..

/-- Each selector goes and the one of the window comes in its place. -/
theorem length_replaceRanges (s : List Char) (n : Nat) :
    (replaceRanges s (some (n + 1))).length + (selectors s).flatten.length =
      s.length + (selectors s).length * (minutesSelector (n + 1)).length := by
  have hcount := length_replaceAll [rangeSelector] (minutesSelector (n + 1)) s
  rwa [← List.length_map (f := Match.text)] at hcount

/-- A text grows at most as if it consisted of shortest selectors. -/
theorem four_mul_length_replaceRanges_le (s : List Char) (window : Option Nat) :
    4 * (replaceRanges s window).length ≤
      s.length * max 4 (minutesSelector (window.getD 0)).length := by
  have hkept : ∀ w, 4 * s.length ≤ s.length * max 4 w := by
    intro w
    rw [Nat.mul_comm 4]
    exact Nat.mul_le_mul_left _ (Nat.le_max_left ..)
  match window with
  | none => exact hkept _
  | some 0 => exact hkept _
  | some (n + 1) =>
    have hlength := length_replaceRanges s n
    have hfour := four_mul_length_selectors_le (s := s)
    have hparts := length_flatten_selectors_le (s := s)
    rw [Option.getD_some]
    generalize (minutesSelector (n + 1)).length = w at hlength ⊢
    generalize (selectors s).flatten.length = covered at *
    generalize (selectors s).length = count at *
    by_cases hw : w ≤ 4
    · -- what comes in is no longer than what goes
      have hcount : count * w ≤ count * 4 := Nat.mul_le_mul_left _ hw
      rw [Nat.max_eq_left hw]
      omega
    · obtain ⟨more, rfl⟩ : ∃ more, w = 4 + more := ⟨w - 4, by omega⟩
      have hcount : 4 * count * more ≤ s.length * more := Nat.mul_le_mul_right _ (hfour.trans hparts)
      rw [Nat.max_eq_right (by omega)]
      nlinarith

/-- The length of a checked query with a window. -/
theorem Passes.sized (h : Passes (normalize s)) (window : Option Nat) :
    Sized (normalize s) window (replaceRanges (normalize s) window) where
  checked := h.short_enough
  kept hnone := by
    cases window with
    | none => rfl
    | some n =>
      obtain rfl : n = 0 := hnone
      rfl
  length_add n hn := by rw [hn, length_replaceRanges]
  four_mul_length_le := (four_mul_length_replaceRanges_le _ window).trans
    (Nat.mul_le_mul_right _ h.short_enough)
  checked_again := (h.wellFormed.of_exchanged (exchanged_replaceRanges _ window)).brokenRule?

end

end AskMetrics.Query
