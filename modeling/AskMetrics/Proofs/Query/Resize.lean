import AskMetrics.Proofs.Query.Delimiters
import AskMetrics.Proofs.Query.Shape
import AskMetrics.Proofs.Text.Twin

/-!
# Ranges and blanks of another length

A text may have other ranges than before in its range selectors, and its mask more or fewer blanks
where a literal is. Here is what patterns can make of that: which places lie inside no range and
not among blanks, and which patterns read from one such place to another.
-/
namespace AskMetrics.Query

open AskMetrics.Text

/-! ## Ranges and blanks -/

/-- What can stand between the brackets of a range selector: word characters from a digit on, with
a letter among them. -/
structure IsSpan (i : List Char) : Prop where
  digit : ∃ u ∈ i.head?, isDecimal u = true
  isWord : ∀ u ∈ i, isWord u = true
  letter : ∃ u ∈ i, u.isAlpha = true

/-- A range selector and another one. -/
inductive Ranges : List Char → List Char → Prop
  | mk {i j : List Char} (hi : IsSpan i) (hj : IsSpan j) :
    Ranges ('[' :: (i ++ [']'])) ('[' :: (j ++ [']']))

/-- A range selector and another one, or some blanks and others. -/
inductive Resized : List Char → List Char → Prop
  | range {x y : List Char} (h : Ranges x y) : Resized x y
  | blanks (m n : Nat) : Resized (List.replicate (m + 1) ' ') (List.replicate (n + 1) ' ')

/-- Whether two characters can be neighbours inside a range or among some blanks. -/
def Adjoins (u v : Char) : Prop :=
  (u = ' ' ∧ v = ' ') ∨ (u = '[' ∧ isDecimal v = true) ∨
    (isWord u = true ∧ (isWord v = true ∨ v = ']'))

section
variable {x y : List Char}

theorem IsSpan.ne_nil {i : List Char} (h : IsSpan i) : i ≠ [] := by
  rintro rfl
  obtain ⟨u, hu, -⟩ := h.digit
  simp at hu

theorem Ranges.symm (h : Ranges x y) : Ranges y x := by
  obtain ⟨hi, hj⟩ := h
  exact .mk hj hi

theorem Resized.symm (x y : List Char) (h : Resized x y) : Resized y x := by
  cases h with
  | range h => exact .range h.symm
  | blanks m n => exact .blanks n m

/-- What holds of the brackets and of word characters holds of all of a range. -/
theorem Ranges.forall_left {P : Char → Prop} (hopen : P '[') (hclose : P ']')
    (hword : ∀ u, isWord u = true → P u) (h : Ranges x y) : ∀ u ∈ x, P u := by
  obtain ⟨hi, -⟩ := h
  intro u hu
  simp only [List.mem_cons, List.mem_append, List.not_mem_nil, or_false] at hu
  rcases hu with rfl | hu | rfl
  exacts [hopen, hword u (hi.isWord u hu), hclose]

theorem steady_ranges : Steady Ranges where
  ne_nil h := by
    obtain ⟨-, -⟩ := h
    simp
  head? h := by
    obtain ⟨-, -⟩ := h
    rfl
  getLast? h := by
    obtain ⟨-, -⟩ := h
    simp [List.getLast?_cons]

theorem steady_resized : Steady Resized where
  ne_nil h := by
    cases h with
    | range h => exact steady_ranges.ne_nil h
    | blanks => simp
  head? h := by
    cases h with
    | range h => exact steady_ranges.head? h
    | blanks => simp [List.replicate_succ]
  getLast? h := by
    cases h with
    | range h => exact steady_ranges.getLast? h
    | blanks => simp [List.getLast?_replicate]

/-- A part starts with a bracket or a blank. -/
theorem Resized.head?_eq (h : Resized x y) : x.head? = some '[' ∨ x.head? = some ' ' := by
  cases h with
  | range h =>
    obtain ⟨-, -⟩ := h
    exact .inl rfl
  | blanks => exact .inr (by simp [List.replicate_succ])

/-- A part read backwards starts with a bracket or a blank. -/
theorem Resized.getLast?_eq (h : Resized x y) :
    x.getLast? = some ']' ∨ x.getLast? = some ' ' := by
  cases h with
  | range h =>
    obtain ⟨-, -⟩ := h
    exact .inl (by simp [List.getLast?_cons])
  | blanks => exact .inr (by simp [List.getLast?_replicate])

theorem IsSpan.isChain {i : List Char} (h : IsSpan i) : ('[' :: (i ++ [']'])).IsChain Adjoins := by
  have hinner : i.IsChain Adjoins :=
    (List.pairwise_of_forall_mem_list fun u hu v hv =>
      .inr (.inr ⟨h.isWord u hu, .inl (h.isWord v hv)⟩)).isChain
  have hend : (i ++ [']']).IsChain Adjoins := by
    rw [List.isChain_append]
    refine ⟨hinner, .singleton _, fun u hu v hv => ?_⟩
    obtain rfl : ']' = v := by simpa using hv
    exact .inr (.inr ⟨h.isWord u (List.mem_of_mem_getLast? hu), .inr rfl⟩)
  obtain ⟨u, hu, hdigit⟩ := h.digit
  obtain ⟨i, rfl⟩ := List.head?_eq_some_iff.mp hu
  exact .cons_cons (.inr (.inl ⟨rfl, hdigit⟩)) hend

theorem isChain_resized (x y : List Char) (h : Resized x y) : x.IsChain Adjoins := by
  cases h with
  | range h =>
    obtain ⟨hi, -⟩ := h
    exact hi.isChain
  | blanks m n => exact List.isChain_replicate_of_rel (m + 1) (.inl ⟨rfl, rfl⟩)

/-- A class holds of all of some blanks and others, or not of the first one. -/
theorem class_of_blanks (f : Char → Bool) (m n : Nat) :
    ((∀ u ∈ List.replicate (m + 1) ' ', f u = true) ∧
      ∀ u ∈ List.replicate (n + 1) ' ', f u = true) ∨
    ∀ u ∈ (List.replicate (m + 1) ' ').head?, f u = false := by
  by_cases hblank : f ' ' = true
  · refine .inl ⟨fun u hu => ?_, fun u hu => ?_⟩
    · rwa [(List.mem_replicate.mp hu).2]
    · rwa [(List.mem_replicate.mp hu).2]
  · exact .inr (by simpa [List.replicate_succ] using hblank)

/-- A class that holds of all characters of a range, or not of the opening bracket. -/
theorem homogeneous_resized {f : Char → Bool}
    (hf : (f '[' = true ∧ f ']' = true ∧ ∀ u, isWord u = true → f u = true) ∨ f '[' = false) :
    Homogeneous Resized f := by
  intro x y h
  cases h with
  | range h =>
    rcases hf with ⟨hopen, hclose, hword⟩ | hopen
    · exact .inl ⟨h.forall_left hopen hclose hword, h.symm.forall_left hopen hclose hword⟩
    · obtain ⟨-, -⟩ := h
      exact .inr (by simpa using hopen)
  | blanks m n => exact class_of_blanks f m n

/-- Read backwards, a class that does not hold of the closing bracket. -/
theorem homogeneous_mirrored {f : Char → Bool} (hf : f ']' = false) :
    Homogeneous (Mirrored Resized) f := by
  intro x y h
  obtain ⟨z, rfl⟩ : ∃ z, x = z.reverse := ⟨x.reverse, by simp⟩
  obtain ⟨w, rfl⟩ : ∃ w, y = w.reverse := ⟨y.reverse, by simp⟩
  obtain hzw : Resized z w := by simpa [Mirrored] using h
  cases hzw with
  | range hzw =>
    obtain ⟨-, -⟩ := hzw
    exact .inr (by simpa using hf)
  | blanks m n =>
    rw [List.reverse_replicate, List.reverse_replicate]
    exact class_of_blanks f m n

/-- A character that is neither the opening bracket nor the space starts no part. -/
theorem not_starts {u : Char} (hopen : u ≠ '[') (hblank : u ≠ ' ') (x y : List Char)
    (h : Resized x y) : x.head? ≠ some u := by
  rcases h.head?_eq with hx | hx <;> simp [hx, hopen.symm, hblank.symm]

/-- What is kept of both texts and has nothing to do with ranges and blanks. -/
theorem filter_eq_of_resized {f : Char → Bool} (hblank : f ' ' = false)
    (hword : ∀ u, isWord u = true → f u = false) (h : Resized x y) :
    x.filter f = y.filter f := by
  cases h with
  | range h =>
    obtain ⟨hi, hj⟩ := h
    have hnil : ∀ {i : List Char}, IsSpan i → i.filter f = [] := fun hi =>
      List.filter_eq_nil_iff.mpr fun u hu => by simp [hword u (hi.isWord u hu)]
    simp [List.filter_cons, List.filter_append, hnil hi, hnil hj]
  | blanks m n => simp [hblank]

end

section
variable {s t : List Char}

theorem isBalanced_eq_of_resized (h : Exchanged Resized s t) : isBalanced s = isBalanced t := by
  have hproject (k : Bracket) : k.project s = k.project t := by
    refine h.filter_eq fun x y hxy => filter_eq_of_resized (by cases k <;> decide) ?_ hxy
    intro u hu
    have hne : ∀ v, isWord v = false → (u == v) = false := fun v hv =>
      beq_eq_false_iff_ne.mpr (ne_of_isWord hu hv)
    cases k <;> simp only [Bracket.opening, Bracket.closing, Bool.or_eq_false_iff] <;>
      exact ⟨hne _ (by decide), hne _ (by decide)⟩
  rw [Bool.eq_iff_iff, isBalanced_iff, isBalanced_iff]
  simp only [hproject]

/-! ## Places that are inside no part -/

/-- A place that is inside no range and not among blanks. -/
def Seam (c : Cursor) : Prop :=
  ∀ u ∈ c.behind.head?, ∀ v ∈ c.ahead.head?, ¬ Adjoins u v

/-- A place before an opening bracket is inside no part. -/
theorem seam_of_opening {c : Cursor} (h : ∀ v ∈ c.ahead.head?, v = '[') : Seam c := by
  intro u _ v hv
  obtain rfl := h v hv
  have hdecimal : isDecimal '[' = false := by decide
  have hword : isWord '[' = false := by decide
  simp [Adjoins, hdecimal, hword]

/-- A place behind a closing bracket is inside no part. -/
theorem seam_of_closing {c : Cursor} (h : ∀ u ∈ c.behind.head?, u = ']') : Seam c := by
  intro u hu v _
  obtain rfl := h u hu
  have hword : isWord ']' = false := by decide
  simp [Adjoins, hword]

/-- An edge before a letter is inside no part. -/
theorem seam_of_edge {c : Cursor} (hedge : c.atEdge = true)
    (hletter : ∀ v ∈ c.ahead.head?, v.isAlpha = true) : Seam c := by
  intro u hu v hv hadjoins
  have halpha := hletter v hv
  have hword := isWord_of_isAlpha halpha
  rcases hadjoins with ⟨-, rfl⟩ | ⟨-, hdigit⟩ | ⟨huword, -⟩
  · exact absurd halpha (by decide)
  · simp [isDecimal_of_isAlpha halpha] at hdigit
  · obtain ⟨b, hb⟩ := List.head?_eq_some_iff.mp hu
    obtain ⟨a, ha⟩ := List.head?_eq_some_iff.mp hv
    simp [Cursor.atEdge, hb, ha, hword, huword] at hedge

/-- A pattern for an edge and then a letter fits at no place inside a part. -/
theorem seam_of_edge_then {q : Pattern} (hq : AvoidsAtStart (fun u => !u.isAlpha) q) (c d : Cursor)
    (h : d ∈ (Pattern.edge.andThen q).ends c) : Seam c := by
  obtain ⟨e, he, hd⟩ := Pattern.mem_ends_andThen.mp h
  obtain ⟨hedge, rfl⟩ := Pattern.mem_ends_edge.mp he
  exact seam_of_edge hedge fun v hv => by simpa using hq e d hd v hv

/-! ## Patterns in resized texts -/

theorem carries_edge : Carries Resized .edge := .edge steady_resized

theorem carries_char {u : Char} (hopen : u ≠ '[') (hblank : u ≠ ' ') :
    Carries Resized (.char u) :=
  .char steady_resized (not_starts hopen hblank)

theorem carries_words {ws : List String}
    (h : ∀ w ∈ ws, ∀ u ∈ w.toList, isNameChar u = true) : Carries Resized (anyWord ws) :=
  .words steady_resized fun w hw u hu =>
    not_starts (ne_of_isNameChar (h w hw u hu) (by decide))
      (ne_of_isNameChar (h w hw u hu) (by decide))

theorem homogeneous_isBlank : Homogeneous Resized isBlank :=
  homogeneous_resized (.inr (by decide))

theorem homogeneous_ne {v : Char} (hopen : v ≠ '[') (hclose : v ≠ ']') (hword : isWord v = false) :
    Homogeneous Resized (· != v) :=
  homogeneous_resized (.inl ⟨by simpa using hopen.symm, by simpa using hclose.symm,
    fun u hu => by simpa using ne_of_isWord hu hword⟩)

/-- Blanks before something else. -/
theorem meets_blanks_then {q : Pattern} (hstart : AvoidsAtStart isBlank q)
    (hq : Meets Resized q) : Meets Resized (Pattern.blanks.andThen q) :=
  .run_then steady_resized homogeneous_isBlank hstart hq

theorem meets_someBlanks_then {q : Pattern} (hstart : AvoidsAtStart isBlank q)
    (hq : Meets Resized q) : Meets Resized (Pattern.someBlanks.andThen q) :=
  .some_run_then steady_resized homogeneous_isBlank hstart hq

end

end AskMetrics.Query
