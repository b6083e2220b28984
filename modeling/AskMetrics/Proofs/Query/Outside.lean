import AskMetrics.Proofs.Query.Literal
import AskMetrics.Proofs.Text.Word

/-!
# Places outside literals

The checks on a query see its mask. A place outside literals is the same place in the mask, and
what comes next is the same text up to the next quote: so a word, a run of blanks or a bracket that
the checks find is there in the query, and what stands in the query outside literals is found.
-/
namespace AskMetrics.Query

open AskMetrics.Text

section
variable {u : Char}

theorem isQuote_of_isNameChar (h : isNameChar u = true) : isQuote u = false := by
  by_contra hquote
  simp only [isQuote, Bool.not_eq_false, Bool.or_eq_true, beq_iff_eq] at hquote
  rcases hquote with (rfl | rfl) | rfl <;> exact absurd h (by decide)

theorem isQuote_of_isBlank (h : isBlank u = true) : isQuote u = false := by
  by_contra hquote
  simp only [isQuote, Bool.not_eq_false, Bool.or_eq_true, beq_iff_eq] at hquote
  rcases hquote with (rfl | rfl) | rfl <;> exact absurd h (by decide)

/-- A character outside literals that opens none. -/
theorem maskFrom_outside_cons (hu : isQuote u = false) (a : List Char) :
    maskFrom .outside (u :: a) = u :: maskFrom .outside a := by
  simp [maskFrom, Quoting.shown, Quoting.next, hu]

end

section
variable {b x a : List Char} {f : Char → Bool}

/-- A text outside literals that opens none. -/
theorem maskFrom_outside_append (hx : ∀ u ∈ x, isQuote u = false) :
    maskFrom .outside (x ++ a) = x ++ maskFrom .outside a := by
  induction x with
  | nil => rfl
  | cons u x ih =>
    rw [List.cons_append, maskFrom_outside_cons (hx u (.head _)), ih fun v hv => hx v (.tail _ hv)]
    rfl

/-- The mask of a text at a word outside literals. -/
theorem mask_outside (hb : Quoting.outside.after b = .outside) (hx : ∀ u ∈ x, isQuote u = false) :
    mask (b ++ (x ++ a)) = mask b ++ (x ++ maskFrom .outside a) := by
  rw [mask, maskFrom_append, hb, maskFrom_outside_append hx, mask]

/-- The first character outside literals is shown as it is, also when it opens one. -/
theorem head?_maskFrom_outside (a : List Char) : (maskFrom .outside a).head? = a.head? := by
  cases a with
  | nil => rfl
  | cons u a => rfl

/-- A run of a class without quotes ends before the next literal. -/
theorem takeWhile_maskFrom (hf : ∀ u, f u = true → isQuote u = false) (a : List Char) :
    (maskFrom .outside a).takeWhile f = a.takeWhile f := by
  induction a with
  | nil => rfl
  | cons u a ih =>
    by_cases hu : f u = true
    · rw [maskFrom_outside_cons (hf u hu), List.takeWhile_cons_of_pos hu, ih,
        List.takeWhile_cons_of_pos hu]
    · rw [maskFrom, Quoting.shown, List.takeWhile_cons_of_neg hu, List.takeWhile_cons_of_neg hu]

theorem dropWhile_maskFrom (hf : ∀ u, f u = true → isQuote u = false) (a : List Char) :
    (maskFrom .outside a).dropWhile f = maskFrom .outside (a.dropWhile f) := by
  induction a with
  | nil => rfl
  | cons u a ih =>
    by_cases hu : f u = true
    · rw [maskFrom_outside_cons (hf u hu), List.dropWhile_cons_of_pos hu, ih,
        List.dropWhile_cons_of_pos hu]
    · rw [maskFrom, Quoting.shown, List.dropWhile_cons_of_neg hu, List.dropWhile_cons_of_neg hu,
        maskFrom, Quoting.shown]

end

/-- A character behind which the text is outside literals is shown as it is. -/
theorem Quoting.shown_of_next_outside {q : Quoting} {u : Char} (h : q.next u = .outside) :
    q.shown u = u := by
  cases q with
  | outside => rfl
  | inside quote =>
    simp only [Quoting.next] at h
    split_ifs at h with hbackslash hquote
    simp only [Quoting.shown]
    rw [if_neg hbackslash, if_pos hquote]
  | escaped quote => simp [Quoting.next] at h

/-- Closed literals leave the last character as it is. -/
theorem getLast?_mask {s : List Char} (h : leavesOpen s = false) :
    (mask s).getLast? = s.getLast? := by
  rcases s.eq_nil_or_concat with rfl | ⟨t, u, rfl⟩
  · rfl
  · have hlast : (Quoting.outside.after t).next u = .outside := by
      simpa [leavesOpen] using h
    have hmask : mask (t ++ [u]) = mask t ++ [u] := by
      rw [mask, maskFrom_append, maskFrom, Quoting.shown_of_next_outside hlast]
      rfl
    rw [List.concat_eq_append, hmask, List.getLast?_concat, List.getLast?_concat]

/-- Behind closed literals a word begins in a text where it begins in the mask. -/
theorem opens_mask {b : List Char} (hb : Quoting.outside.after b = .outside)
    (h : Opens b.reverse) : Opens (mask b).reverse := by
  have hclosed : leavesOpen b = false := by
    simp [leavesOpen, hb]
  unfold Opens at h ⊢
  rwa [List.head?_reverse, getLast?_mask hclosed, ← List.head?_reverse]

end AskMetrics.Query
