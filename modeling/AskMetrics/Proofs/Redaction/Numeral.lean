import AskMetrics.Proofs.Redaction.Blanks
import AskMetrics.Proofs.Text.Barrier

/-!
# Numbers in redacted texts

A message can name a time in milliseconds, as in "timed out after 503ms". Redaction leaves such a
number as it is, and what it does to the rest of the message does not depend on the number: the
blank before the word "after" is a barrier.
-/
namespace AskMetrics.Redaction

open AskMetrics.Text

/-! ## Around a number -/

/-- The word before the number, with blanks around it. -/
def afterWord : List Char := [' ', 'a', 'f', 't', 'e', 'r', ' ']

/-- A character of a number. -/
def isNumeral (u : Char) : Bool := u.isDigit || u == '-'

section
variable {rule : Rule} {b x y n : List Char} {u : Char}

theorem matchAt_eq_none (h : rule ∈ rules) {c : Cursor} (hc : opensSecret c.ahead = false) :
    matchAt rule.parts c = none := by
  rw [Option.eq_none_iff_forall_ne_some]
  intro m hm
  obtain ⟨⟨texts, d⟩, hsplit, -⟩ := Option.map_eq_some_iff.mp hm
  have hopens := opensSecret_of_mem_ends h c d (mem_ends_sequence_of_splitFrom hsplit)
  simp [hc] at hopens

theorem length_stop_lt (h : rule ∈ rules) (c : Cursor) (m : Match)
    (hm : matchAt rule.parts c = some m) : m.stop.ahead.length < c.ahead.length := by
  obtain ⟨⟨texts, d⟩, hsplit, rfl⟩ := Option.map_eq_some_iff.mp hm
  obtain ⟨x, hread, hx⟩ := separated_of_mem_ends h (mem_ends_sequence_of_splitFrom hsplit)
  have hlength := hread.length
  have hpos := List.length_pos_of_ne_nil hx.ne_nil
  simp only
  omega

/-- No match goes on behind a firm character that the word comes after. -/
theorem confined_of_endsIn (h : rule ∈ rules) (hx : EndsIn (isFirm · = true) x) (r : List Char) :
    Confined rule.parts b x (afterWord ++ r) := by
  refine confined_of_not_reads fun y w e k hw hne he hread => ?_
  obtain ⟨t, hread', ht⟩ := separated_of_mem_ends h he
  obtain rfl : t = w ++ ' ' :: k := by rw [← hread'.upTo, hread.upTo]
  cases k with
  | nil => exact absurd (ht.last ' ' List.getLast?_concat) (by decide)
  | cons v k =>
    obtain ⟨rfl, -⟩ := List.cons.inj (eq_append_of_reads hread)
    rw [hw, endsIn_append_iff hne] at hx
    obtain ⟨l, hl, hfirm⟩ := hx
    obtain ⟨w, rfl⟩ := List.getLast?_eq_some_iff.mp hl
    have hnot := ht.not_firm w l k (by simp)
    simp [hfirm] at hnot

theorem opensSecret_cons
    (hu : (u == '?' || u == '&' || openings.any fun o => sameLetter o.1 u) = false) (a : List Char) :
    opensSecret (u :: a) = false := by
  cases a with
  | nil => rfl
  | cons v a =>
    simp only [Bool.or_eq_false_iff, List.any_eq_false] at hu
    simp only [opensSecret, Bool.or_eq_false_iff, List.any_eq_false, Bool.and_eq_true]
    exact ⟨hu.1, fun o ho h => hu.2 o ho h.1⟩

theorem not_capital_of_isNumeral (hu : isNumeral u = true) :
    ¬ (65 ≤ u.toNat ∧ u.toNat ≤ 90) := by
  intro hcode
  rcases Bool.or_eq_true_iff.mp hu with hu | hu
  · have hdigit := isDigit_iff.mp hu
    omega
  · obtain rfl : u = '-' := by simpa using hu
    exact absurd hcode (by decide)

theorem opensSecret_of_isNumeral (hu : isNumeral u = true) (a : List Char) :
    opensSecret (u :: a) = false := by
  have hletters : ∀ o ∈ openings, isNumeral o.1 = false := by decide
  have hmarks : isNumeral '?' = false ∧ isNumeral '&' = false := by decide
  refine opensSecret_cons ?_ a
  simp only [Bool.or_eq_false_iff, List.any_eq_false, beq_eq_false_iff_ne]
  refine ⟨⟨?_, ?_⟩, fun o ho hsame => ?_⟩
  · rintro rfl
    simp [hmarks.1] at hu
  · rintro rfl
    simp [hmarks.2] at hu
  · have hnumeral :=
      of_sameLetter (fun _ => not_capital_of_isNumeral) (by decide) (by decide) hsame hu
    simp [hletters o ho] at hnumeral

/-- No match starts in the word before the number. -/
theorem along_afterWord (h : rule ∈ rules) (a : List Char) :
    Along (fun b a => matchAt rule.parts ⟨b, a⟩ = none) b afterWord a := by
  have hlast : opensSecret (' ' :: a) = false := opensSecret_cons (by decide) a
  exact ⟨matchAt_eq_none h rfl, matchAt_eq_none h rfl, matchAt_eq_none h rfl,
    matchAt_eq_none h rfl, matchAt_eq_none h rfl, matchAt_eq_none h rfl, matchAt_eq_none h hlast,
    trivial⟩

/-- What replaces a match depends on its parts. -/
theorem replacement_congr (h : rule ∈ rules) {m m' : Match} (hm : m.parts = m'.parts) :
    rule.replacement m = rule.replacement m' := by
  simp only [rules, List.mem_cons, List.not_mem_nil, or_false] at h
  rcases h with rfl | rfl | rfl | rfl | rfl
  · simp [namedValue, Match.part, hm]
  · simp [addressParameter, Match.part, hm]
  · rfl
  · rfl
  · rfl

/-- What replaces a match ends in the bracket of the marker. -/
theorem endsIn_replacement {P : Char → Prop} (hP : P ']') (h : rule ∈ rules) (m : Match) :
    EndsIn P (rule.replacement m) := by
  have hmarker : EndsIn P marker := ⟨']', by decide, hP⟩
  simp only [rules, List.mem_cons, List.not_mem_nil, or_false] at h
  rcases h with rfl | rfl | rfl | rfl | rfl
  · exact hmarker.append_left _
  · exact hmarker.append_left _
  · exact hmarker.append_left _
  · exact hmarker
  · exact hmarker

/-- A rule keeps a number, and what it does before and behind it does not depend on it. -/
theorem exists_apply_numeral (h : rule ∈ rules) (hx : EndsIn (isFirm · = true) x) (y : List Char) :
    ∃ t s, EndsIn (isFirm · = true) t ∧ ∀ n, (∀ u ∈ n, isNumeral u = true) →
      rule.apply (x ++ (afterWord ++ (n ++ 'm' :: y))) = t ++ (afterWord ++ (n ++ 'm' :: s)) := by
  have hparts : ∀ rule ∈ rules, ∀ p ∈ rule.parts, p.repeatsSingly = true ∧ p.isFloating = true := by
    decide
  obtain ⟨s, hs⟩ := exists_rewrites rule.replacement (length_stop_lt h) ⟨['m'], y⟩
  obtain ⟨t₀, ht₀⟩ := exists_rewrites rule.replacement (length_stop_lt h) ⟨[], x ++ afterWord⟩
  obtain ⟨t, -, hend, ht⟩ := ht₀.exists_front (fun p hp => (hparts rule h p hp).1)
    (fun _ _ => replacement_congr h)
    (endsIn_replacement (P := (isFirm · = true)) (by decide) h) (by decide)
    (confined_of_endsIn h hx)
  refine ⟨t, s, hend hx, fun n hn => (ht _ _ ?_).replaceAll_eq⟩
  have hnumeral : Along (fun b a => matchAt rule.parts ⟨b, a⟩ = none)
      (afterWord.reverse ++ (x.reverse ++ [])) n ('m' :: y) :=
    along_of_next fun u hu b a => matchAt_eq_none h (opensSecret_of_isNumeral (hn u hu) a)
  refine .keep (along_afterWord h _) (.keep hnumeral (.skip ?_ ?_))
  · exact matchAt_eq_none h (opensSecret_cons (by decide) y)
  · exact hs.alike (fun p hp => (hparts rule h p hp).2) (fun _ _ => replacement_congr h) ⟨rfl, rfl⟩

theorem exists_foldl_numeral {rs : List Rule} (h : rs ⊆ rules) (hx : EndsIn (isFirm · = true) x)
    (y : List Char) : ∃ t s, ∀ n, (∀ u ∈ n, isNumeral u = true) →
      rs.foldl (fun t rule => rule.apply t) (x ++ (afterWord ++ (n ++ 'm' :: y))) =
        t ++ (afterWord ++ (n ++ 'm' :: s)) := by
  induction rs generalizing x y with
  | nil => exact ⟨x, y, fun _ _ => rfl⟩
  | cons rule rs ih =>
    obtain ⟨t, s, ht, happly⟩ := exists_apply_numeral (h (.head _)) hx y
    obtain ⟨t', s', hrest⟩ := ih (List.subset_of_cons_subset h) ht s
    refine ⟨t', s', fun n hn => ?_⟩
    rw [List.foldl_cons, happly n hn, hrest n hn]

/-- Redaction keeps a number, and what it does before and behind it does not depend on it. -/
theorem exists_redactChars_numeral (hx : EndsIn (isFirm · = true) x) (y : List Char) :
    ∃ t s, ∀ n, (∀ u ∈ n, isNumeral u = true) →
      redactChars (x ++ (afterWord ++ (n ++ 'm' :: y))) = t ++ (afterWord ++ (n ++ 'm' :: s)) :=
  exists_foldl_numeral (List.Subset.refl _) hx y

end

end AskMetrics.Redaction
