import AskMetrics.Proofs.Query.Names
import AskMetrics.Proofs.Text.Case
import AskMetrics.Query.Check

/-!
# Aggregation operators among the metric names

The operators of aggregations are one vocabulary, the words that are no metric names another. An
operator stays out of the metric names because it is in both vocabularies or because it is a plain
word. Of the operators `limit_ratio` is neither, so where it stands as a name of its own it is one
of the metrics of the query.
-/
namespace AskMetrics.Query

open AskMetrics.Text

variable {s w : List Char}

/-- An aggregation operator, in any letter case. -/
def IsOperator (w : List Char) : Prop :=
  ∃ operator ∈ aggregationOperators, operator.toList = lowerAscii w

instance (w : List Char) : Decidable (IsOperator w) :=
  inferInstanceAs (Decidable (∃ operator ∈ aggregationOperators, operator.toList = lowerAscii w))

theorem mem_metricNames_iff :
    w ∈ metricNames s ↔ ∃ k : Token, k.IsIn (scrub s) ∧ k.isCandidate = true ∧ k.word = w := by
  rw [metricNames, distinct_eq_eraseDups, List.mem_eraseDups]
  constructor
  · intro hw
    obtain ⟨m, hm, rfl⟩ := List.mem_map.mp hw
    obtain ⟨hfound, hcandidate⟩ := List.mem_filter.mp hm
    refine ⟨token m, ((tokens_findAll _).mem_iff _).mp (List.mem_map_of_mem hfound), ?_, rfl⟩
    rw [isCandidate_token, hcandidate]
  · rintro ⟨k, hk, hcandidate, rfl⟩
    obtain ⟨m, hfound, rfl⟩ := List.mem_map.mp (((tokens_findAll _).mem_iff k).mpr hk)
    rw [isCandidate_token] at hcandidate
    exact List.mem_map_of_mem (List.mem_filter.mpr ⟨hfound, hcandidate⟩)

/-- Whether a token can be a metric, by what stands before it and by its word. -/
theorem Token.isCandidate_iff {k : Token} :
    k.isCandidate = true ↔
      (∀ u ∈ k.before.getLast?, u.isDigit = false ∧ u ≠ '.') ∧ isMetricLike k.word = true := by
  simp only [Token.isCandidate, isMetricLike, Bool.and_eq_true, Bool.not_eq_true',
    Option.any_eq_false, Bool.or_eq_false_iff, beq_eq_false_iff_ne, and_assoc,
    Option.mem_def]

/-- An operator that is vocabulary as well does not look like a metric, and no plain word does. -/
theorem isMetricLike_operator_iff (h : IsOperator w) :
    isMetricLike w = true ↔ lowerAscii w = "limit_ratio".toList := by
  obtain ⟨operator, hmem, hlower⟩ := h
  -- each operator but one is vocabulary, or has letters only
  have hkinds : ∀ operator ∈ aggregationOperators, operator = "limit_ratio" ∨
      operator ∈ functionNames ++ modifierNames ∨
      (operator.toList.all fun u => 97 ≤ u.toNat ∧ u.toNat ≤ 122) = true := by decide +kernel
  constructor
  · intro hlike
    simp only [isMetricLike, Bool.and_eq_true, Bool.not_eq_true'] at hlike
    rcases hkinds operator hmem with rfl | hname | hletters
    · exact hlower.symm
    · have hreserved : isReserved w = true :=
        List.any_eq_true.mpr ⟨operator, hname, beq_iff_eq.mpr hlower⟩
      simp [hreserved] at hlike
    · have hplain := List.all_eq_true.mpr (isAlpha_of_lowerAscii hlower.symm hletters)
      simp [hplain] at hlike
  · intro hlimit
    have hunreserved : isReserved w = false := by
      rw [isReserved, hlimit]
      decide +kernel
    have hplain : w.all Char.isAlpha = false := by
      rw [← Bool.not_eq_true, List.all_eq_true]
      intro hletters
      have hunderscore : '_' ∈ lowerAscii w := hlimit ▸ by decide
      obtain ⟨u, hu, hlow⟩ := List.mem_map.mp hunderscore
      have halpha := hletters u hu
      rw [isAlpha_iff] at halpha
      have hcode := congrArg Char.toNat hlow
      rw [toNat_toLower] at hcode
      have h95 : '_'.toNat = 95 := rfl
      split_ifs at hcode <;> omega
    rw [isMetricLike, hunreserved, hplain]
    rfl

/-- **The operators among the metric names**: for every query and every word that is an aggregation
operator in some letter case, the word is one of the metrics of the query exactly if it is
`limit_ratio` and a token of the scrubbed query that does not go on a number. -/
theorem operator_mem_metricNames_iff (h : IsOperator w) :
    w ∈ metricNames s ↔ lowerAscii w = "limit_ratio".toList ∧
      ∃ k : Token, k.IsIn (scrub s) ∧ k.word = w ∧
        ∀ u ∈ k.before.getLast?, u.isDigit = false ∧ u ≠ '.' := by
  rw [mem_metricNames_iff, ← isMetricLike_operator_iff h]
  constructor
  · rintro ⟨k, hk, hcandidate, rfl⟩
    obtain ⟨hbefore, hlike⟩ := Token.isCandidate_iff.mp hcandidate
    exact ⟨hlike, k, hk, rfl, hbefore⟩
  · rintro ⟨hlike, k, hk, rfl, hbefore⟩
    exact ⟨k, hk, Token.isCandidate_iff.mpr ⟨hbefore, hlike⟩, rfl⟩

/-- An operator with an underscore that is vocabulary: it is no metric, and the one with an
underscore that is not stands among the metrics. -/
theorem operator_mem_metricNames_countValues :
    IsOperator "Count_Values".toList ∧ IsOperator "Limit_Ratio".toList ∧
      "Count_Values".toList ∉ metricNames "Count_Values(\"v\", Limit_Ratio(0.5, http_hits))".toList ∧
      ∃ k : Token, k.IsIn (scrub "Count_Values(\"v\", Limit_Ratio(0.5, http_hits))".toList) ∧
        k.word = "Limit_Ratio".toList ∧ ∀ u ∈ k.before.getLast?, u.isDigit = false ∧ u ≠ '.' := by
  have hcount : IsOperator "Count_Values".toList := by decide +kernel
  have hlimit : IsOperator "Limit_Ratio".toList := by decide +kernel
  refine ⟨hcount, hlimit, fun hmem => ?_, ?_⟩
  · exact absurd ((operator_mem_metricNames_iff hcount).mp hmem).1 (by decide +kernel)
  · exact ((operator_mem_metricNames_iff hlimit).mp (by decide +kernel)).2

/-- An accepted aggregation whose operator is taken for a metric. -/
def limitedHits : CheckedQuery where
  text := "limit_ratio(0.5, http_hits)"
  metrics := ["limit_ratio", "http_hits"]

/-- The operator of an accepted aggregation is among the metrics of the query. -/
theorem validate_limitedHits :
    validate limitedHits.text = .ok limitedHits ∧
      ∃ operator ∈ aggregationOperators, operator ∈ limitedHits.metrics ∧
        IsOperator operator.toList ∧ operator.toList ∈ metricNames limitedHits.text.toList :=
  ⟨by decide +kernel, "limit_ratio", by decide +kernel, by decide +kernel, by decide +kernel,
    by decide +kernel⟩

end AskMetrics.Query
