import AskMetrics.Proofs.Query.Check
import AskMetrics.Proofs.Query.Offset
import AskMetrics.Proofs.Query.Outside
import AskMetrics.Proofs.Query.ResizedShape
import AskMetrics.Proofs.Text.Found

/-!
# Groupings belong to aggregations

A grouping keyword of an accepted query stands behind an aggregation operator, as in
`sum by (x) (y)`, or behind the call of one, as in `sum(y) by (x)`. The call is found by the partner
of its last bracket.
-/
namespace AskMetrics.Query

open AskMetrics.Text

/-- The last word of a text, in lower case, is an aggregation operator. -/
def EndsInOperator (s : List Char) : Prop :=
  ∃ x w, s = x ++ w ∧ (∀ u ∈ w, isNameChar u = true) ∧ (∀ u ∈ x.getLast?, isNameChar u = false) ∧
    ∃ operator ∈ aggregationOperators, operator.toList = lowerAscii w

/-- But for blanks, a text ends in an aggregation operator, or in a bracket whose partner stands
behind such an operator and perhaps blanks. -/
def Attached (s : List Char) : Prop :=
  ∃ x y, s = x ++ y ∧ (∀ u ∈ y, isBlank u = true) ∧
    (EndsInOperator x ∨ ∃ z t inner, x = z ++ t ++ '(' :: (inner ++ [')']) ∧
      partner? (z ++ t ++ '(' :: inner) = some (z ++ t).length ∧ (∀ u ∈ t, isBlank u = true) ∧
      EndsInOperator z)

theorem isBlank_of_isAsciiBlank {u : Char} (h : isAsciiBlank u = true) : isBlank u = true := by
  simp only [isAsciiBlank, Bool.or_eq_true, beq_iff_eq] at h
  rcases h with (((rfl | rfl) | rfl) | rfl) | rfl <;> decide

/-! ## The scan backwards -/

/-- The word at the end of a text, read backwards. -/
theorem endsInOperator_of_takeWhile {b : List Char}
    (h : (aggregationOperators.any fun operator =>
      operator.toList == lowerAscii (b.takeWhile isNameChar).reverse) = true) :
    EndsInOperator b.reverse := by
  obtain ⟨operator, hmem, heq⟩ := List.any_eq_true.mp h
  obtain ⟨w, x, hb, hw, hx⟩ := exists_run isNameChar b
  rw [hb, takeWhile_append_eq hw hx] at heq
  refine ⟨x.reverse, w.reverse, by rw [hb, List.reverse_append], ?_, ?_, operator, hmem,
    by simpa using heq⟩
  · simpa using hw
  · simpa using hx

/-- What is before a grouping keyword that belongs to an aggregation. -/
theorem attached_of_belongsToAggregation {b : List Char} (h : belongsToAggregation b = true) :
    Attached b.reverse := by
  obtain ⟨y, near, rfl, hy, hnear⟩ := exists_run isAsciiBlank b
  have hblank : ∀ {x : List Char}, (∀ u ∈ x, isAsciiBlank u = true) →
      ∀ u ∈ x.reverse, isBlank u = true := by
    intro x hx u hu
    exact isBlank_of_isAsciiBlank (hx u (List.mem_reverse.mp hu))
  refine ⟨near.reverse, y.reverse, List.reverse_append, hblank hy, ?_⟩
  rw [belongsToAggregation, dropWhile_append_eq hy hnear] at h
  cases near with
  | nil => simp at h
  | cons u near =>
    by_cases hclose : u = ')'
    · subst hclose
      right
      cases hscan : beforeOpening 0 (')' :: near) with
      | none => simp [hscan] at h
      | some back =>
        obtain ⟨t, z, rfl, ht, hz⟩ := exists_run isAsciiBlank back
        obtain ⟨inner, hinner⟩ : ∃ x, near = x ++ '(' :: (t ++ z) := by
          rw [beforeOpening_closing] at hscan
          exact exists_append_of_beforeOpening hscan
        have hpartner := partner?_eq near
        rw [hscan, hinner] at hpartner
        refine ⟨z.reverse, t.reverse, inner.reverse, ?_, ?_, hblank ht, ?_⟩
        · simp [hinner]
        · simpa [Nat.add_comm] using hpartner
        · simp only [hscan, Option.map_some, dropWhile_append_eq ht hz] at h
          exact endsInOperator_of_takeWhile h
    · left
      refine endsInOperator_of_takeWhile ?_
      simpa [hclose] using h

/-! ## The check -/

section
variable {b a s : List Char} {k : String}

/-- Inside a grouping keyword no word begins. -/
theorem not_covers_of_opens {m : Match} {d : Cursor} (hopens : Opens d.behind)
    (hm : m ∈ findAll [groupingKeyword] s) : ¬ m.Covers d := by
  rintro ⟨x, y, hx, -, hread, hrest⟩
  obtain ⟨b', a', -, hplace, hmatch⟩ := exists_matchAt_of_mem_findAll hm
  rw [hplace] at hread
  rw [matchAt_singleton, Option.map_eq_some_iff] at hmatch
  obtain ⟨e, hfirst, rfl⟩ := hmatch
  obtain ⟨-, k, hk, hkeyword, -⟩ := mem_ends_groupingKeyword.mp (Pattern.mem_ends_of_first hfirst)
  have hsplit : k.toList = x ++ y :=
    List.append_cancel_right (hkeyword.ahead.symm.trans (hread.trans hrest).ahead)
  obtain ⟨r, v, rfl⟩ : ∃ r v, x = r ++ [v] :=
    ⟨x.dropLast, x.getLast hx, (List.dropLast_append_getLast hx).symm⟩
  have hv : isNameChar v = true := isNameChar_of_mem_groupingKeywords k hk v (by simp [hsplit])
  have hclosed := hopens v (by simp [hread.behind])
  rw [isWord_of_isNameChar hv] at hclosed
  exact absurd hclosed (by decide)

/-- What the check on groupings says about a grouping keyword outside curly brackets. -/
theorem attached_of_not_hasDetachedGrouping (hcheck : hasDetachedGrouping s = false)
    (hs : s = b.reverse ++ (k.toList ++ a)) (hk : k ∈ groupingKeywords) (hopens : Opens b)
    (hafter : ∀ u ∈ a.head?, isWord u = false) (hbraces : isInBraces b = false) :
    Attached b.reverse := by
  have hname := isNameChar_of_mem_groupingKeywords k hk
  obtain ⟨c, x, hkx⟩ := List.exists_cons_of_ne_nil (ne_nil_of_mem_groupingKeywords k hk)
  have hc : isNameChar c = true := hname c (by simp [hkx])
  have hend : Cursor.atEdge ⟨k.toList.reverse ++ b, a⟩ = true :=
    atEdge_behind (ne_nil_of_mem_groupingKeywords k hk) hname hafter
  have hfits : ⟨k.toList.reverse ++ b, a⟩ ∈ groupingKeyword.ends ⟨b, k.toList ++ a⟩ := by
    refine mem_ends_groupingKeyword.mpr ⟨?_, k, hk, ⟨rfl, rfl⟩, hend⟩
    rw [hkx]
    exact atEdge_of_opens hopens hc
  obtain ⟨m, hm⟩ : ∃ m, matchAt [groupingKeyword] ⟨b, k.toList ++ a⟩ = some m := by
    rw [← Option.ne_none_iff_exists', matchAt_singleton, ne_eq, Option.map_eq_none_iff,
      Pattern.first_eq_none_iff]
    exact List.ne_nil_of_mem hfits
  rcases mem_findAll_or_covers length_lt_of_matchAt_groupingKeyword hs hm with hmem | ⟨m', hm', hc'⟩
  · have hpassed := List.any_eq_false.mp hcheck m hmem
    rw [(reads_of_matchAt hm).1, hbraces] at hpassed
    exact attached_of_belongsToAggregation (by simpa using hpassed)
  · exact absurd hc' (not_covers_of_opens hopens hm')

end

/-! ## Accepted queries -/

/-- Where no curly bracket waits for its partner, not more of them open than close. -/
theorem isInBraces_eq_false {s b a : List Char} (h : isBalanced s = true) (hs : s = b.reverse ++ a)
    (houtside : waiting .curly b.reverse = []) : isInBraces b = false := by
  rw [← Bool.not_eq_true, isInBraces_iff (hs ▸ h)]
  simpa using houtside

/-- **Groupings in an accepted query belong to aggregations**: each grouping keyword that is a whole
word, outside literals and outside curly brackets, comes behind an aggregation operator or a call of
one. No offset that the check computes lies beyond the text or inside a character. -/
theorem accepted_grouping_attached {raw : String} {q : CheckedQuery}
    (h : validate raw = .ok q ∨ screen raw = .ok (.query q)) :
    (∀ (b a : List Char), ∀ k ∈ groupingKeywords, q.text.toList = b ++ (k.toList ++ a) →
      Quoting.outside.after b = .outside → Opens b.reverse → (∀ u ∈ a.head?, isWord u = false) →
      waiting .curly (mask b) = [] → Attached (mask b)) ∧
      Offset.hasDetachedGrouping (mask q.text.toList) = some false := by
  obtain ⟨hpasses, rfl⟩ := passes_of_accepted h
  rw [CheckedQuery.toList_text_ofText]
  generalize normalize raw.toList = s at hpasses
  have hcheck : hasDetachedGrouping (mask s) = false :=
    hpasses.shapes .groupingWithoutAggregation (by decide)
  refine ⟨fun b a k hk hs houtside hopens hafter hbraces => ?_, ?_⟩
  · have hplain : ∀ u ∈ k.toList, isQuote u = false := fun u hu =>
      isQuote_of_isNameChar (isNameChar_of_mem_groupingKeywords k hk u hu)
    have hmask : mask s = (mask b).reverse.reverse ++ (k.toList ++ maskFrom .outside a) := by
      rw [hs, mask_outside houtside hplain, List.reverse_reverse]
    have hend : ∀ u ∈ (maskFrom .outside a).head?, isWord u = false := by
      rwa [head?_maskFrom_outside]
    have hbraces' := isInBraces_eq_false hpasses.balanced hmask (by simpa using hbraces)
    have hattached := attached_of_not_hasDetachedGrouping hcheck hmask hk
      (opens_mask houtside hopens) hend hbraces'
    rwa [List.reverse_reverse] at hattached
  · rw [Offset.hasDetachedGrouping_eq, hcheck]

/-- A query with its grouping behind the call, and the keyword in a literal as well. -/
def hitsByJob : CheckedQuery where
  text := "sum(rate(http_hits\x7bjob=\"by\"\x7d[5m])) by (job)"
  metrics := ["http_hits"]

theorem accepted_grouping_attached_hitsByJob :
    validate hitsByJob.text = .ok hitsByJob ∧
      Attached (mask "sum(rate(http_hits\x7bjob=\"by\"\x7d[5m])) ".toList) ∧
      Offset.hasDetachedGrouping (mask hitsByJob.text.toList) = some false := by
  have haccepted : validate hitsByJob.text = .ok hitsByJob := by decide +kernel
  obtain ⟨hattached, hoffsets⟩ := accepted_grouping_attached (.inl haccepted)
  have hopens : Opens "sum(rate(http_hits\x7bjob=\"by\"\x7d[5m])) ".toList.reverse :=
    opens_iff_all.mpr (by decide +kernel)
  have hafter : Opens " (job)".toList := opens_iff_all.mpr (by decide)
  exact ⟨haccepted, hattached _ " (job)".toList "by" (by decide) (by decide +kernel)
    (by decide +kernel) hopens hafter (by decide +kernel), hoffsets⟩

end AskMetrics.Query
