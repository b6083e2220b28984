import AskMetrics.Proofs.Query.Attached
import AskMetrics.Proofs.Query.FixedPoint
import AskMetrics.Proofs.Query.Names
import AskMetrics.Proofs.Query.Nested

/-!
# A name as a query

The name of a metric or of a recording rule is a query by itself, and in most cases it is accepted
as it is written. But a name can have colons in it, and two checks take a colon for the end of a
word. A label ends with a colon, so a name that begins like a label loses its first part. And a part
that reads like a grouping keyword counts as one, with no aggregation before it.
-/
namespace AskMetrics.Query

open AskMetrics.Text

/-- A name that can be a metric, as long as a query can be: it is no plain word and no vocabulary. -/
structure BareName (n : List Char) : Prop where
  name : IsName n
  long_enough : minLength ≤ n.length
  short_enough : n.length ≤ maxLength
  not_plain : n.all Char.isAlpha = false
  not_reserved : isReserved n = false

instance (n : List Char) : Decidable (BareName n) :=
  decidable_of_iff (IsName n ∧ minLength ≤ n.length ∧ n.length ≤ maxLength ∧
      n.all Char.isAlpha = false ∧ isReserved n = false)
    ⟨fun ⟨hname, hlong, hshort, hplain, hreserved⟩ => ⟨hname, hlong, hshort, hplain, hreserved⟩,
      fun h => ⟨h.name, h.long_enough, h.short_enough, h.not_plain, h.not_reserved⟩⟩

/-- No part of a name between colons is a grouping keyword. -/
def KeywordFree (n : List Char) : Prop :=
  ∀ part ∈ pieces (· == ':') n, ∀ k ∈ groupingKeywords, part ≠ k.toList

instance (n : List Char) : Decidable (KeywordFree n) :=
  inferInstanceAs (Decidable (∀ part ∈ pieces (· == ':') n, ∀ k ∈ groupingKeywords,
    part ≠ k.toList))

section
variable {s t r n b a w : List Char} {u v : Char}

/-! ## Characters of names -/

/-- A class that has neither name characters nor the colon has no character of identifiers. -/
theorem eq_false_of_isIdentChar {f : Char → Bool} (hname : ∀ u, isNameChar u = true → f u = false)
    (hcolon : f ':' = false) (hu : isIdentChar u = true) : f u = false := by
  rw [isIdentChar_eq, Bool.or_eq_true, beq_iff_eq] at hu
  rcases hu with hu | rfl
  · exact hname u hu
  · exact hcolon

theorem isBlank_of_isIdentChar (hu : isIdentChar u = true) : isBlank u = false :=
  eq_false_of_isIdentChar (fun _ => isBlank_of_isNameChar) (by decide) hu

theorem isQuote_of_isIdentChar (hu : isIdentChar u = true) : isQuote u = false :=
  eq_false_of_isIdentChar (fun _ => isQuote_of_isNameChar) (by decide) hu

theorem ne_of_isIdentChar (hu : isIdentChar u = true) (hv : isIdentChar v = false) : u ≠ v := by
  rintro rfl
  simp [hu] at hv

theorem isStop_of_isIdentChar (hu : isIdentChar u = true) : isStop u = false := by
  simp [isStop, ne_of_isIdentChar hu (v := '.') (by decide),
    ne_of_isIdentChar hu (v := ';') (by decide), ne_of_isIdentChar hu (v := ',') (by decide)]

theorem not_bracket_of_isIdentChar (hu : isIdentChar u = true) (k : Bracket) :
    u ≠ k.opening ∧ u ≠ k.closing := by
  cases k <;> exact ⟨ne_of_isIdentChar hu (by decide), ne_of_isIdentChar hu (by decide)⟩

/-! ## Normalizing -/

theorem trim_of_isIdentChar (hs : ∀ u ∈ s, isIdentChar u = true) : trim s = s :=
  trim_eq (fun _ hu => isBlank_of_isIdentChar (hs _ (List.mem_of_mem_head? hu)))
    fun _ hu => isBlank_of_isIdentChar (hs _ (List.mem_of_mem_getLast? hu))

theorem collapseBlanks_of_isIdentChar (hs : ∀ u ∈ s, isIdentChar u = true) :
    collapseBlanks s = s := by
  by_cases hne : s = []
  · rw [hne]
    rfl
  · rw [collapseBlanks, words_eq_singleton hne fun u hu => isBlank_of_isIdentChar (hs u hu)]
    rfl

/-- Of a text that has characters of identifiers only, nothing but labels is left out. A label may
stand before another one, up to three of them. -/
theorem normalize_of_isIdentChar (hs : ∀ u ∈ s, isIdentChar u = true) :
    normalize s = dropLabel (dropLabel (dropLabel s)) := by
  have hlabel : ∀ {t}, (∀ u ∈ t, isIdentChar u = true) → ∀ u ∈ dropLabel t, isIdentChar u = true :=
    fun ht u hu => ht u ((infix_dropLabel _).subset hu)
  have hfences : dropFences s = s := by
    refine replaceAll_eq_self _ (not_infix_fenceMark_iff.mp fun hin => ?_)
    exact absurd (hs '\x60' (hin.subset (by simp [fenceMark]))) (by decide)
  have hline : ∀ {t}, (∀ u ∈ t, isIdentChar u = true) → firstLine t = t := fun ht => by
    rw [firstLine_eq_trim fun hmem => absurd (ht '\n' hmem) (by decide), trim_of_isIdentChar ht]
  have hquotes : ∀ {t}, (∀ u ∈ t, isIdentChar u = true) → dropQuotes t = t := fun ht => by
    rw [dropQuotes_eq_trim (fun u hu => isQuote_of_isIdentChar (ht u (List.mem_of_mem_head? hu)))
      fun u hu => isQuote_of_isIdentChar (ht u (List.mem_of_mem_getLast? hu)),
      trim_of_isIdentChar ht]
  have hstop : ∀ {t}, (∀ u ∈ t, isIdentChar u = true) → dropStop t = t := fun ht =>
    dropLast_eq_self fun u hu => isStop_of_isIdentChar (ht u (List.mem_of_mem_getLast? hu))
  rw [normalize, hfences, trim_of_isIdentChar hs, hline (hlabel hs), hquotes (hlabel (hlabel hs)),
    hstop (hlabel (hlabel (hlabel hs))), collapseBlanks_of_isIdentChar (hlabel (hlabel (hlabel hs)))]

/-- What is left of a name behind a label. -/
theorem normalize_of_labelled (hs : ∀ u ∈ s, isIdentChar u = true) (h : Labelled s r) :
    normalize s = dropLabel (dropLabel r) := by
  have hr : ∀ u ∈ r, isIdentChar u = true := by
    obtain ⟨w, y, -, -, rfl⟩ := h
    exact fun u hu => hs u (by simp [hu])
  rw [normalize_of_isIdentChar hs, dropLabel_of_labelled h, trim_of_isIdentChar hr]

theorem normalize_eq_self_iff_of_isIdentChar (hne : s ≠ []) (hs : ∀ u ∈ s, isIdentChar u = true) :
    normalize s = s ↔ ∀ r, ¬ Labelled s r := by
  constructor
  · intro h
    exact findFirst_label_eq_none_iff.mp ((normalize_eq_self_iff hne).mp h).no_label
  · intro h
    rw [normalize_of_isIdentChar hs, dropLabel_of_not_labelled h, dropLabel_of_not_labelled h,
      dropLabel_of_not_labelled h]

/-! ## The checks -/

/-- A word between colons is a part of the name. -/
theorem mem_pieces_of_colons (hw : ∀ u ∈ w, u ≠ ':') (hb : ∀ u ∈ b.head?, u = ':')
    (ha : ∀ u ∈ a.head?, u = ':') : w ∈ pieces (· == ':') (b.reverse ++ (w ++ a)) := by
  have hword : w ∈ pieces (· == ':') (w ++ a) := by
    have hself : pieces (· == ':') w = [w] := pieces_eq_singleton (by simpa using hw)
    cases a with
    | nil => simp [hself]
    | cons v a =>
      obtain rfl : v = ':' := ha v rfl
      rw [pieces_append_cons (by simp), hself]
      exact .head _
  cases b with
  | nil => exact hword
  | cons v b =>
    obtain rfl : v = ':' := hb v rfl
    rw [List.reverse_cons, List.append_assoc, List.singleton_append, pieces_append_cons (by simp)]
    exact List.mem_append_right _ hword

/-- Beside an edge of a word there is no character of identifiers but a colon. -/
theorem eq_colon_of_isIdentChar (hu : isIdentChar u = true) (hname : isNameChar u = false) :
    u = ':' := by
  simpa [isIdentChar_eq, hname] using hu

/-- Without a keyword between colons there is nothing in a name that a rule about shapes looks
at. -/
theorem soundText_of_isIdentChar (hs : ∀ u ∈ s, isIdentChar u = true) (hfree : KeywordFree s) :
    SoundText s := by
  rintro b u a rfl
  have hall : ∀ v ∈ u :: a, isIdentChar v = true := fun v hv => hs v (List.mem_append_right _ hv)
  obtain ⟨x, r, hsplit, hx, hr⟩ := exists_run isNameChar (u :: a)
  have hrest : ∀ v ∈ r.head?, isIdentChar v = true := fun v hv =>
    hall v (hsplit ▸ List.mem_append_right x (List.mem_of_mem_head? hv))
  refine ⟨fun r hr => ?_, fun hedge hkeyword => ?_, fun _ _ => .inl ?_⟩
  · obtain ⟨rfl, -⟩ := List.cons.inj hr
    exact absurd (hall ']' (.head _)) (by decide)
  · obtain ⟨k, hk, htake⟩ := hkeyword
    rw [hsplit, takeWhile_append_eq hx hr] at htake
    have hnext : ∀ v ∈ r.head?, v = ':' := fun v hv =>
      eq_colon_of_isIdentChar (hrest v hv) (hr v hv)
    have hu : isNameChar u = true := by
      obtain ⟨v, x, rfl⟩ := List.exists_cons_of_ne_nil (htake ▸ ne_nil_of_mem_groupingKeywords k hk)
      obtain ⟨rfl, -⟩ := List.cons.inj hsplit
      exact hx u (.head _)
    have hopens := opens_of_atEdge hedge (List.head?_cons ..) hu
    have hbefore : ∀ v ∈ b.head?, v = ':' := fun v hv =>
      eq_colon_of_isIdentChar (hs v (by simp [List.mem_of_mem_head? hv])) (hopens.not_nameChar v hv)
    have hcolon : ∀ v ∈ x, v ≠ ':' := fun v hv => ne_of_isNameChar (hx v hv) (by decide)
    have hpart := mem_pieces_of_colons hcolon hbefore hnext
    rw [← hsplit] at hpart
    exact absurd htake (hfree x hpart k hk)
  · rw [hsplit, dropWhile_append_eq hx hr]
    exact fun v hv => isBlank_of_isIdentChar (hrest v hv)

theorem mask_of_isIdentChar (hs : ∀ u ∈ s, isIdentChar u = true) : mask s = s := by
  have hmask := maskFrom_outside_append (a := []) fun u hu => isQuote_of_isIdentChar (hs u hu)
  simpa [mask, maskFrom] using hmask

namespace BareName

/-- A name without a keyword between colons passes all checks. -/
theorem passes (h : BareName n) (hfree : KeywordFree n) : Passes n where
  long_enough := h.long_enough
  closed := leavesOpen_eq_false_iff.mpr
    ⟨n, skeleton_self fun u hu => isQuote_of_isIdentChar (h.name.isIdentChar u hu)⟩
  shapes rule _ := by
    rw [mask_of_isIdentChar h.name.isIdentChar]
    exact breaks_eq_false (soundText_of_isIdentChar h.name.isIdentChar hfree) rule
  balanced := by
    have hnested : Nested n :=
      .of_forall fun u hu => not_bracket_of_isIdentChar (h.name.isIdentChar u hu)
    have hcloses := hnested.closes_append .zero []
    rw [List.append_nil] at hcloses
    rw [mask_of_isIdentChar h.name.isIdentChar, isBalanced, hcloses]
    rfl
  identifier := by
    obtain ⟨hu, -⟩ := h.name
    simp [hasIdentifier, hu]
  short_enough := h.short_enough

/-- A name with a keyword between colons does not: nothing before the keyword is an aggregation. -/
theorem not_passes (h : BareName n) (hkeyword : ¬ KeywordFree n) : ¬ Passes n := by
  intro hpasses
  simp only [KeywordFree, not_forall, not_not] at hkeyword
  obtain ⟨_, hpart, k, hk, rfl⟩ := hkeyword
  obtain ⟨b, a, hn, hb, ha⟩ := exists_of_mem_pieces hpart
  simp only [beq_iff_eq] at hb ha
  have hbefore : ∀ u ∈ b, isIdentChar u = true := fun u hu =>
    h.name.isIdentChar u (hn ▸ List.mem_append_left _ (List.mem_reverse.mpr hu))
  have hcolon : ∀ {c : List Char}, (∀ u ∈ c.head?, u = ':') → ∀ u ∈ c.head?, isWord u = false := by
    intro c hc u hu
    rw [hc u hu]
    decide
  have hbraces : isInBraces b = false := by
    have hopen : '\x7b' ∉ b := fun hmem => absurd (hbefore _ hmem) (by decide)
    simp [isInBraces, List.count_eq_zero_of_not_mem hopen]
  have hcheck := hpasses.shapes .groupingWithoutAggregation (by decide)
  rw [mask_of_isIdentChar h.name.isIdentChar] at hcheck
  obtain ⟨x, y, hxy, hy, hends⟩ :=
    attached_of_not_hasDetachedGrouping hcheck hn hk (hcolon hb) (hcolon ha) hbraces
  have hmem : ∀ u ∈ x ++ y, isIdentChar u = true := fun u hu =>
    hbefore u (List.mem_reverse.mp (hxy ▸ hu))
  obtain rfl : y = [] := List.eq_nil_iff_forall_not_mem.mpr fun u hu => by
    have hblank := isBlank_of_isIdentChar (hmem u (List.mem_append_right x hu))
    simp [hy u hu] at hblank
  rcases hends with ⟨z, w, rfl, hw, -, operator, hoperator, hlower⟩ | ⟨z, t, inner, rfl, -⟩
  · have hlong : ∀ operator ∈ aggregationOperators, operator.toList ≠ [] := by decide
    have hne : w ≠ [] := by
      rintro rfl
      exact hlong operator hoperator hlower
    have hlast : (z ++ w).getLast? = b.head? := by
      rw [← List.getLast?_reverse, hxy, List.append_nil]
    rw [List.getLast?_append_of_ne_nil _ hne, List.getLast?_eq_some_getLast hne] at hlast
    have hname := hw _ (List.getLast_mem hne)
    rw [hb _ hlast.symm] at hname
    exact absurd hname (by decide)
  · exact absurd (hmem ')' (by simp)) (by decide)

end BareName

/-! ## Metric names -/

/-- There is nothing to blank in a name, and it is the one name in it. -/
theorem metricNames_of_isName (h : IsName n) (hlike : isMetricLike n = true) :
    metricNames n = [n] := by
  have hall := h.isIdentChar
  have hliterals : blankOut literalPattern n = n :=
    (Blanks.keep (along_of_next fun u hu _ _ =>
      ends_literalPattern (isQuote_of_isIdentChar (hall u hu)))).blankOut_eq
  have hmatchers : blankOut matchersPattern n = n :=
    (Blanks.keep (along_of_next fun u hu _ _ =>
      ends_matchersPattern (ne_of_isIdentChar (hall u hu) (by decide)))).blankOut_eq
  have hlists : blankOut labelListPattern n = n := by
    refine Blanks.blankOut_eq (.keep (along_iff_forall.mpr ?_))
    rintro y u z rfl
    refine depicts_labelListPattern.ends_eq_nil_iff.mpr fun w hw hpre => ?_
    obtain ⟨-, -, -, -⟩ := hw
    rw [List.append_nil] at hpre
    have hbracket := hall '(' (List.mem_append_right y (hpre.subset (by simp)))
    exact absurd hbracket (by decide)
  have hscrub : scrub n = n := by rw [scrub, hliterals, hmatchers, hlists]
  have hcollects : Collects [] (scrub n) [] [n] := by
    rw [hscrub]
    obtain ⟨hu, hx⟩ := h
    exact .metric hu hx ends_nil (by simp) hlike
  rw [hcollects.metricNames_eq]
  rfl

end

/-! ## Names as queries -/

/-- A name without a keyword between colons is accepted as it is written, and as the one metric of
the query, unless it begins with a label. Then the label is left out, and two more behind it, and
what is left is checked instead. -/
theorem validate_bareName {n : List Char} (h : BareName n) :
    (KeywordFree n → (validate (.ofList n) = .ok ⟨.ofList n, [.ofList n]⟩ ↔ ∀ r, ¬ Labelled n r)) ∧
      ∀ r, Labelled n r → validate (.ofList n) = checkNormal (dropLabel (dropLabel r)) := by
  have hall := h.name.isIdentChar
  have hself := normalize_eq_self_iff_of_isIdentChar h.name.ne_nil hall
  refine ⟨fun hfree => ?_, fun r hr => ?_⟩
  · rw [validate_eq_ok_iff, String.toList_ofList, ← hself]
    constructor
    · rintro ⟨-, htext⟩
      have hofList := congrArg CheckedQuery.text htext
      exact (String.ofList_inj.mp hofList).symm
    · intro hnormal
      have hlike : isMetricLike n = true := by simp [isMetricLike, h.not_reserved, h.not_plain]
      rw [hnormal, CheckedQuery.ofText, metricNames_of_isName h.name hlike]
      exact ⟨h.passes hfree, rfl⟩
  · rw [validate, String.toList_ofList, normalize_of_labelled hall hr]

/-- The name of a recording rule is a query. -/
theorem validate_bareName_recordingRule :
    validate "job:node_load1:rate5m" =
      .ok ⟨"job:node_load1:rate5m", ["job:node_load1:rate5m"]⟩ := by
  have hname : BareName "job:node_load1:rate5m".toList := by decide +kernel
  have hlabel := findFirst_label_eq_none_iff.mp
    (by decide +kernel : findFirst [label] "job:node_load1:rate5m".toList = none)
  exact ((validate_bareName hname).1 (by decide +kernel)).mpr hlabel

/-- A name that begins with a label is accepted without it, and one with a keyword between colons is
not accepted. -/
theorem validate_bareName_ne :
    BareName "query:node_load1".toList ∧ BareName "job:by:rate5m".toList ∧
      validate "query:node_load1" = .ok ⟨"node_load1", ["node_load1"]⟩ ∧
      validate "job:by:rate5m" = .error ⟨.groupingWithoutAggregation, "job:by:rate5m"⟩ := by
  decide +kernel

/-- A name with a keyword between colons is turned away, unless it begins with a label. -/
theorem validate_bareName_of_keyword {n : List Char} (h : BareName n) (hkeyword : ¬ KeywordFree n)
    (hlabel : ∀ r, ¬ Labelled n r) : ∃ v, validate (.ofList n) = .error v := by
  have hself := (normalize_eq_self_iff_of_isIdentChar h.name.ne_nil h.name.isIdentChar).mpr hlabel
  rw [validate, String.toList_ofList, hself]
  exact checkNormal_of_not_passes (h.not_passes hkeyword)

end AskMetrics.Query
