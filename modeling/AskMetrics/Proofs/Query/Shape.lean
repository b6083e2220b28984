import AskMetrics.Query.Shape
import AskMetrics.Proofs.Text.Word

/-!
# Texts without a forbidden shape

Each rule about shapes says what must not follow an operator, a keyword or a range. `Sound` says
what does follow them in a text that keeps the rules, at one place of the text: that a range is
the last argument of a call, that a grouping has its labels and its aggregation, and that an
operator with blanks after it has a grouping and a body in round brackets.
-/
namespace AskMetrics.Query

open AskMetrics.Text

/-- The operators that must not stand bare. -/
def checkedOperators : List String :=
  ["sum", "avg", "min", "max", "count", "stddev", "stdvar", "topk", "bottomk", "quantile"]

/-- The keywords that open a grouping. -/
def groupingKeywords : List String := ["by", "without"]

/-- What a text without a forbidden shape looks like at a place with `b` before it, read backwards,
and `a` after it. -/
structure Sound (b a : List Char) : Prop where
  /-- A range is the last argument of a call. -/
  range : ∀ r, a = ']' :: r → ∃ s, r = ')' :: s
  /-- A grouping keyword has its labels and belongs to an aggregation. -/
  keyword : Cursor.atEdge ⟨b, a⟩ = true →
    (∃ k ∈ groupingKeywords, a.takeWhile isNameChar = k.toList) →
    (∃ s, a.dropWhile isNameChar = ' ' :: '(' :: s) ∧ belongsToAggregation b = true
  /-- An operator with blanks after it has a grouping with labels and a body. -/
  operator : Cursor.atEdge ⟨b, a⟩ = true →
    (∃ w ∈ checkedOperators, a.takeWhile isNameChar = w.toList) →
    (∀ u ∈ (a.dropWhile isNameChar).head?, isBlank u = false) ∨
      ∃ k ∈ groupingKeywords, ∃ x s, (∀ u ∈ x, (u != ')') = true) ∧
        a.dropWhile isNameChar = ' ' :: (k.toList ++ ' ' :: '(' :: (x ++ ')' :: ' ' :: '(' :: s))

/-! ## The words that are looked for -/

theorem isNameChar_of_mem_checkedOperators :
    ∀ w ∈ checkedOperators, ∀ u ∈ w.toList, isNameChar u = true := by
  have hall : ∀ w ∈ checkedOperators, w.toList.all isNameChar = true := by decide
  exact fun w hw => List.all_eq_true.mp (hall w hw)

theorem isNameChar_of_mem_groupingKeywords :
    ∀ k ∈ groupingKeywords, ∀ u ∈ k.toList, isNameChar u = true := by
  have hall : ∀ k ∈ groupingKeywords, k.toList.all isNameChar = true := by decide
  exact fun k hk => List.all_eq_true.mp (hall k hk)

theorem isBlank_of_mem_groupingKeywords :
    ∀ k ∈ groupingKeywords, ∀ u ∈ k.toList, isBlank u = false :=
  fun k hk u hu => isBlank_of_isNameChar (isNameChar_of_mem_groupingKeywords k hk u hu)

theorem ne_nil_of_mem_groupingKeywords : ∀ k ∈ groupingKeywords, k.toList ≠ [] := by
  decide

theorem eq_of_mem_groupingKeywords {k : String} (hk : k ∈ groupingKeywords) :
    k = "by" ∨ k = "without" := by
  simpa [groupingKeywords] using hk

/-- A keyword begins with a letter, so what is cut off before it holds the blanks before it. -/
theorem head?_keyword_append {k : String} (hk : k ∈ groupingKeywords) (a : List Char) :
    ∀ u ∈ (k.toList ++ a).head?, isBlank u = false := by
  rcases eq_of_mem_groupingKeywords hk with rfl | rfl <;> simp <;> decide

section
variable {b a : List Char} {k w : String}

theorem Sound.keyword_follows (h : Sound b a) (hedge : Cursor.atEdge ⟨b, a⟩ = true)
    (hk : k ∈ groupingKeywords) {r : List Char} (ha : a = k.toList ++ r)
    (hr : ∀ u ∈ r.head?, isNameChar u = false) :
    (∃ s, r = ' ' :: '(' :: s) ∧ belongsToAggregation b = true := by
  have hname := isNameChar_of_mem_groupingKeywords k hk
  have h' := h.keyword hedge ⟨k, hk, by rw [ha, takeWhile_append_eq hname hr]⟩
  rwa [ha, dropWhile_append_eq hname hr] at h'

/-- What follows an operator with a blank after it. -/
theorem Sound.operator_follows (h : Sound b a) (hedge : Cursor.atEdge ⟨b, a⟩ = true)
    (hw : w ∈ checkedOperators) {u : Char} {r : List Char} (ha : a = w.toList ++ u :: r)
    (hu : isBlank u = true) :
    ∃ k ∈ groupingKeywords, ∃ x s, (∀ u ∈ x, (u != ')') = true) ∧
      r = k.toList ++ ' ' :: '(' :: (x ++ ')' :: ' ' :: '(' :: s) := by
  have hname := isNameChar_of_mem_checkedOperators w hw
  have hr : ∀ v ∈ (u :: r).head?, isNameChar v = false := by
    simpa using isNameChar_of_isBlank hu
  have h' := h.operator hedge ⟨w, hw, by rw [ha, takeWhile_append_eq hname hr]⟩
  rw [ha, dropWhile_append_eq hname hr] at h'
  rcases h' with hnot | ⟨k, hk, x, s, hx, heq⟩
  · simp [hnot u rfl] at hu
  · exact ⟨k, hk, x, s, hx, (List.cons.inj heq).2⟩

/-- Blanks and then a keyword, in a text that begins with a keyword: there are no blanks. -/
theorem eq_nil_of_blanks_append {x r s : List Char} (hk : k ∈ groupingKeywords)
    (hx : ∀ u ∈ x, isBlank u = true) (hr : ∀ u ∈ r.head?, isBlank u = false)
    (h : x ++ r = k.toList ++ s) : x = [] ∧ r = k.toList ++ s :=
  eq_of_append_eq_append (y := []) hx (by simp) hr (head?_keyword_append hk s) h

end

/-! ## The rules, one by one -/

section
variable {s : List Char}

/-- `s` is sound at each place before one of its characters. -/
def SoundText (s : List Char) : Prop :=
  ∀ b u a, s = b.reverse ++ u :: a → Sound b (u :: a)

theorem SoundText.sound (h : SoundText s) {b a : List Char} (hs : s = b.reverse ++ a)
    (ha : a ≠ []) : Sound b a := by
  obtain ⟨u, a, rfl⟩ := List.exists_cons_of_ne_nil ha
  exact h b u a hs

theorem occurs_rangeThenGrouping (h : SoundText s) : occurs rangeThenGrouping s = false := by
  rw [occurs_eq_false_iff]
  intro b a hs d hd
  simp only [rangeThenGrouping, Pattern.sequence_cons_cons, Pattern.sequence_singleton,
    Pattern.mem_ends_andThen, Pattern.mem_ends_char, Pattern.mem_ends_blanks,
    Pattern.mem_ends_literal] at hd
  obtain ⟨d₁, hrange, d₂, ⟨x, hx, hblanks⟩, d₃, hby, -⟩ := hd
  have ha : a = ']' :: (x ++ ('b' :: 'y' :: d₃.ahead)) := by
    simpa using (hrange.trans (hblanks.trans hby)).ahead
  obtain ⟨t, ht⟩ := (h.sound hs (by simp [ha])).range _ ha
  cases x with
  | nil => simp at ht
  | cons u x =>
    obtain rfl : u = ')' := by simpa using (List.cons.inj ht).1
    exact absurd (hx ')' (.head _)) (by decide)

/-- A keyword is not followed by a square bracket. -/
theorem occurs_keywordInBrackets (h : SoundText s) {k : String} (hk : k ∈ groupingKeywords) :
    occurs (.sequence [.edge, .literal k, .blanks, .char '[']) s = false := by
  rw [occurs_eq_false_iff]
  intro b a hs d hd
  simp only [Pattern.sequence_cons_cons, Pattern.sequence_singleton, Pattern.mem_ends_andThen,
    Pattern.mem_ends_edge, Pattern.mem_ends_char, Pattern.mem_ends_blanks,
    Pattern.mem_ends_literal] at hd
  obtain ⟨d₀, ⟨hedge, rfl⟩, d₁, hword, d₂, ⟨x, hx, hblanks⟩, hbracket⟩ := hd
  have ha : a = k.toList ++ (x ++ '[' :: d.ahead) := by
    simpa using (hword.trans (hblanks.trans hbracket)).ahead
  have hr : ∀ u ∈ (x ++ '[' :: d.ahead).head?, isNameChar u = false :=
    not_nameChar_blanks_append hx (by decide)
  have hne : a ≠ [] := by
    simp [ha]
  obtain ⟨⟨t, ht⟩, -⟩ := (h.sound hs hne).keyword_follows hedge hk ha hr
  obtain _ | ⟨u, _ | ⟨v, x⟩⟩ := x
  · simp at ht
  · simp at ht
  · obtain ⟨-, rfl, -⟩ := by simpa using ht
    exact absurd (hx '(' (.tail _ (.head _))) (by decide)

/-- Two readings of a text as a grouping with blanks after it agree on what comes then. -/
theorem body_of_grouping_eq {k k' : String} {y z t r x a : List Char} (hk : k ∈ groupingKeywords)
    (hk' : k' ∈ groupingKeywords) (hy : ∀ v ∈ y, isBlank v = true)
    (hz : ∀ v ∈ z, (v != ')') = true) (ht : ∀ v ∈ t, isBlank v = true)
    (hr : ∀ v ∈ r.head?, isBlank v = false) (hx : ∀ v ∈ x, (v != ')') = true)
    (h : k.toList ++ (y ++ '(' :: (z ++ ')' :: (t ++ r))) =
      k'.toList ++ ' ' :: '(' :: (x ++ ')' :: ' ' :: '(' :: a)) : r = '(' :: a := by
  -- piece by piece: keyword, blanks, labels, blanks
  obtain ⟨-, h⟩ := eq_of_append_eq_append (isNameChar_of_mem_groupingKeywords k hk)
    (isNameChar_of_mem_groupingKeywords k' hk') (not_nameChar_blanks_append hy (by decide))
    (by simpa using by decide) h
  obtain ⟨-, h⟩ := eq_of_append_eq_append (p := isBlank) (y := [' ']) hy
    (by simpa using by decide) (by simpa using by decide) (by simpa using by decide) h
  obtain ⟨-, h⟩ := eq_of_append_eq_append (p := fun v => v != ')') hz hx (by simp) (by simp)
    (List.cons.inj h).2
  exact (eq_of_append_eq_append (p := isBlank) (y := [' ']) ht (by simpa using by decide) hr
    (by simpa using by decide) (List.cons.inj h).2).2

/-- What fits is an operator with blanks and a grouping after it, and then no round bracket. -/
theorem exists_grouping_of_mem_ends {b a : List Char} {d : Cursor}
    (h : d ∈ groupedWithoutBody.ends ⟨b, a⟩) :
    Cursor.atEdge ⟨b, a⟩ = true ∧ ∃ w ∈ checkedOperators, ∃ u x r, isBlank u = true ∧
      (∀ v ∈ x, isBlank v = true) ∧ a = w.toList ++ u :: (x ++ r) ∧
      ∃ k ∈ groupingKeywords, ∃ y z t r', (∀ v ∈ y, isBlank v = true) ∧
        (∀ v ∈ z, (v != ')') = true) ∧ (∀ v ∈ t, isBlank v = true) ∧
        (∀ v ∈ r'.head?, isBlank v = false ∧ v ≠ '(') ∧
        r = k.toList ++ (y ++ '(' :: (z ++ ')' :: (t ++ r'))) := by
  simp only [groupedWithoutBody, anyWord, Pattern.sequence_cons_cons, Pattern.sequence_singleton,
    Pattern.mem_ends_andThen, Pattern.mem_ends_edge, Pattern.mem_ends_oneOf_literal,
    Pattern.mem_ends_someBlanks, Pattern.mem_ends_char, Pattern.mem_ends_blanks,
    Pattern.mem_ends_many_one, Pattern.mem_ends_orElse, Pattern.mem_ends_one,
    Pattern.mem_ends_atEnd] at h
  obtain ⟨d₀, ⟨hedge, rfl⟩, d₁, ⟨w, hw, hword⟩, d₂, ⟨u, x, hu, hx, hblanks⟩, d₃,
    ⟨k, hk, hkeyword⟩, d₄, ⟨y, hy, hgap⟩, d₅, hopen, d₆, ⟨z, hz, hlabels⟩, d₇, hclose, d₈,
    ⟨t, ht, htail⟩, hlast⟩ := h
  have hsub : ∀ w ∈ ["sum", "avg", "min", "max", "count"], w ∈ checkedOperators := by decide
  refine ⟨hedge, w, hsub w hw, u, x, d₂.ahead, hu, hx, ?_, k, hk, y, z, t, d₈.ahead, hy, hz, ht,
    ?_, ?_⟩
  · simpa using (hword.trans hblanks).ahead
  · rcases hlast with ⟨v, hv, hread⟩ | ⟨hend, -⟩
    · rw [hread.ahead]
      simp_all
    · simp [hend]
  · have hrest := hopen.trans (hlabels.trans (hclose.trans htail))
    simpa using (hkeyword.trans (hgap.trans hrest)).ahead

/-- A grouping between an operator and its body is followed by a round bracket. -/
theorem occurs_groupedWithoutBody (h : SoundText s) : occurs groupedWithoutBody s = false := by
  rw [occurs_eq_false_iff]
  intro b a hs d hd
  obtain ⟨hedge, w, hw, u, x, r, hu, hx, ha, k, hk, y, z, t, r', hy, hz, ht, hlast, hr⟩ :=
    exists_grouping_of_mem_ends hd
  obtain ⟨k', hk', x', a', hx', heq⟩ :=
    (h.sound hs (by simp [ha])).operator_follows hedge hw ha hu
  have hstart : ∀ v ∈ r.head?, isBlank v = false := by
    rw [hr]
    exact head?_keyword_append hk _
  obtain ⟨-, hgrouping⟩ := eq_nil_of_blanks_append hk' hx hstart heq
  rw [hr] at hgrouping
  have hbody : r' = '(' :: a' :=
    body_of_grouping_eq hk hk' hy hz ht (fun v hv => (hlast v hv).1) hx' hgrouping
  exact (hlast '(' (by simp [hbody])).2 rfl

/-- A range is not followed by an operator. -/
theorem occurs_rangeThenOperator (h : SoundText s) : occurs rangeThenOperator s = false := by
  rw [occurs_eq_false_iff]
  intro b a hs d hd
  simp only [rangeThenOperator, Pattern.sequence_cons_cons, Pattern.sequence_singleton,
    Pattern.mem_ends_andThen, Pattern.mem_ends_char, Pattern.mem_ends_some_one,
    Pattern.mem_ends_blanks, Pattern.mem_ends_one] at hd
  obtain ⟨d₁, hopen, d₂, ⟨u, x, -, -, hinside⟩, d₃, hclose, d₄, ⟨t, ht, htail⟩, v, hv, hread⟩ := hd
  have hplace : s = (b.reverse ++ '[' :: u :: x) ++ ']' :: (t ++ v :: d.ahead) := by
    have ha := (hopen.trans (hinside.trans (hclose.trans (htail.trans hread)))).ahead
    rw [hs]
    simpa using ha
  obtain ⟨r, hr⟩ := (h.sound (b := (b.reverse ++ '[' :: u :: x).reverse) (by simpa using hplace)
    (by simp)).range _ rfl
  cases t with
  | nil =>
    obtain ⟨rfl, -⟩ := by simpa using hr
    exact absurd hv (by decide)
  | cons w t =>
    obtain ⟨rfl, -⟩ := by simpa using hr
    exact absurd (ht ')' (.head _)) (by decide)

/-- The word after an operator and blanks is a grouping keyword. -/
theorem hasBareAggregation_eq_false (h : SoundText s) : hasBareAggregation s = false := by
  rw [hasBareAggregation, List.any_eq_false]
  intro m hm
  obtain ⟨b, a, hs, -, hmatch⟩ := exists_matchAt_of_mem_findAll hm
  obtain ⟨d, hd, hfirst, hpart⟩ := exists_first_of_matchAt_pair hmatch
  simp only [anyWord, Pattern.sequence_cons_cons, Pattern.sequence_singleton,
    Pattern.mem_ends_andThen, Pattern.mem_ends_edge, Pattern.mem_ends_oneOf_literal,
    Pattern.mem_ends_someBlanks] at hd
  obtain ⟨d₀, ⟨hedge, rfl⟩, d₁, ⟨w, hw, hword⟩, u, x, hu, hx, hblanks⟩ := hd
  have ha : a = w.toList ++ u :: (x ++ d.ahead) := by
    simpa using (hword.trans hblanks).ahead
  have hstart : ∀ v ∈ d.ahead.head?, isBlank v = false := by
    obtain ⟨v, y, hv, -, hread⟩ := Pattern.mem_ends_some_one.mp (Pattern.mem_ends_of_first hfirst)
    rw [hread.ahead]
    simpa using hv
  obtain ⟨k, hk, x', r, -, heq⟩ := (h.sound hs (by simp [ha])).operator_follows hedge hw ha hu
  obtain ⟨-, hahead⟩ := eq_nil_of_blanks_append hk hx hstart heq
  -- the second part takes all of the keyword and stops at the blank after it
  have hkeyword : m.part 1 = k.toList := by
    obtain ⟨b', a'⟩ := d
    obtain rfl : a' = k.toList ++ ' ' :: '(' :: (x' ++ ')' :: ' ' :: '(' :: r) := hahead
    have hlongest := Pattern.first_some_one (b := b') (ne_nil_of_mem_groupingKeywords k hk)
      (f := fun u => !isBlank u) (a := ' ' :: '(' :: (x' ++ ')' :: ' ' :: '(' :: r))
      (by simpa using isBlank_of_mem_groupingKeywords k hk) (by simp; decide)
    obtain hstop := Option.some.inj (hfirst.symm.trans hlongest)
    rw [hpart, hstop, (Cursor.reads_mk b' k.toList _).upTo]
  rw [hkeyword]
  rcases eq_of_mem_groupingKeywords hk with rfl | rfl <;> decide

/-- Each grouping keyword belongs to an aggregation. -/
theorem hasDetachedGrouping_eq_false (h : SoundText s) : hasDetachedGrouping s = false := by
  rw [hasDetachedGrouping, List.any_eq_false]
  intro m hm
  obtain ⟨b, a, hs, hstart, hmatch⟩ := exists_matchAt_of_mem_findAll hm
  rw [matchAt_singleton, Option.map_eq_some_iff] at hmatch
  obtain ⟨d, hfirst, -⟩ := hmatch
  have hd := Pattern.mem_ends_of_first hfirst
  simp only [groupingKeyword, anyWord, Pattern.sequence_cons_cons, Pattern.sequence_singleton,
    Pattern.mem_ends_andThen, Pattern.mem_ends_edge, Pattern.mem_ends_oneOf_literal] at hd
  obtain ⟨d₀, ⟨hedge, rfl⟩, d₁, ⟨k, hk, hword⟩, hend, rfl⟩ := hd
  have hne := ne_nil_of_mem_groupingKeywords k hk
  have hafter : ∀ u ∈ d.ahead.head?, isNameChar u = false := by
    have hbehind : d.behind = k.toList.reverse ++ b := hword.behind
    refine not_nameChar_of_atEdge (b := b) hne (isNameChar_of_mem_groupingKeywords k hk) ?_
    rwa [← hbehind]
  have ha : a = k.toList ++ d.ahead := hword.ahead
  have hbelongs := ((h.sound hs (by simp [ha, hne])).keyword_follows hedge hk ha hafter).2
  simp [hstart, hbelongs]

/-- A text that is sound at each place breaks no rule about shapes. -/
theorem breaks_eq_false (h : SoundText s) (rule : Rule) : breaks s rule = false := by
  cases rule with
  | rangeBeforeGrouping => exact occurs_rangeThenGrouping h
  | groupingBeforeRange => exact occurs_keywordInBrackets h (k := "by") (by decide)
  | complementGroupingBrackets => exact occurs_keywordInBrackets h (k := "without") (by decide)
  | aggregationBodyWithoutParens => exact occurs_groupedWithoutBody h
  | bareAggregation => exact hasBareAggregation_eq_false h
  | groupingWithoutAggregation => exact hasDetachedGrouping_eq_false h
  | rangeInArithmetic => exact occurs_rangeThenOperator h
  | emptyQuery | unbalancedDelimiters | missingIdentifier | proseContamination => rfl

end

end AskMetrics.Query
