import AskMetrics.Proofs.Query.ExpressionShape
import AskMetrics.Proofs.Query.Metrics

/-!
# The metric names of an expression

The scans that look for metric names go through a row of pieces in four passes. The first three
turn one rendition of the row into the next: values are blanked, then matchers, then groupings.
What is left are the words of the expression, and those that look like metrics are its metrics.
-/
namespace AskMetrics.Query

open AskMetrics.Text

/-! ## Renditions between the passes -/

/-- The text of a matcher with its value blanked as one. -/
def Matcher.unquoted (m : Matcher) : List Char :=
  m.label.text ++ ['=', ' ']

/-- Matchers after the first pass. -/
def unquoted : Rendition where
  matchers := fun ms => '\x7b' :: (joinWith [','] (ms.map Matcher.unquoted) ++ ['\x7d'])
  grouping := Grouping.render
  ends_matchers := fun _ _ => by simp; decide
  bare_grouping := Grouping.isBare

/-- Matchers after the second pass. -/
def unmatched : Rendition where
  matchers := fun _ => [' ']
  grouping := Grouping.render
  ends_matchers := fun _ _ => by simp; decide
  bare_grouping := Grouping.isBare

/-- Matchers and groupings after the third pass. -/
def unlisted : Rendition where
  matchers := fun _ => [' ']
  grouping := fun _ => [' ']
  ends_matchers := fun _ _ => by simp; decide
  bare_grouping := fun _ => List.all_eq_true.mp (by decide)

/-! ## Values -/

section
variable {b a : List Char}

theorem LabelValue.not_newline (v : LabelValue) : '\n' ∉ v.text.flatMap escape := by
  intro h
  obtain ⟨u, hu, hmem⟩ := List.mem_flatMap.mp h
  have hblank := v.not_blank u hu
  by_cases hesc : u = '"' ∨ u = '\\'
  · rcases hesc with rfl | rfl <;> simp [escape] at hmem
  · obtain rfl : '\n' = u := by simpa [escape, hesc] using hmem
    exact absurd hblank (by decide)

theorem blanks_literals_keep {x : List Char} (hx : ∀ u ∈ x, isQuote u = false) :
    Blanks literalPattern b x a x :=
  .keep (along_of_next fun u hu _ _ => ends_literalPattern (hx u hu))

theorem LabelValue.blanks (v : LabelValue) : Blanks literalPattern b v.quoted a [' '] :=
  .part depicts_literalPattern definite_isLiteral
    (isLiteral_of_body (by decide) (body_escape v.text) v.not_newline fun hquote =>
      absurd hquote (by decide))

theorem Matcher.blanks (m : Matcher) :
    Blanks literalPattern b m.render a m.unquoted := by
  have hlabel : Blanks literalPattern b (m.label.text ++ ['=']) (m.value.quoted ++ a)
      (m.label.text ++ ['=']) := by
    refine blanks_literals_keep fun u hu => ?_
    rcases List.mem_append.mp hu with hu | hu
    · exact isQuote_of_isBare (isBare_of_isNameChar (m.label.isNameChar u hu))
    · obtain rfl : u = '=' := by simpa using hu
      decide
  simpa [render, unquoted] using hlabel.append m.value.blanks

theorem blanks_literals_matchers (ms : List Matcher) :
    Blanks literalPattern b (renderMatchers ms) a (unquoted.matchers ms) := by
  have hmark : ∀ {u : Char} {b a : List Char}, isQuote u = false →
      Blanks literalPattern b [u] a [u] :=
    fun hu => blanks_literals_keep (by simpa using hu)
  refine Blanks.append (x := ['\x7b']) (y := ['\x7b']) (hmark (by decide)) ?_
  refine Blanks.append (.joinWith (fun m _ _ _ => m.blanks) ?_) (hmark (by decide))
  exact fun _ _ => hmark (by decide)

theorem blanks_literals (ps : List Piece) :
    Blanks literalPattern b (textOf written ps) [] (textOf unquoted ps) := by
  induction ps generalizing b with
  | nil => exact .nil
  | cons p ps ih =>
    refine Blanks.append ?_ ih
    by_cases hp : ∃ ms, p = .matchers ms
    · obtain ⟨ms, rfl⟩ := hp
      exact blanks_literals_matchers ms
    · rw [Piece.text_congr unquoted written rfl hp]
      exact blanks_literals_keep fun u hu => isQuote_of_isBare (Piece.isBare written hp u hu)

/-! ## Matchers -/

theorem blanks_matchers_keep {x : List Char} (hx : ∀ u ∈ x, u ≠ '\x7b') :
    Blanks matchersPattern b x a x :=
  .keep (along_of_next fun u hu _ _ => ends_matchersPattern (hx u hu))

theorem blanks_matchers_matchers (ms : List Matcher) :
    Blanks matchersPattern b (unquoted.matchers ms) a [' '] := by
  have hinside : '\x7d' ∉ joinWith [','] (ms.map Matcher.unquoted) := by
    intro hu
    rcases mem_joinWith hu with hu | ⟨part, hpart, hu⟩
    · exact absurd hu (by decide)
    · obtain ⟨m, -, rfl⟩ := List.mem_map.mp hpart
      simp only [Matcher.unquoted, List.mem_append, List.mem_cons, List.not_mem_nil,
        or_false] at hu
      rcases hu with hu | hu | hu
      · exact absurd (m.label.isNameChar _ hu) (by decide)
      · exact absurd hu (by decide)
      · exact absurd hu (by decide)
  exact .part depicts_matchersPattern definite_isMatchers (.mk hinside)

theorem blanks_matchers (ps : List Piece) :
    Blanks matchersPattern b (textOf unquoted ps) [] (textOf unmatched ps) := by
  induction ps generalizing b with
  | nil => exact .nil
  | cons p ps ih =>
    refine Blanks.append ?_ ih
    by_cases hp : ∃ ms, p = .matchers ms
    · obtain ⟨ms, rfl⟩ := hp
      exact blanks_matchers_matchers ms
    · rw [Piece.text_congr unmatched unquoted rfl hp]
      exact blanks_matchers_keep fun u hu =>
        ne_of_isBare (Piece.isBare unquoted hp u hu) (by decide)

/-! ## Groupings -/

theorem along_no_labelList_of_not_isAlpha {x : List Char} (hx : x.all (!Char.isAlpha ·) = true) :
    Along (fun b a => labelListPattern.ends ⟨b, a⟩ = []) b x a := by
  have hnot : ∀ u ∈ x, u.isAlpha = false := by simpa using hx
  exact along_of_next fun u hu _ _ => ends_labelListPattern (hnot u hu)

/-- The names of functions and operators take no list of labels. -/
theorem along_no_labelList_function {name : String} (hname : name ∈ functionNames)
    (ha : ∀ u ∈ a.head?, isNameChar u = false) :
    Along (fun b a => labelListPattern.ends ⟨b, a⟩ = []) b name.toList a := by
  have hdisjoint : ∀ k ∈ listKeywords, k ∉ functionNames := by decide
  refine along_no_labelList (isNameChar_of_mem_functionNames hname) ha fun k hk heq => ?_
  obtain rfl := String.toList_inj.mp heq
  exact hdisjoint _ hk hname

theorem Grouping.blanks (g : Grouping) (hb : Opens b) :
    Blanks labelListPattern b g.render a [' '] := by
  have hkeyword : g.keeping.keyword ∈ listKeywords := by
    rcases eq_of_mem_groupingKeywords g.keeping.mem_groupingKeywords with h | h <;>
      simp [listKeywords, h]
  have hlist := IsLabelList.mk (y := [' ']) hb hkeyword (by simp; decide)
    (forall_bne_iff.mp (not_closing_of_mem_labels g.labels))
  refine .part depicts_labelListPattern definite_isLabelList ?_
  simpa [render] using hlist

theorem Duration.blanks_keep (d : Duration) :
    Blanks labelListPattern b (d.render ++ [')']) a (d.render ++ [')']) := by
  have hunit : ∀ k ∈ listKeywords, [d.unit] ≠ k.toList := by
    have hlong : ∀ k ∈ listKeywords, k.toList.length ≠ 1 := by decide
    exact fun k hk heq => hlong k hk (by rw [← heq]; rfl)
  have htext : d.render ++ [')'] = ['['] ++ (d.digits ++ ([d.unit] ++ [']', ')'])) := by
    simp [render]
  rw [htext]
  refine .keep (along_append.mpr ⟨?_, along_append.mpr ⟨?_, along_append.mpr ⟨?_, ?_⟩⟩⟩)
  · exact along_no_labelList_of_not_isAlpha (by decide)
  · exact along_of_next fun u hu _ _ => ends_labelListPattern (isAlpha_of_isDigit (d.isDigit u hu))
  · exact along_no_labelList (by simpa using d.isNameChar_unit) (by simp; decide) hunit
  · exact along_no_labelList_of_not_isAlpha (by decide)

theorem Numeral.blanks_keep (n : Numeral) : Blanks labelListPattern b n.render a n.render := by
  refine .keep (along_append.mpr ⟨along_no_labelList_of_not_isAlpha ?_, ?_⟩)
  · split_ifs <;> decide
  · exact along_of_next fun u hu _ _ => ends_labelListPattern (isAlpha_of_isDigit (n.isDigit u hu))

theorem Sign.blanks_keep (o : Sign) : Blanks labelListPattern b o.render a o.render := by
  cases o <;> exact .keep (along_no_labelList_of_not_isAlpha (by decide))

theorem Head.blanks (h : Head) :
    Blanks labelListPattern b (h.text unmatched) ('(' :: a) (h.text unlisted) := by
  cases h with
  | parens => exact .nil
  | call f => exact .keep (along_no_labelList_function f.known (by simp; decide))
  | aggregate o => exact .keep (along_no_labelList_function o.mem_functionNames (by simp; decide))
  | grouped o g =>
    have hspace : ∀ {b a : List Char}, Blanks labelListPattern b [' '] a [' '] :=
      .keep (along_no_labelList_of_not_isAlpha (by decide))
    refine Blanks.append (.keep (along_no_labelList_function o.mem_functionNames ?_)) ?_
    · simp
      decide
    · refine Blanks.append (x := [' ']) (y := [' ']) hspace (Blanks.append (g.blanks ?_) hspace)
      simp
      decide

theorem Layout.blanks {w : Bool} {heads : List Head} {ps : List Piece} (h : Layout w heads ps) :
    Blanks labelListPattern b (textOf unmatched ps) [] (textOf unlisted ps) := by
  induction h generalizing b with
  | done => exact .nil
  | metric m rest ih =>
    refine Blanks.append (.keep ?_) ih
    refine along_no_labelList m.isNameChar ?_ ?_
    · rw [List.append_nil]
      exact rest.ends_textOf.not_nameChar
    · have hsub : ∀ k ∈ listKeywords, k ∈ functionNames ++ modifierNames := by decide
      exact fun k hk => m.ne_of_mem_vocabulary (hsub k hk)
  | matchers ms _ ih =>
    refine Blanks.append (x := [' ']) (y := [' ']) (.keep ?_) ih
    exact along_no_labelList_of_not_isAlpha (by decide)
  | range f d _ ih => exact d.blanks_keep.append ih
  | opening h _ ih =>
    refine Blanks.append (Blanks.append h.blanks (.keep ?_)) ih
    exact along_no_labelList_of_not_isAlpha (by decide)
  | closing h _ ih =>
    exact Blanks.append (.keep (along_no_labelList_of_not_isAlpha (by decide))) ih
  | closingBy o g _ ih =>
    refine Blanks.append (Blanks.append (x := [')', ' ']) (y := [')', ' ']) ?_ ?_) ih
    · exact .keep (along_no_labelList_of_not_isAlpha (by decide))
    · exact g.blanks (by simp; decide)
  | numeral n _ ih => exact n.blanks_keep.append ih
  | sign o _ ih => exact o.blanks_keep.append ih

/-- What is left of an expression after the three passes. -/
theorem scrub_render (e : Expr) : scrub e.render = textOf unlisted e.pieces := by
  rw [scrub, e.render_eq, (blanks_literals e.pieces).blankOut_eq,
    (blanks_matchers e.pieces).blankOut_eq, e.layout_pieces.blanks.blankOut_eq]

/-! ## Names -/

/-- The metric of a piece. -/
def Piece.metric? : Piece → Option MetricName
  | metric m => some m
  | _ => none

/-- What a word begins with. -/
theorem isIdentStart_of_isAlpha_or {u : Char} (h : u.isAlpha = true ∨ u = '_') :
    isIdentStart u = true := by
  rcases h with h | rfl
  · simp [isIdentStart, h]
  · decide

theorem isIdentStart_of_isDigit {u : Char} (h : u.isDigit = true) : isIdentStart u = false := by
  simp only [isIdentStart, isAlpha_of_isDigit h, Bool.false_or, Bool.or_eq_false_iff,
    beq_eq_false_iff_ne]
  constructor <;> rintro rfl <;> exact absurd h (by decide)

theorem collects_digits {x : List Char} (h : ∀ u ∈ x, u.isDigit = true) : Collects b x a [] :=
  .skip (by simpa using fun u hu => isIdentStart_of_isDigit (h u hu))

theorem isReserved_of_mem_functionNames {name : String} (h : name ∈ functionNames) :
    isReserved name.toList = true := by
  have hmem : name ∈ functionNames ++ modifierNames := List.mem_append_left _ h
  rw [isReserved, lowerAscii_of_mem_vocabulary name hmem]
  exact List.any_eq_true.mpr ⟨name, hmem, by simp⟩

/-- A function or an operator is vocabulary. -/
theorem collects_function {name : String} (hname : name ∈ functionNames) (ha : Ends a) :
    Collects b name.toList a [] := by
  have hreserved := isReserved_of_mem_functionNames hname
  obtain ⟨u, x, hx, hu, hchars⟩ :=
    exists_eq_cons_of_isIdentifier (isIdentifier_of_mem_functionNames hname)
  rw [hx] at hreserved ⊢
  refine .noise (isIdentStart_of_isAlpha_or hu)
    (fun v hv => isIdentChar_of_isNameChar (hchars v hv)) ha ?_
  simp [isMetricLike, hreserved]

theorem MetricName.collects (m : MetricName) (hb : AtOperand b) (ha : Ends a) :
    Collects b m.text a [m.text] := by
  obtain ⟨u, y, hm, hu, hy⟩ := exists_eq_cons_of_isIdentifier m.identifier
  have hlike := m.isMetricLike
  rw [hm] at hlike ⊢
  refine .metric (isIdentStart_of_isAlpha_or hu)
    (fun v hv => isIdentChar_of_isNameChar (hy v hv)) ha ?_ hlike
  intro c hc
  rcases hb c hc with rfl | rfl <;> decide

/-- The unit of a duration is no name. -/
theorem Duration.collects (d : Duration) : Collects b (d.render ++ [')']) a [] := by
  have hunit : isIdentStart d.unit = true := by
    have hall : "smhdwy".toList.all isIdentStart = true := by decide
    exact List.all_eq_true.mp hall d.unit d.isUnit
  obtain ⟨ds, c, hdigits⟩ : ∃ ds c, d.digits = ds ++ [c] :=
    ⟨_, _, (List.dropLast_append_getLast d.digits_ne_nil).symm⟩
  have hc : c.isDigit = true := d.isDigit c (by simp [hdigits])
  have htext : d.render ++ [')'] = ('[' :: (ds ++ [c])) ++ ([d.unit] ++ [']', ')']) := by
    simp [render, hdigits]
  have hskip : Collects b ('[' :: (ds ++ [c])) ([d.unit] ++ [']', ')'] ++ a) [] := by
    rw [← hdigits]
    exact .skip_append (x := ['[']) (by decide) (collects_digits d.isDigit)
  have hlast : Collects (c :: (ds.reverse ++ '[' :: b)) ([d.unit] ++ [']', ')']) a [] :=
    (Collects.unit hunit (by simp) (by simp; decide) hc).append (.skip (by decide))
  rw [htext]
  exact hskip.append (by simpa using hlast)

theorem Numeral.collects (n : Numeral) : Collects b n.render a [] := by
  refine .skip_append ?_ (collects_digits n.isDigit)
  split_ifs <;> decide

theorem Sign.collects (o : Sign) : Collects b o.render a [] := by
  cases o <;> exact .skip (by decide)

theorem Head.collects (h : Head) : Collects b (h.text unlisted) ('(' :: a) [] := by
  have hspaces : ∀ {b a : List Char}, Collects b [' ', ' ', ' '] a [] := .skip (by decide)
  cases h with
  | parens => exact .nil
  | call f => exact collects_function f.known (by simp; decide)
  | aggregate o => exact collects_function o.mem_functionNames (by simp; decide)
  | grouped o g => exact (collects_function o.mem_functionNames (by simp; decide)).append hspaces

/-- The names collected from a row are those of its metrics. -/
theorem Layout.collects {w : Bool} {heads : List Head} {ps : List Piece} (h : Layout w heads ps)
    (hb : w = true → AtOperand b) :
    Collects b (textOf unlisted ps) [] ((ps.filterMap Piece.metric?).map MetricName.text) := by
  induction h generalizing b with
  | done => exact .nil
  | metric m rest ih =>
    refine (m.collects (hb rfl) ?_).append (ih (by simp))
    rw [List.append_nil]
    exact rest.ends_textOf
  | matchers ms _ ih =>
    exact .skip_append (x := [' ']) (by decide) (ih (by simp))
  | range f d _ ih => exact d.collects.append (ih (by simp))
  | opening h _ ih =>
    have hbracket : ∀ {b a : List Char}, Collects b ['('] a [] := .skip (by decide)
    exact (h.collects.append hbracket).append (ih fun _ => atOperand_opening h)
  | closing h _ ih =>
    exact .skip_append (x := [')']) (by decide) (ih (by simp))
  | closingBy o g _ ih =>
    exact .skip_append (x := [')', ' ', ' ']) (by decide) (ih (by simp))
  | numeral n _ ih => exact n.collects.append (ih (by simp))
  | sign o _ ih => exact o.collects.append (ih fun _ => atOperand_sign o)

end

theorem Selector.filterMap_metric? (s : Selector) :
    s.pieces.filterMap Piece.metric? = [s.metric] := by
  rcases h : s.matchers with _ | ms <;> simp [pieces, h, Piece.metric?]

theorem Expr.filterMap_metric? (e : Expr) : e.pieces.filterMap Piece.metric? = e.metrics := by
  induction e with
  | select s => exact s.filterMap_metric?
  | call f s d => simp [pieces, metrics, Piece.metric?, List.filterMap_cons, s.filterMap_metric?]
  | aggregate a e ih => simp [pieces, metrics, Piece.metric?, List.filterMap_cons, ih]
  | groupedBefore a g e ih => simp [pieces, metrics, Piece.metric?, List.filterMap_cons, ih]
  | groupedAfter a e g ih => simp [pieces, metrics, Piece.metric?, List.filterMap_cons, ih]
  | parens e ih => simp [pieces, metrics, Piece.metric?, List.filterMap_cons, ih]
  | binary e o f ihe ihf => simp [pieces, metrics, Piece.metric?, List.filterMap_cons, ihe, ihf]
  | scaledLeft n o e ih => simp [pieces, metrics, Piece.metric?, List.filterMap_cons, ih]
  | scaledRight e o n ih => simp [pieces, metrics, Piece.metric?, List.filterMap_cons, ih]

/-- The names found in an expression are its metrics, each once. -/
theorem metricNames_render (e : Expr) :
    metricNames e.render = distinct (e.metrics.map MetricName.text) := by
  have hcollects := e.layout_pieces.collects (b := []) (by simp [AtOperand])
  rw [e.filterMap_metric?, ← scrub_render] at hcollects
  exact hcollects.metricNames_eq

end AskMetrics.Query
