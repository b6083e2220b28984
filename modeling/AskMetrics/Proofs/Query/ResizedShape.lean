import AskMetrics.Proofs.Query.Nested
import AskMetrics.Proofs.Query.Resize

/-!
# The rules and the length of ranges

What stands between the brackets of a range selector, and how many blanks a masked literal has, is
of no account to any rule: a rule looks for words, brackets and operators, and for runs of blanks
of any length. So two masked texts that differ in these alone break the same rules. The rules about
bare operators and about groupings need the whole scan for that, since an operator inside a word
already looked at is not looked at again.
-/
namespace AskMetrics.Query

open AskMetrics.Text

variable {s t : List Char}

/-! ## Shapes that occur -/

theorem carries_keyword {k : String} (hk : k ∈ groupingKeywords) : Carries Resized (.literal k) :=
  .literal steady_resized fun u hu =>
    have hname := isNameChar_of_mem_groupingKeywords k hk u hu
    not_starts (ne_of_isNameChar hname (by decide)) (ne_of_isNameChar hname (by decide))

/-- `by` and an opening bracket, with blanks around `by`, behind a closing bracket. -/
theorem occurs_rangeThenGrouping_of_resized (h : Exchanged Resized s t)
    (hs : occurs rangeThenGrouping s = true) : occurs rangeThenGrouping t = true := by
  obtain ⟨b, a, e, hplace, he⟩ := occurs_eq_true_iff.mp hs
  obtain ⟨d, hd, hrest⟩ := Pattern.mem_ends_andThen.mp he
  have hbracket : Cursor.Reads ⟨b, a⟩ [']'] d := Pattern.mem_ends_char.mp hd
  have hbehind : d.behind = ']' :: b := hbracket.behind
  -- the place behind the bracket has a twin, the place before it need not have one
  have hd : s = d.behind.reverse ++ d.ahead := by
    rw [hplace, hbehind, show a = ']' :: d.ahead from hbracket.ahead]
    simp
  obtain ⟨d', hplace', htwins⟩ :=
    h.exists_twins isChain_resized hd (seam_of_closing (by simp [hbehind]))
  have hmeets : Meets Resized (.sequence [.blanks, .literal "by", .blanks, .char '[']) :=
    meets_blanks_then (AvoidsAtStart.literal (by decide)).andThen
      (.carries_then (carries_keyword (by decide))
        (meets_blanks_then (.char (by decide)) (.one steady_resized)))
  obtain ⟨e', he'⟩ := hmeets d d' e htwins hrest
  have hhead := htwins.behind.head?_eq steady_resized.mirrored
  rw [hbehind, List.head?_cons] at hhead
  obtain ⟨b', hb'⟩ := List.head?_eq_some_iff.mp hhead.symm
  refine occurs_eq_true_iff.mpr ⟨b', ']' :: d'.ahead, e', by simp [hplace', hb'], ?_⟩
  exact Pattern.mem_ends_andThen.mpr ⟨d', Pattern.mem_ends_char.mpr ⟨rfl, hb'⟩, he'⟩

/-- A keyword and an opening bracket. -/
theorem occurs_keywordInBrackets_of_resized {k : String} (hk : k ∈ groupingKeywords)
    (h : Exchanged Resized s t)
    (hs : occurs (.sequence [.edge, .literal k, .blanks, .char '[']) s = true) :
    occurs (.sequence [.edge, .literal k, .blanks, .char '[']) t = true := by
  have hletter : AvoidsAtStart (fun u => !u.isAlpha) (.literal k) := by
    rcases eq_of_mem_groupingKeywords hk with rfl | rfl
    all_goals exact .literal (by decide)
  refine Meets.occurs isChain_resized ?_ (seam_of_edge_then hletter.andThen) h hs
  exact .carries_then carries_edge (.carries_then (carries_keyword hk)
    (meets_blanks_then (.char (by decide)) (.one steady_resized)))

/-- An operator with a grouping, and no body in round brackets. -/
theorem occurs_groupedWithoutBody_of_resized (h : Exchanged Resized s t)
    (hs : occurs groupedWithoutBody s = true) : occurs groupedWithoutBody t = true := by
  have hkeyword : AvoidsAtStart isBlank (anyWord ["by", "without"]) :=
    .words (by decide)
  have hlast : AvoidsAtStart isBlank
      (.orElse (.one fun u => !isBlank u && u != '(') .atEnd) :=
    .orElse (.one fun u hu => by simp_all) .atEnd
  have hoperator : AvoidsAtStart (fun u => !u.isAlpha)
      (anyWord ["sum", "avg", "min", "max", "count"]) :=
    .words (by decide)
  refine Meets.occurs isChain_resized ?_ (seam_of_edge_then hoperator.andThen) h hs
  refine .carries_then carries_edge (.carries_then (carries_words ?_)
    (meets_someBlanks_then hkeyword.andThen (.carries_then (carries_words ?_)
      (meets_blanks_then (AvoidsAtStart.char (by decide)).andThen
        (.carries_then (carries_char (by decide) (by decide)) ?_)))))
  · simp; decide
  · simp; decide
  · refine .run_then steady_resized (homogeneous_ne (by decide) (by decide) (by decide))
      (AvoidsAtStart.char (by decide)).andThen ?_
    refine .carries_then (carries_char (by decide) (by decide)) (meets_blanks_then hlast ?_)
    exact .orElse (.one steady_resized) (.atEnd steady_resized)

/-- No part of a text is empty brackets. -/
theorem eq_of_exchanged_brackets {r : List Char} (h : Exchanged Resized ['[', ']'] r) :
    r = ['[', ']'] := by
  generalize hw : ['[', ']'] = w at h
  cases h with
  | nil => simp at hw
  | keep u rest =>
    obtain ⟨rfl, rfl⟩ := List.cons.inj hw
    obtain ⟨r', rfl, hnil⟩ :=
      rest.cons_inv steady_resized (not_starts (u := ']') (by decide) (by decide))
    rw [(hnil.eq_nil_iff steady_resized).mp rfl]
  | @swap x y s t hxy rest =>
    cases hxy with
    | range hxy =>
      obtain ⟨hi, -⟩ := hxy
      obtain ⟨u, i, rfl⟩ := List.exists_cons_of_ne_nil hi.ne_nil
      simp at hw
    | blanks m n => simp [List.replicate_succ] at hw

/-- Square brackets around some text that no bracket closes are such brackets in the other text. -/
theorem exists_brackets_of_exchanged {x r : List Char} (hne : x ≠ [])
    (hx : ∀ u ∈ x, (u != ']') = true) (h : Exchanged Resized ('[' :: (x ++ [']'])) r) :
    ∃ x', x' ≠ [] ∧ (∀ u ∈ x', (u != ']') = true) ∧ r = '[' :: (x' ++ [']']) := by
  have hhead := h.head?_eq steady_resized
  have hlast := h.getLast?_eq steady_resized
  have hcount : ('[' :: (x ++ [']'])).filter (· == ']') = r.filter (· == ']') :=
    h.filter_eq fun _ _ => filter_eq_of_resized (by decide) fun u hu =>
      beq_eq_false_iff_ne.mpr (ne_of_isWord hu (by decide))
  obtain ⟨r', rfl⟩ := List.head?_eq_some_iff.mp hhead.symm
  have hr' : r' ≠ [] := by
    rintro rfl
    simp [List.getLast?_cons] at hlast
  obtain ⟨x', u, rfl⟩ : ∃ x' u, r' = x' ++ [u] :=
    ⟨r'.dropLast, r'.getLast hr', (List.dropLast_append_getLast hr').symm⟩
  obtain rfl : u = ']' := by simpa [List.getLast?_cons] using hlast.symm
  have hx' : ∀ u ∈ x', (u != ']') = true := by
    have hnone : x.filter (· == ']') = [] :=
      List.filter_eq_nil_iff.mpr fun u hu => by simpa using hx u hu
    have hnone' : x'.filter (· == ']') = [] := by simpa [hnone] using hcount
    exact fun u hu => by simpa using List.filter_eq_nil_iff.mp hnone' u hu
  refine ⟨x', ?_, hx', rfl⟩
  rintro rfl
  -- read the other way round, the exchange would make brackets around nothing from `x`
  have hback := eq_of_exchanged_brackets (h.symm Resized.symm)
  exact hne (by simpa using hback)

/-- A range and an operator. -/
theorem occurs_rangeThenOperator_of_resized (h : Exchanged Resized s t)
    (hs : occurs rangeThenOperator s = true) : occurs rangeThenOperator t = true := by
  obtain ⟨b, a, e, hplace, he⟩ := occurs_eq_true_iff.mp hs
  obtain ⟨d₁, hopen, he⟩ := Pattern.mem_ends_andThen.mp he
  obtain ⟨d₂, hinside, he⟩ := Pattern.mem_ends_andThen.mp he
  obtain ⟨d, hclose, hrest⟩ := Pattern.mem_ends_andThen.mp he
  obtain ⟨u, x, hu, hx, hinside⟩ := Pattern.mem_ends_some_one.mp hinside
  have hread : Cursor.Reads ⟨b, a⟩ ('[' :: (u :: x ++ [']'])) d :=
    (Pattern.mem_ends_char.mp hopen).trans (hinside.trans (Pattern.mem_ends_char.mp hclose))
  -- both edges of the brackets are inside no part
  obtain ⟨⟨b', a'⟩, rfl, htwins⟩ := h.exists_twins isChain_resized (c := ⟨b, a⟩) hplace
    (seam_of_opening (by simp [show a = _ from hread.ahead]))
  have hahead := htwins.ahead
  rw [hread.ahead] at hahead
  have hlast : ('[' :: (u :: x ++ [']'])).getLast? = some ']' := by simp [List.getLast?_cons]
  have hseam : Seam ⟨[']'], d.ahead⟩ := seam_of_closing (by simp)
  obtain ⟨r, r', rfl, hbrackets, hafter⟩ := hahead.split isChain_resized (by
    simpa only [Seam, hlast, List.head?_cons] using hseam)
  have htwins' := htwins.read hread hbrackets hafter
  obtain ⟨x', hne, hx', rfl⟩ :=
    exists_brackets_of_exchanged (by simp) (List.forall_mem_cons.mpr ⟨hu, hx⟩) hbrackets
  have hmeets : Meets Resized (.sequence [.blanks, .one fun c => "-+*/%^".toList.contains c]) := by
    refine meets_blanks_then (.one fun v hv => ?_) (.one steady_resized)
    have hall : "-+*/%^".toList.all (fun w => !isBlank w) = true := by decide
    simpa using List.all_eq_true.mp hall v (by simpa using hv)
  obtain ⟨e', he'⟩ := hmeets d _ e htwins' hrest
  obtain ⟨v, y, rfl⟩ := List.exists_cons_of_ne_nil hne
  obtain ⟨hv, hy⟩ := List.forall_mem_cons.mp hx'
  refine occurs_eq_true_iff.mpr ⟨b', _, e', rfl, ?_⟩
  refine Pattern.mem_ends_andThen.mpr ⟨⟨'[' :: b', v :: y ++ ']' :: r'⟩,
    Pattern.mem_ends_char.mpr ⟨by simp, rfl⟩, ?_⟩
  refine Pattern.mem_ends_andThen.mpr ⟨⟨(v :: y).reverse ++ '[' :: b', ']' :: r'⟩,
    Pattern.mem_ends_some_one.mpr ⟨v, y, hv, hy, ⟨rfl, rfl⟩⟩, ?_⟩
  refine Pattern.mem_ends_andThen.mpr ⟨⟨']' :: ((v :: y).reverse ++ '[' :: b'), r'⟩,
    Pattern.mem_ends_char.mpr ⟨rfl, rfl⟩, ?_⟩
  simpa using he'

/-! ## Matches -/

/-- Nothing that starts with a word matches inside a part. -/
theorem along_of_resized {parts : List Pattern} {x y b a : List Char}
    (hword : ∀ c m, matchAt parts c = some m →
      c.atEdge = true ∧ ∃ u ∈ c.ahead.head?, u.isAlpha = true) (h : Resized x y) :
    Along (fun b a => matchAt parts ⟨b, a⟩ = none) b x a := by
  refine along_of_isChain (isChain_resized x y h) (fun _ => ?_) fun b a u v hadjoins => ?_
  · rw [Option.eq_none_iff_forall_ne_some]
    intro m hm
    obtain ⟨-, u, hu, halpha⟩ := hword _ m hm
    have hhead : (x ++ a).head? = x.head? := List.head?_append_of_ne_nil _ (steady_resized.ne_nil h)
    rcases h.head?_eq with hx | hx <;>
    · obtain rfl := Option.some.inj ((hhead.trans hx).symm.trans hu)
      exact absurd halpha (by decide)
  · rw [Option.eq_none_iff_forall_ne_some]
    intro m hm
    obtain ⟨hedge, w, hw, halpha⟩ := hword _ m hm
    exact seam_of_edge hedge (by simp_all) u rfl v rfl hadjoins

/-- Before a word of some that start with letters there is a letter. -/
theorem exists_isAlpha_of_reads {ws : List String}
    (h : ∀ w ∈ ws, w.toList.head?.any Char.isAlpha = true) {w : String} (hw : w ∈ ws)
    {x : List Char} {c d : Cursor} (hread : c.Reads (w.toList ++ x) d) :
    ∃ u ∈ c.ahead.head?, u.isAlpha = true := by
  obtain ⟨u, hu, halpha⟩ := (Option.any_eq_true ..).mp (h w hw)
  obtain ⟨y, hy⟩ := List.head?_eq_some_iff.mp hu
  exact ⟨u, by simp [hread.ahead, hy], halpha⟩

/-- An operator with blanks after it. -/
def operatorThenBlanks : Pattern :=
  .sequence [.edge, anyWord checkedOperators, .someBlanks]

theorem mem_ends_operatorThenBlanks {c d : Cursor} :
    d ∈ operatorThenBlanks.ends c ↔ c.atEdge = true ∧ ∃ w ∈ checkedOperators, ∃ u x,
      isBlank u = true ∧ (∀ v ∈ x, isBlank v = true) ∧ c.Reads (w.toList ++ u :: x) d := by
  simp only [operatorThenBlanks, anyWord, Pattern.sequence_cons_cons, Pattern.sequence_singleton,
    Pattern.mem_ends_andThen, Pattern.mem_ends_edge, Pattern.mem_ends_oneOf_literal,
    Pattern.mem_ends_someBlanks]
  constructor
  · rintro ⟨_, ⟨hedge, rfl⟩, e, ⟨w, hw, hword⟩, u, x, hu, hx, hblanks⟩
    exact ⟨hedge, w, hw, u, x, hu, hx, hword.trans hblanks⟩
  · rintro ⟨hedge, w, hw, u, x, hu, hx, hread⟩
    refine ⟨c, ⟨hedge, rfl⟩, ⟨w.toList.reverse ++ c.behind, u :: x ++ d.ahead⟩, ⟨w, hw, ?_⟩,
      u, x, hu, hx, ?_⟩
    · exact ⟨by simpa using hread.ahead, rfl⟩
    · exact ⟨rfl, by simpa using hread.behind⟩

/-- There is one end of an operator with blanks that is not before a blank. -/
theorem operatorThenBlanks_unique {c d e : Cursor} (hd : d ∈ operatorThenBlanks.ends c)
    (hafter : ∀ u ∈ d.ahead.head?, isBlank u = false) (he : e ∈ operatorThenBlanks.ends c)
    (hafter' : ∀ u ∈ e.ahead.head?, isBlank u = false) : d = e := by
  obtain ⟨-, w, hw, u, x, hu, hx, hread⟩ := mem_ends_operatorThenBlanks.mp hd
  obtain ⟨-, w', hw', u', x', hu', hx', hread'⟩ := mem_ends_operatorThenBlanks.mp he
  have heq := hread.ahead.symm.trans hread'.ahead
  rw [List.append_assoc, List.append_assoc] at heq
  obtain ⟨hword, hrest⟩ := eq_of_append_eq_append (isNameChar_of_mem_checkedOperators w hw)
    (isNameChar_of_mem_checkedOperators w' hw') (by simpa using isNameChar_of_isBlank hu)
    (by simpa using isNameChar_of_isBlank hu') heq
  obtain ⟨hblanks, -⟩ := eq_of_append_eq_append (p := isBlank) (by simpa [hu] using hx)
    (by simpa [hu'] using hx') hafter hafter' hrest
  rw [hword, hblanks] at hread
  exact hread.unique hread'

/-- What matches as an operator with the word after it: the whole word up to the next blank. -/
theorem exists_of_matchAt_operatorThenWord {c : Cursor} {m : Match}
    (h : matchAt operatorThenWord c = some m) :
    ∃ d ∈ operatorThenBlanks.ends c, d.Reads (m.part 1) m.stop ∧ m.part 1 ≠ [] ∧
      (∀ u ∈ m.part 1, (!isBlank u) = true) ∧ ∀ u ∈ m.stop.ahead.head?, (!isBlank u) = false := by
  obtain ⟨d, hd, hfirst, hpart⟩ := exists_first_of_matchAt_pair h
  obtain ⟨y, hread, hne, hy, hafter⟩ := Pattern.exists_reads_of_first_some_one hfirst
  obtain rfl : m.part 1 = y := hpart.trans hread.upTo
  exact ⟨d, hd, hread, hne, hy, hafter⟩

/-- A run that is not empty starts with a character of its class. -/
theorem head?_of_reads {f : Char → Bool} {c d : Cursor} {x : List Char} (hread : c.Reads x d)
    (hne : x ≠ []) (hx : ∀ u ∈ x, f u = true) : ∀ u ∈ c.ahead.head?, f u = true := by
  obtain ⟨v, x, rfl⟩ := List.exists_cons_of_ne_nil hne
  intro u hu
  obtain rfl : v = u := by simpa [hread.ahead] using hu
  exact hx v (.head _)

/-- An operator and a word match in that way alone. -/
theorem matchAt_operatorThenWord {c d e : Cursor} {y : List Char}
    (hd : d ∈ operatorThenBlanks.ends c) (hread : d.Reads y e) (hne : y ≠ [])
    (hy : ∀ u ∈ y, (!isBlank u) = true) (he : ∀ u ∈ e.ahead.head?, (!isBlank u) = false) :
    ∃ m, matchAt operatorThenWord c = some m ∧ m.part 1 = y ∧ m.stop = e := by
  have hfirst : (Pattern.some (.one fun u => !isBlank u)).first d = some e := by
    obtain ⟨b, a⟩ := d
    obtain rfl : a = y ++ e.ahead := hread.ahead
    rw [Pattern.first_some_one (b := b) hne hy he]
    exact congrArg some ((Cursor.reads_mk b y e.ahead).unique hread)
  obtain ⟨m, hm⟩ := exists_matchAt_pair hd hfirst
  obtain ⟨d', hd', hread', hne', hy', he'⟩ := exists_of_matchAt_operatorThenWord hm
  obtain rfl : d = d' := by
    refine operatorThenBlanks_unique hd (fun u hu => ?_) hd' fun u hu => ?_
    · simpa using head?_of_reads hread hne hy u hu
    · simpa using head?_of_reads hread' hne' hy' u hu
  obtain ⟨hpart, -⟩ := eq_of_append_eq_append hy' hy he' he (hread'.ahead.symm.trans hread.ahead)
  rw [hpart] at hread'
  exact ⟨m, hm, hpart, hread'.unique hread⟩

/-- An operator with the word after it takes some text. -/
theorem length_lt_of_matchAt_operatorThenWord (c : Cursor) (m : Match)
    (h : matchAt operatorThenWord c = some m) : m.stop.ahead.length < c.ahead.length := by
  obtain ⟨d, hd, hread, -⟩ := exists_of_matchAt_operatorThenWord h
  obtain ⟨-, w, -, u, x, -, -, hblanks⟩ := mem_ends_operatorThenBlanks.mp hd
  have hlength := hread.length
  have hlength' := hblanks.length
  simp only [List.length_append, List.length_cons] at hlength'
  omega

theorem homogeneous_not_isBlank : Homogeneous Resized fun u => !isBlank u :=
  homogeneous_resized (.inl ⟨by decide, by decide, fun u hu => by simp [isBlank_of_isWord hu]⟩)

/-- An operator and the word after it, at corresponding places. -/
theorem operatorThenWord_of_twins {c c' : Cursor} {m : Match} (h : Twins Resized c c')
    (hm : matchAt operatorThenWord c = some m) :
    ∃ m', matchAt operatorThenWord c' = some m' ∧ Exchanged Resized (m.part 1) (m'.part 1) ∧
      Twins Resized m.stop m'.stop := by
  obtain ⟨d, hd, hread, hne, hy, he⟩ := exists_of_matchAt_operatorThenWord hm
  obtain ⟨hedge, w, hw, u, x, hu, hx, hblanks⟩ := mem_ends_operatorThenBlanks.mp hd
  have hname := isNameChar_of_mem_checkedOperators w hw
  -- operator, blanks and word are read one after the other
  have hahead := h.ahead
  rw [hblanks.ahead, List.append_assoc] at hahead
  obtain ⟨a₁, ha₁, hrest⟩ := hahead.append_inv steady_resized fun v hv =>
    not_starts (ne_of_isNameChar (hname v hv) (by decide))
      (ne_of_isNameChar (hname v hv) (by decide))
  have htwins : Twins Resized ⟨w.toList.reverse ++ c.behind, u :: x ++ d.ahead⟩
      ⟨w.toList.reverse ++ c'.behind, a₁⟩ :=
    h.read (x := w.toList) ⟨by simpa using hblanks.ahead, rfl⟩ (.refl _) hrest
  obtain ⟨x', d', hread₁, hx', hexchanged, htwins₁⟩ :=
    htwins.run (x := u :: x) steady_resized homogeneous_isBlank ⟨rfl, by simpa using hblanks.behind⟩
      (by simpa [hu] using hx) fun v hv => by simpa using head?_of_reads hread hne hy v hv
  obtain ⟨y', e', hread₂, hy', hword, htwins₂⟩ :=
    htwins₁.run steady_resized homogeneous_not_isBlank hread hy he
  obtain ⟨u', x', rfl⟩ :=
    List.exists_cons_of_ne_nil (mt (hexchanged.eq_nil_iff steady_resized).mpr (by simp))
  have hd' : d' ∈ operatorThenBlanks.ends c' := by
    refine mem_ends_operatorThenBlanks.mpr ⟨by rwa [← h.atEdge_eq steady_resized], w, hw, u', x',
      hx' u' (.head _), fun v hv => hx' v (.tail _ hv), ?_⟩
    exact Cursor.Reads.trans ⟨ha₁, rfl⟩ hread₁
  obtain ⟨m', hm', hpart, hstop⟩ := matchAt_operatorThenWord hd' hread₂
    (mt (hword.eq_nil_iff steady_resized).mpr hne) hy'
    (by rwa [← htwins₂.ahead.head?_eq steady_resized])
  exact ⟨m', hm', by rwa [hpart], by rwa [hstop]⟩

theorem not_isNameChar_starts (x y : List Char) (h : Resized x y) :
    ∀ u ∈ x.head?, isNameChar u = false := by
  intro u hu
  rcases h.head?_eq with hx | hx <;>
  · obtain rfl := Option.some.inj (hx.symm.trans hu)
    decide

/-- An operator is followed by a bracket or a grouping keyword in both texts or in neither. -/
theorem hasBareAggregation_eq_of_resized (h : Exchanged Resized s t) :
    hasBareAggregation s = hasBareAggregation t := by
  refine any_findAll_eq steady_resized Resized.symm (fun x y b a hxy => ?_) ?_
    length_lt_of_matchAt_operatorThenWord h
  · refine along_of_resized (fun c m hm => ?_) hxy
    obtain ⟨d, hd, -⟩ := exists_of_matchAt_operatorThenWord hm
    obtain ⟨hedge, w, hw, u, x, -, -, hread⟩ := mem_ends_operatorThenBlanks.mp hd
    exact ⟨hedge, exists_isAlpha_of_reads (by decide) hw hread⟩
  · intro c c' m htwins hm
    obtain ⟨m', hm', hpart, hstop⟩ := operatorThenWord_of_twins htwins hm
    refine ⟨m', hm', ?_, hstop⟩
    simp only [hpart.head?_eq steady_resized,
      hpart.takeWhile_eq steady_resized not_isNameChar_starts]

/-! ## Groupings and what is before them -/

theorem mem_ends_groupingKeyword {c d : Cursor} :
    d ∈ groupingKeyword.ends c ↔
      c.atEdge = true ∧ ∃ k ∈ groupingKeywords, c.Reads k.toList d ∧ d.atEdge = true := by
  simp only [groupingKeyword, anyWord, Pattern.sequence_cons_cons, Pattern.sequence_singleton,
    Pattern.mem_ends_andThen, Pattern.mem_ends_edge, Pattern.mem_ends_oneOf_literal]
  constructor
  · rintro ⟨_, ⟨hedge, rfl⟩, e, ⟨k, hk, hread⟩, hend, rfl⟩
    exact ⟨hedge, k, hk, hread, hend⟩
  · rintro ⟨hedge, k, hk, hread, hend⟩
    exact ⟨c, ⟨hedge, rfl⟩, d, ⟨k, hk, hread⟩, hend, rfl⟩

theorem groupingKeyword_unique {c d e : Cursor} (hd : d ∈ groupingKeyword.ends c)
    (he : e ∈ groupingKeyword.ends c) : d = e := by
  have hafter : ∀ {k d}, k ∈ groupingKeywords → c.Reads k.toList d → d.atEdge = true →
      ∀ u ∈ d.ahead.head?, isNameChar u = false := by
    intro k d hk hread hend
    refine not_nameChar_of_atEdge (b := c.behind) (ne_nil_of_mem_groupingKeywords k hk)
      (isNameChar_of_mem_groupingKeywords k hk) ?_
    rwa [← hread.behind]
  obtain ⟨-, k, hk, hread, hend⟩ := mem_ends_groupingKeyword.mp hd
  obtain ⟨-, k', hk', hread', hend'⟩ := mem_ends_groupingKeyword.mp he
  obtain ⟨heq, -⟩ := eq_of_append_eq_append (isNameChar_of_mem_groupingKeywords k hk)
    (isNameChar_of_mem_groupingKeywords k' hk') (hafter hk hread hend) (hafter hk' hread' hend')
    (hread.ahead.symm.trans hread'.ahead)
  rw [heq] at hread
  exact hread.unique hread'

/-- A grouping keyword is not empty. -/
theorem length_lt_of_matchAt_groupingKeyword (c : Cursor) (m : Match)
    (h : matchAt [groupingKeyword] c = some m) : m.stop.ahead.length < c.ahead.length := by
  rw [matchAt_singleton, Option.map_eq_some_iff] at h
  obtain ⟨d, hfirst, rfl⟩ := h
  obtain ⟨-, k, hk, hread, -⟩ := mem_ends_groupingKeyword.mp (Pattern.mem_ends_of_first hfirst)
  have hlength := hread.length
  have hpos := List.length_pos_of_ne_nil (ne_nil_of_mem_groupingKeywords k hk)
  simp only
  omega

/-- A grouping keyword at corresponding places. -/
theorem groupingKeyword_of_twins {c c' : Cursor} {m : Match} (h : Twins Resized c c')
    (hm : matchAt [groupingKeyword] c = some m) :
    m.start = c ∧ ∃ m', matchAt [groupingKeyword] c' = some m' ∧ m'.start = c' ∧
      Twins Resized m.stop m'.stop := by
  have hcarries : Carries Resized groupingKeyword :=
    carries_edge.andThen ((carries_words (by simp; decide)).andThen carries_edge)
  rw [matchAt_singleton, Option.map_eq_some_iff] at hm
  obtain ⟨d, hfirst, rfl⟩ := hm
  obtain ⟨d', hd', htwins⟩ := hcarries c c' d h (Pattern.mem_ends_of_first hfirst)
  obtain ⟨e, he⟩ : ∃ e, groupingKeyword.first c' = some e := by
    rw [← Option.ne_none_iff_exists', ne_eq, Pattern.first_eq_none_iff]
    exact List.ne_nil_of_mem hd'
  obtain rfl : d' = e := groupingKeyword_unique hd' (Pattern.mem_ends_of_first he)
  exact ⟨rfl, _, by rw [matchAt_singleton, he, Option.map_some], rfl, htwins⟩

/-- The scan backwards passes over a text without round brackets. -/
theorem beforeOpening_append {n : Nat} {x b : List Char} (hx : ∀ u ∈ x, u ≠ '(' ∧ u ≠ ')') :
    beforeOpening n (x ++ b) = beforeOpening n b := by
  induction x with
  | nil => rfl
  | cons u x ih =>
    obtain ⟨hopen, hclose⟩ := hx u (.head _)
    rw [List.cons_append, beforeOpening_other hopen hclose, ih fun v hv => hx v (.tail _ hv)]

theorem ne_round_of_resized {x y : List Char} (h : Resized x y) : ∀ u ∈ x, u ≠ '(' ∧ u ≠ ')' := by
  cases h with
  | range h =>
    exact h.forall_left (by decide) (by decide) fun u hu =>
      ⟨ne_of_isWord hu (by decide), ne_of_isWord hu (by decide)⟩
  | blanks m n =>
    intro u hu
    rw [(List.mem_replicate.mp hu).2]
    decide

/-- The scan backwards finds corresponding places in both texts, or none in either. -/
theorem beforeOpening_rel {b b' : List Char} (h : Exchanged (Mirrored Resized) b b') (n : Nat) :
    Option.Rel (Exchanged (Mirrored Resized)) (beforeOpening n b) (beforeOpening n b') := by
  induction h generalizing n with
  | nil => simp [beforeOpening]
  | @keep u s t rest ih =>
    by_cases hclose : u = ')'
    · subst hclose
      rw [beforeOpening_closing, beforeOpening_closing]
      exact ih (n + 1)
    by_cases hopen : u = '('
    · subst hopen
      obtain _ | _ | n := n
      · simpa [beforeOpening] using ih 0
      · simpa [beforeOpening] using Option.Rel.some rest
      · simpa [beforeOpening_opening] using ih (n + 1)
    · rw [beforeOpening_other hopen hclose, beforeOpening_other hopen hclose]
      exact ih n
  | @swap x y s t hxy rest ih =>
    have hx := ne_round_of_resized hxy
    have hy := ne_round_of_resized hxy.symm
    rw [beforeOpening_append (by simpa using hx), beforeOpening_append (by simpa using hy)]
    exact ih n

theorem isInBraces_eq_of_mirrored {b b' : List Char} (h : Exchanged (Mirrored Resized) b b') :
    isInBraces b = isInBraces b' := by
  have hcount : ∀ u, u ≠ ' ' → isWord u = false → b.count u = b'.count u := by
    intro u hblank hword
    have hfilter : b.filter (· == u) = b'.filter (· == u) := by
      refine h.filter_eq fun x y hxy => ?_
      have hback := filter_eq_of_resized (f := (· == u)) (by simpa using hblank.symm)
        (fun v hv => beq_eq_false_iff_ne.mpr (ne_of_isWord hv hword)) hxy
      simpa [List.filter_reverse] using hback
    rw [List.count_eq_length_filter, List.count_eq_length_filter, hfilter]
  rw [isInBraces, isInBraces, hcount '\x7b' (by decide) (by decide),
    hcount '\x7d' (by decide) (by decide)]

/-- An aggregation is before both places or before neither. -/
theorem belongsToAggregation_eq_of_mirrored {b b' : List Char}
    (h : Exchanged (Mirrored Resized) b b') :
    belongsToAggregation b = belongsToAggregation b' := by
  have hsteady := steady_resized.mirrored
  have hdrop : ∀ {b b'}, Exchanged (Mirrored Resized) b b' →
      Exchanged (Mirrored Resized) (b.dropWhile isAsciiBlank) (b'.dropWhile isAsciiBlank) :=
    fun h => h.dropWhile hsteady (homogeneous_mirrored (by decide))
  have hname : ∀ {b b'}, Exchanged (Mirrored Resized) b b' →
      b.takeWhile isNameChar = b'.takeWhile isNameChar := by
    refine fun h => h.takeWhile_eq hsteady fun x y hxy u hu => ?_
    rcases Resized.getLast?_eq hxy with hx | hx <;>
    · rw [List.getLast?_reverse] at hx
      obtain rfl := Option.some.inj (hx.symm.trans hu)
      decide
  have hnear := hdrop h
  have hhead := hnear.head?_eq hsteady
  unfold belongsToAggregation
  generalize b.dropWhile isAsciiBlank = near at hnear hhead
  generalize b'.dropWhile isAsciiBlank = near' at hnear hhead
  cases near with
  | nil =>
    obtain rfl := (hnear.eq_nil_iff hsteady).mp rfl
    rfl
  | cons u near =>
    obtain ⟨near', rfl⟩ := List.head?_eq_some_iff.mp hhead.symm
    by_cases hclose : u = ')'
    · subst hclose
      have hrel := beforeOpening_rel hnear 0
      simp only
      cases hb : beforeOpening 0 (')' :: near) with
      | none =>
        obtain hb' : beforeOpening 0 (')' :: near') = none := by
          rw [hb] at hrel
          cases hb' : beforeOpening 0 (')' :: near') <;> simp_all
        simp [hb']
      | some back =>
        rw [hb] at hrel
        cases hb' : beforeOpening 0 (')' :: near') with
        | none => simp [hb'] at hrel
        | some back' =>
          rw [hb', Option.rel_some_some] at hrel
          simp [hname (hdrop hrel)]
    · simp [hclose, hname hnear]

/-- A grouping keyword belongs to nothing in both texts or in neither. -/
theorem hasDetachedGrouping_eq_of_resized (h : Exchanged Resized s t) :
    hasDetachedGrouping s = hasDetachedGrouping t := by
  refine any_findAll_eq steady_resized Resized.symm (fun x y b a hxy => ?_) ?_
    length_lt_of_matchAt_groupingKeyword h
  · refine along_of_resized (fun c m hm => ?_) hxy
    rw [matchAt_singleton, Option.map_eq_some_iff] at hm
    obtain ⟨d, hfirst, -⟩ := hm
    obtain ⟨hedge, k, hk, hread, -⟩ :=
      mem_ends_groupingKeyword.mp (Pattern.mem_ends_of_first hfirst)
    exact ⟨hedge, exists_isAlpha_of_reads (x := []) (by decide) hk (by simpa using hread)⟩
  · intro c c' m htwins hm
    obtain ⟨hstart, m', hm', hstart', hstop⟩ := groupingKeyword_of_twins htwins hm
    refine ⟨m', hm', ?_, hstop⟩
    simp only [hstart, hstart', isInBraces_eq_of_mirrored htwins.behind,
      belongsToAggregation_eq_of_mirrored htwins.behind]

/-! ## All rules -/

/-- Texts that differ in the length of ranges and in runs of blanks break the same rules. -/
theorem breaks_eq_of_resized (h : Exchanged Resized s t) (rule : Rule) :
    breaks s rule = breaks t rule := by
  have hback := h.symm Resized.symm
  cases rule with
  | rangeBeforeGrouping =>
    exact Bool.eq_iff_iff.mpr ⟨occurs_rangeThenGrouping_of_resized h,
      occurs_rangeThenGrouping_of_resized hback⟩
  | groupingBeforeRange =>
    exact Bool.eq_iff_iff.mpr ⟨occurs_keywordInBrackets_of_resized (k := "by") (by decide) h,
      occurs_keywordInBrackets_of_resized (by decide) hback⟩
  | complementGroupingBrackets =>
    exact Bool.eq_iff_iff.mpr ⟨occurs_keywordInBrackets_of_resized (k := "without") (by decide) h,
      occurs_keywordInBrackets_of_resized (by decide) hback⟩
  | aggregationBodyWithoutParens =>
    exact Bool.eq_iff_iff.mpr ⟨occurs_groupedWithoutBody_of_resized h,
      occurs_groupedWithoutBody_of_resized hback⟩
  | bareAggregation => exact hasBareAggregation_eq_of_resized h
  | groupingWithoutAggregation => exact hasDetachedGrouping_eq_of_resized h
  | rangeInArithmetic =>
    exact Bool.eq_iff_iff.mpr ⟨occurs_rangeThenOperator_of_resized h,
      occurs_rangeThenOperator_of_resized hback⟩
  | emptyQuery | unbalancedDelimiters | missingIdentifier | proseContamination => rfl

end AskMetrics.Query
