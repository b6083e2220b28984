import AskMetrics.Proofs.Query.Masked
import AskMetrics.Proofs.Query.Nested
import AskMetrics.Proofs.Query.Shape

/-!
# The shape of an expression

Going through the mask of an expression with the machine of its layout shows that the mask is sound
at each place and that its brackets are matched. A grouping after a bracket is the one thing that
looks back: the open brackets on the stack of the machine are those that a scan backwards meets.
-/
namespace AskMetrics.Query

open AskMetrics.Text

/-! ## Pieces with nested brackets -/

theorem not_bracket_of_isNameChar {u : Char} (h : isNameChar u = true) (k : Bracket) :
    u ≠ k.opening ∧ u ≠ k.closing := by
  cases k <;> exact ⟨ne_of_isNameChar h (by decide), ne_of_isNameChar h (by decide)⟩

theorem nested_of_isNameChar {x : List Char} (h : ∀ u ∈ x, isNameChar u = true) : Nested x :=
  .of_forall fun u hu => not_bracket_of_isNameChar (h u hu)

theorem Grouping.nested (g : Grouping) : Nested g.render := by
  have hlabels : Nested (joinWith [',', ' '] (g.labels.map LabelName.text)) := by
    refine .of_forall fun u hu => ?_
    rcases mem_joinWith_labels hu with rfl | rfl | hu
    · exact not_bracket (by decide)
    · exact not_bracket (by decide)
    · exact not_bracket_of_isNameChar hu
  have hspace : Nested [' '] := .char (not_bracket (by decide)) .nil
  have hlist := hspace.append (hlabels.brackets .round)
  exact (nested_of_isNameChar g.keeping.isNameChar).append hlist

theorem Duration.nested (d : Duration) : Nested d.render := by
  have hinside : Nested (d.digits ++ [d.unit]) := by
    refine nested_of_isNameChar fun u hu => ?_
    rcases List.mem_append.mp hu with hu | hu
    · exact isNameChar_of_isDigit (d.isDigit u hu)
    · obtain rfl : u = d.unit := by simpa using hu
      exact d.isNameChar_unit
  have hall := hinside.brackets .square
  rwa [List.append_assoc] at hall

theorem nested_maskedMatchers (ms : List Matcher) : Nested (masked.matchers ms) := by
  refine Nested.brackets .curly (.of_forall fun u hu => ?_)
  rcases mem_joinWith hu with hu | ⟨part, hpart, hu⟩
  · obtain rfl : u = ',' := by simpa using hu
    exact not_bracket (by decide)
  · obtain ⟨m, -, rfl⟩ := List.mem_map.mp hpart
    simp only [Matcher.masked, List.mem_append, List.mem_cons, List.mem_replicate,
      List.not_mem_nil, or_false] at hu
    rcases hu with hu | rfl | rfl | ⟨-, rfl⟩ | rfl
    · exact not_bracket_of_isNameChar (m.label.isNameChar u hu)
    all_goals exact not_bracket (by decide)

theorem Numeral.nested (n : Numeral) : Nested n.render := by
  refine .of_forall fun u hu => ?_
  rcases Numeral.mem_render hu with rfl | hu
  · exact not_bracket (by decide)
  · exact not_bracket_of_isNameChar hu

theorem Sign.nested (o : Sign) : Nested o.render := by
  have hall : ∀ u ∈ o.render, u ∉ ['(', ')', '[', ']', '\x7b', '\x7d'] := by
    cases o <;> exact List.all_iff_forall_prop.mp (by decide)
  exact .of_forall fun u hu => not_bracket (hall u hu)

theorem Head.nested (h : Head) : Nested (h.text masked) := by
  have hspace : Nested [' '] := .char (not_bracket (by decide)) .nil
  cases h with
  | parens => exact .nil
  | call f => exact nested_of_isNameChar f.isNameChar
  | aggregate a => exact nested_of_isNameChar a.isNameChar
  | grouped a g =>
    exact (nested_of_isNameChar a.isNameChar).append (hspace.append (g.nested.append hspace))

/-! ## The stack as a scan backwards sees it -/

/-- Going backwards over `b`, the bracket that opens last is that of the nearest head, the next one
that of the next head, and so on. -/
def Opened : List Head → List Char → Prop
  | [], _ => True
  | h :: heads, b =>
    ∃ b', beforeOpening 1 b = some ((h.text masked).reverse ++ b') ∧ AtOperand b' ∧ Opened heads b'

namespace Opened
variable {h : Head} {heads : List Head} {b c x : List Char}

theorem congr (hbc : beforeOpening 1 b = beforeOpening 1 c) (hopen : Opened heads c) :
    Opened heads b := by
  cases heads with
  | nil => trivial
  | cons head heads =>
    obtain ⟨b', hb, hrest⟩ := hopen
    exact ⟨b', hbc.trans hb, hrest⟩

theorem append (hopen : Opened heads b) (hx : Nested x) : Opened heads (x.reverse ++ b) :=
  hopen.congr hx.beforeOpening_append

theorem push (hopen : Opened heads b) (hb : AtOperand b) :
    Opened (h :: heads) ('(' :: ((h.text masked).reverse ++ b)) :=
  ⟨b, by simp [beforeOpening], hb, hopen⟩

/-- The bracket that closes next is that of the nearest head. -/
theorem pop (hopen : Opened (h :: heads) b) : Opened heads (')' :: b) := by
  obtain ⟨b', hb, -, hrest⟩ := hopen
  refine hrest.congr ?_
  calc beforeOpening 1 (')' :: b)
      = beforeOpening (0 + 1 + (0 + 1)) b := beforeOpening_closing
    _ = beforeOpening (0 + 1) ((h.text masked).reverse ++ b') := beforeOpening_add hb 0
    _ = beforeOpening 1 b' := h.nested.beforeOpening_append

end Opened

/-! ## Groupings that belong to an aggregation -/

theorem Aggregation.name_mem_operators (a : Aggregation) : a.name ∈ aggregationOperators := by
  cases a <;> decide

theorem Aggregation.lowerAscii_name (a : Aggregation) :
    lowerAscii a.name.toList = a.name.toList := by
  cases a <;> decide

/-- The word that a scan backwards finds when it comes to an operator. -/
theorem any_operator_takeWhile (a : Aggregation) {b : List Char} (hb : Opens b) :
    aggregationOperators.any (fun operator => operator.toList ==
      lowerAscii ((a.name.toList.reverse ++ b).takeWhile isNameChar).reverse) = true := by
  have hname : ∀ u ∈ a.name.toList.reverse, isNameChar u = true :=
    fun u hu => a.isNameChar u (List.mem_reverse.mp hu)
  rw [takeWhile_append_eq hname hb.not_nameChar, List.reverse_reverse, a.lowerAscii_name]
  exact List.any_eq_true.mpr ⟨a.name, a.name_mem_operators, by simp⟩

/-- An operator ends in a letter, so a scan backwards stops there. -/
theorem Aggregation.exists_reverse_eq_cons (a : Aggregation) :
    ∃ u x, a.name.toList.reverse = u :: x ∧ isAsciiBlank u = false ∧ u ≠ ')' := by
  cases a <;> exact ⟨_, _, rfl, by decide, by decide⟩

theorem Aggregation.dropWhile_reverse (a : Aggregation) (b : List Char) :
    (a.name.toList.reverse ++ b).dropWhile isAsciiBlank = a.name.toList.reverse ++ b := by
  obtain ⟨u, x, hx, hu, -⟩ := a.exists_reverse_eq_cons
  simp [hx, hu]

/-- A grouping right after an operator. -/
theorem belongsToAggregation_operator (a : Aggregation) {b : List Char} (hb : Opens b) :
    belongsToAggregation (' ' :: (a.name.toList.reverse ++ b)) = true := by
  have hword := any_operator_takeWhile a hb
  obtain ⟨u, x, hx, hu, hne⟩ := a.exists_reverse_eq_cons
  rw [hx, List.cons_append] at hword ⊢
  have hnear : (' ' :: u :: (x ++ b)).dropWhile isAsciiBlank = u :: (x ++ b) := by
    rw [List.dropWhile_cons_of_pos (by decide), List.dropWhile_cons_of_neg (by simp [hu])]
  simpa [belongsToAggregation, hnear, hne] using hword

/-- A grouping after the bracket that closes an aggregation. -/
theorem belongsToAggregation_call (a : Aggregation) {heads : List Head} {b : List Char}
    (hopen : Opened (.aggregate a :: heads) b) :
    belongsToAggregation (' ' :: ')' :: b) = true := by
  obtain ⟨b', hb, hat, -⟩ := hopen
  have hword := any_operator_takeWhile a hat.opens
  have hnear : (' ' :: ')' :: b).dropWhile isAsciiBlank = ')' :: b := by
    rw [List.dropWhile_cons_of_pos (by decide), List.dropWhile_cons_of_neg (by decide)]
  have hbefore : beforeOpening 0 (')' :: b) = some (a.name.toList.reverse ++ b') := by
    rw [beforeOpening_closing, hb]
    rfl
  simpa [belongsToAggregation, hnear, hbefore, a.dropWhile_reverse] using hword

/-! ## Sound places -/

section
variable {b a x : List Char} {u v : Char}

theorem Sound.of_head (hu : isNameChar u = false) (hrange : u = ']' → ∃ s, a = ')' :: s) :
    Sound b (u :: a) := by
  have htake : (u :: a).takeWhile isNameChar = [] := by simp [hu]
  refine ⟨?_, ?_, ?_⟩
  · rintro r heq
    obtain ⟨rfl, rfl⟩ := List.cons.inj heq
    exact hrange rfl
  · rintro - ⟨k, hk, heq⟩
    rw [htake] at heq
    exact absurd heq.symm (ne_nil_of_mem_groupingKeywords k hk)
  · rintro - ⟨w, hw, heq⟩
    have hnil : ∀ w ∈ checkedOperators, w.toList ≠ [] := by decide
    rw [htake] at heq
    exact absurd heq.symm (hnil w hw)

/-- A character that is neither part of a word nor the end of a range. -/
theorem Sound.of_not_nameChar (hu : isNameChar u = false) (hne : u ≠ ']') : Sound b (u :: a) :=
  .of_head hu fun h => absurd h hne

/-- The end of a range, with the bracket that closes the call. -/
theorem Sound.of_range : Sound b (']' :: ')' :: a) :=
  .of_head (by decide) fun _ => ⟨a, rfl⟩

/-- A digit, with which neither a keyword nor an operator begins. -/
theorem Sound.of_isDigit (hu : u.isDigit = true) : Sound b (u :: a) := by
  have hname := isNameChar_of_isDigit hu
  have htake : (u :: a).takeWhile isNameChar = u :: a.takeWhile isNameChar := by simp [hname]
  have hnot : ∀ w ∈ groupingKeywords ++ checkedOperators,
      w.toList.head?.any Char.isDigit = false := by
    decide
  refine ⟨?_, ?_, ?_⟩
  · rintro r heq
    exact absurd (List.cons.inj heq).1 (ne_of_isNameChar hname (by decide))
  · rintro - ⟨k, hk, heq⟩
    rw [htake] at heq
    simpa [← heq, hu] using hnot k (List.mem_append_left _ hk)
  · rintro - ⟨w, hw, heq⟩
    rw [htake] at heq
    simpa [← heq, hu] using hnot w (List.mem_append_right _ hw)

/-- A place between two name characters. -/
theorem Sound.inside (hu : isNameChar u = true) (hv : isNameChar v = true) :
    Sound (u :: b) (v :: a) := by
  have hedge := not_atEdge_inside (b := b) (a := a) hu hv
  refine ⟨?_, ?_, ?_⟩
  · rintro r heq
    exact absurd (List.cons.inj heq).1 (ne_of_isNameChar hv (by decide))
  · simp [hedge]
  · simp [hedge]

theorem along_sound_of_not_nameChar (h : x.all (fun u => !isNameChar u && u != ']') = true) :
    Along Sound b x a := by
  have hnot : ∀ u ∈ x, isNameChar u = false ∧ u ≠ ']' := by simpa using h
  exact along_of_next fun u hu _ _ => .of_not_nameChar (hnot u hu).1 (hnot u hu).2

/-- A word with what its keyword or operator needs after it. -/
theorem along_sound_word (hx : ∀ u ∈ x, isNameChar u = true)
    (ha : ∀ u ∈ a.head?, isNameChar u = false)
    (hkeyword : ∀ k ∈ groupingKeywords, x = k.toList →
      (∃ s, a = ' ' :: '(' :: s) ∧ belongsToAggregation b = true)
    (hoperator : ∀ w ∈ checkedOperators, x = w.toList →
      (∀ u ∈ a.head?, isBlank u = false) ∨
        ∃ k ∈ groupingKeywords, ∃ y s, (∀ u ∈ y, (u != ')') = true) ∧
          a = ' ' :: (k.toList ++ ' ' :: '(' :: (y ++ ')' :: ' ' :: '(' :: s))) :
    Along Sound b x a := by
  cases x with
  | nil => trivial
  | cons u x =>
    refine along_word hx ⟨?_, ?_, ?_⟩ fun _ _ _ _ hu hv => .inside hu hv
    · rintro r heq
      exact absurd (List.cons.inj heq).1 (ne_of_isNameChar (hx u (.head _)) (by decide))
    · rintro - ⟨k, hk, heq⟩
      rw [takeWhile_append_eq hx ha] at heq
      rw [dropWhile_append_eq hx ha]
      exact hkeyword k hk heq
    · rintro - ⟨w, hw, heq⟩
      rw [takeWhile_append_eq hx ha] at heq
      rw [dropWhile_append_eq hx ha]
      exact hoperator w hw heq

/-- A word that is neither a keyword nor an operator. -/
theorem along_sound_free (hx : ∀ u ∈ x, isNameChar u = true)
    (ha : ∀ u ∈ a.head?, isNameChar u = false)
    (hfree : ∀ w ∈ groupingKeywords ++ checkedOperators, x ≠ w.toList) : Along Sound b x a :=
  along_sound_word hx ha (fun k hk heq => absurd heq (hfree k (List.mem_append_left _ hk)))
    fun w hw heq => absurd heq (hfree w (List.mem_append_right _ hw))

/-- A word with something else than a blank after it, so that only keywords matter. -/
theorem along_sound_unspaced (hx : ∀ u ∈ x, isNameChar u = true)
    (ha : ∀ u ∈ a.head?, isNameChar u = false ∧ isBlank u = false)
    (hfree : ∀ k ∈ groupingKeywords, x ≠ k.toList) : Along Sound b x a :=
  along_sound_word hx (fun u hu => (ha u hu).1) (fun k hk heq => absurd heq (hfree k hk))
    fun _ _ _ => .inl fun u hu => (ha u hu).2

end

/-! ## Sound pieces -/

theorem mem_vocabulary_of_mem :
    ∀ w ∈ groupingKeywords ++ checkedOperators, w ∈ functionNames ++ modifierNames := by
  decide

section
variable {b a : List Char}

theorem MetricName.along_sound (m : MetricName) (ha : Ends a) : Along Sound b m.text a :=
  along_sound_free m.isNameChar ha.not_nameChar fun w hw =>
    m.ne_of_mem_vocabulary (mem_vocabulary_of_mem w hw)

theorem Keeping.mem_groupingKeywords (k : Keeping) : k.keyword ∈ groupingKeywords := by
  cases k <;> decide

theorem LabelName.ne_keyword (l : LabelName) : ∀ k ∈ groupingKeywords, l.text ≠ k.toList := by
  intro k hk
  rcases eq_of_mem_groupingKeywords hk with rfl | rfl
  · exact l.ne_by
  · exact l.ne_without

theorem FunctionName.along_sound (f : FunctionName) :
    Along Sound b f.text.toList ('(' :: a) := by
  refine along_sound_free f.isNameChar (by simp; decide) fun w hw heq => ?_
  have hsub : ∀ w ∈ groupingKeywords ++ checkedOperators,
      w ∉ functionNames ∨ w ∈ aggregationOperators := by
    decide
  obtain rfl := String.toList_inj.mp heq
  exact (hsub _ hw).elim (fun h => h f.known) f.not_aggregation

theorem Aggregation.ne_keyword (a : Aggregation) :
    ∀ k ∈ groupingKeywords, a.name.toList ≠ k.toList := by
  cases a <;> decide

/-- A list of labels: each label has a comma or the bracket after it. -/
theorem along_sound_labels (ls : List LabelName) :
    Along Sound b (joinWith [',', ' '] (ls.map LabelName.text)) (')' :: a) := by
  refine along_joinWith (B := fun _ => True)
    (A := fun a => ∀ u ∈ a.head?, isNameChar u = false ∧ isBlank u = false) ?_ ?_ ?_ ?_ trivial ?_
  · intro part hpart b a _ ha
    obtain ⟨l, -, rfl⟩ := List.mem_map.mp hpart
    exact along_sound_unspaced l.isNameChar ha l.ne_keyword
  · exact fun _ _ => along_sound_of_not_nameChar (by decide)
  · exact fun _ => trivial
  · exact fun _ => by simp; decide
  · simp
    decide

/-- A grouping that belongs to an aggregation. -/
theorem Grouping.along_sound (g : Grouping) (hb : belongsToAggregation b = true) :
    Along Sound b g.render a := by
  have hmem := g.keeping.mem_groupingKeywords
  have hnot : ∀ k ∈ groupingKeywords, ∀ w ∈ checkedOperators, k.toList ≠ w.toList := by decide
  refine along_append.mpr ⟨?_, ?_⟩
  · refine along_sound_word g.keeping.isNameChar (by simp; decide) (fun k hk heq => ?_)
      fun w hw heq => absurd heq (hnot _ hmem w hw)
    exact ⟨⟨_, rfl⟩, hb⟩
  · refine ⟨.of_not_nameChar (by decide) (by decide), .of_not_nameChar (by decide) (by decide), ?_⟩
    refine along_append.mpr ⟨along_sound_labels g.labels, ?_⟩
    exact along_sound_of_not_nameChar (by decide)

theorem Matcher.along_sound (m : Matcher) : Along Sound b m.masked a := by
  refine along_append.mpr ⟨?_, ?_⟩
  · exact along_sound_unspaced m.label.isNameChar (by simp; decide) m.label.ne_keyword
  · refine along_of_next fun u hu _ _ => ?_
    simp only [List.mem_append, List.mem_cons, List.mem_replicate, List.not_mem_nil,
      or_false] at hu
    rcases hu with rfl | rfl | ⟨-, rfl⟩ | rfl <;>
      exact .of_not_nameChar (by decide) (by decide)

theorem along_sound_matchers (ms : List Matcher) : Along Sound b (masked.matchers ms) a := by
  refine ⟨.of_not_nameChar (by decide) (by decide), along_append.mpr ⟨?_, ?_⟩⟩
  · refine along_joinWith (B := fun _ => True) (A := fun _ => True) ?_ ?_ ?_ ?_ trivial trivial
    · intro part hpart b a _ _
      obtain ⟨m, -, rfl⟩ := List.mem_map.mp hpart
      exact m.along_sound
    · exact fun _ _ => along_sound_of_not_nameChar (by decide)
    · exact fun _ => trivial
    · exact fun _ => trivial
  · exact along_sound_of_not_nameChar (by decide)

/-- A range with the bracket that closes the call around it. -/
theorem Duration.along_sound (d : Duration) : Along Sound b (d.render ++ [')']) a := by
  have hunit : ∀ w ∈ groupingKeywords ++ checkedOperators, [d.unit] ≠ w.toList := by
    have hlong : ∀ w ∈ groupingKeywords ++ checkedOperators, w.toList.length ≠ 1 := by decide
    exact fun w hw heq => hlong w hw (by rw [← heq]; rfl)
  have htext : d.render ++ [')'] = '[' :: (d.digits ++ ([d.unit] ++ [']', ')'])) := by
    simp [Duration.render]
  rw [htext]
  refine ⟨.of_not_nameChar (by decide) (by decide), ?_⟩
  refine along_append.mpr ⟨?_, along_append.mpr ⟨?_, ?_⟩⟩
  · exact along_of_next fun u hu _ _ => .of_isDigit (d.isDigit u hu)
  · exact along_sound_free (by simpa using d.isNameChar_unit) (by simp; decide) hunit
  · exact ⟨.of_range, .of_not_nameChar (by decide) (by decide), trivial⟩

theorem Numeral.along_sound (n : Numeral) : Along Sound b n.render a := by
  refine along_append.mpr ⟨?_, along_of_next fun u hu _ _ => .of_isDigit (n.isDigit u hu)⟩
  split_ifs
  · exact along_sound_of_not_nameChar (by decide)
  · trivial

theorem Sign.along_sound (o : Sign) : Along Sound b o.render a := by
  cases o <;> exact along_sound_of_not_nameChar (by decide)

/-- What stands before a round bracket, at a place for an operand. -/
theorem Head.along_sound (h : Head) (hb : Opens b) : Along Sound b (h.text masked) ('(' :: a) := by
  cases h with
  | parens => trivial
  | call f => exact f.along_sound
  | aggregate g => exact along_sound_unspaced g.isNameChar (by simp; decide) g.ne_keyword
  | grouped o g =>
    have hmem := g.keeping.mem_groupingKeywords
    have hgrouping : Along Sound (' ' :: (o.name.toList.reverse ++ b)) (g.render ++ [' '])
        ('(' :: a) := by
      refine along_append.mpr ⟨g.along_sound (belongsToAggregation_operator o hb), ?_⟩
      exact along_sound_of_not_nameChar (by decide)
    refine along_append.mpr ⟨?_, .of_not_nameChar (by decide) (by decide), hgrouping⟩
    refine along_sound_word o.isNameChar (by simp; decide)
      (fun k hk heq => absurd heq (o.ne_keyword k hk)) fun w hw heq => .inr ?_
    exact ⟨_, hmem, _, a, not_closing_of_mem_labels g.labels, by simp [masked, Grouping.render]⟩

end

/-! ## Rows -/

/-- The mask of a row is sound at each place. -/
theorem Layout.sound {w : Bool} {heads : List Head} {ps : List Piece} (h : Layout w heads ps)
    {b : List Char} (hb : w = true → AtOperand b) (hopen : Opened heads b) :
    Along Sound b (textOf masked ps) [] := by
  induction h generalizing b with
  | done => trivial
  | metric m rest ih =>
    refine along_append.mpr ⟨m.along_sound ?_, ih (by simp) ?_⟩
    · rw [List.append_nil]
      exact rest.ends_textOf
    · exact hopen.append (nested_of_isNameChar m.isNameChar)
  | matchers ms _ ih =>
    exact along_append.mpr ⟨along_sound_matchers ms,
      ih (by simp) (hopen.append (nested_maskedMatchers ms))⟩
  | range f d _ ih =>
    refine along_append.mpr ⟨d.along_sound, ih (by simp) ?_⟩
    simpa [Piece.text] using (hopen.append d.nested).pop
  | opening h _ ih =>
    have hat := hb rfl
    refine along_append.mpr ⟨along_append.mpr ⟨h.along_sound hat.opens, ?_⟩, ih ?_ ?_⟩
    · exact along_sound_of_not_nameChar (by decide)
    · exact fun _ => atOperand_opening h
    · simpa [Piece.text] using hopen.push hat
  | closing h _ ih =>
    refine along_append.mpr ⟨along_sound_of_not_nameChar (by decide), ih (by simp) ?_⟩
    simpa [Piece.text] using hopen.pop
  | closingBy o g _ ih =>
    have hafter : Nested (' ' :: g.render) := .char (not_bracket (by decide)) g.nested
    have hbelongs := belongsToAggregation_call o hopen
    refine along_append.mpr ⟨?_, ih (by simp) ?_⟩
    · exact ⟨.of_not_nameChar (by decide) (by decide), .of_not_nameChar (by decide) (by decide),
        g.along_sound hbelongs⟩
    · simpa [Piece.text, masked] using hopen.pop.append hafter
  | numeral n _ ih =>
    exact along_append.mpr ⟨n.along_sound, ih (by simp) (hopen.append n.nested)⟩
  | sign o _ ih =>
    exact along_append.mpr ⟨o.along_sound, ih (fun _ => atOperand_sign o) (hopen.append o.nested)⟩

/-- The brackets in the mask of a row close all that is open, and their own. -/
theorem Layout.closes {w : Bool} {heads : List Head} {ps : List Piece} (h : Layout w heads ps) :
    closes ⟨heads.length, 0, 0⟩ (textOf masked ps) = true := by
  induction h with
  | done => rfl
  | metric m _ ih => exact ((nested_of_isNameChar m.isNameChar).closes_append _ _).trans ih
  | matchers ms _ ih => exact ((nested_maskedMatchers ms).closes_append _ _).trans ih
  | range f d _ ih =>
    rw [textOf_cons, Piece.text, List.append_assoc, d.nested.closes_append]
    exact ih
  | opening h _ ih =>
    rw [textOf_cons, Piece.text, List.append_assoc, h.nested.closes_append]
    exact ih
  | closing h _ ih => exact ih
  | closingBy o g _ ih =>
    have hafter : Nested (' ' :: g.render) := .char (not_bracket (by decide)) g.nested
    exact (hafter.closes_append _ _).trans ih
  | numeral n _ ih => exact (n.nested.closes_append _ _).trans ih
  | sign o _ ih => exact (o.nested.closes_append _ _).trans ih

end AskMetrics.Query
