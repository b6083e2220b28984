import AskMetrics.Proofs.Query.Operators
import AskMetrics.Proofs.Text.Place

/-!
# Labels among the metric names

The labels of a list are no metrics, so label lists are taken out of a query before names are looked
for in it. What is taken out are the lists whose keyword is in lower case. A label of another list
is left, although the vocabulary knows the keyword in every letter case, and it is reported as a
metric if it looks like one.

Taking parts out of a text cuts no name without a colon in two: a part neither starts right behind
such a name with a character that the name could go on with, nor ends in one. So the tokens that are
left are those of the text before that start in no part. That holds for all three kinds of parts. A
label list moreover ends where any other one that starts inside it ends, so it does not matter which
of them is taken out.
-/
namespace AskMetrics.Query

open AskMetrics.Text

/-! ## Tokens and parts -/

/-- A token that does not go on a number. -/
def Token.StandsFree (k : Token) : Prop :=
  ∀ u ∈ k.before.getLast?, u.isDigit = false ∧ u ≠ '.'

/-- A token that starts in a part of a kind, before the end of it. -/
def Token.StartsIn (K : List Char → List Char → Prop) (k : Token) : Prop :=
  ∃ b w₁ w₂ a, w₂ ≠ [] ∧ K b (w₁ ++ w₂) ∧ k.before = b.reverse ++ w₁ ∧ k.word ++ k.after = w₂ ++ a

/-- A kind of parts that cut no names: no part ends in a character of names, and none goes on a name
without a colon. -/
structure Apart (K : List Char → List Char → Prop) : Prop where
  ne_nil : ∀ {b w}, K b w → w ≠ []
  last : ∀ {b w}, K b w → ∃ z u, w = z ++ [u] ∧ isIdentChar u = false ∧ u ≠ '.'
  first : ∀ {u b w}, isNameChar u = true → K (u :: b) w → ∀ v ∈ w.head?, isIdentChar v = false

/-- A token of a divided text and what becomes of it when a space is put in place of each part. -/
def Survives (d : Division) (k k' : Token) : Prop :=
  ∃ (e : Division) (w : List Char) (f : Division), d = e.append (.keepAll w f) ∧
    k = ⟨e.text, w, f.text⟩ ∧ k' = ⟨(e.put [' ']).text, w, (f.put [' ']).text⟩

section
variable {K : List Char → List Char → Prop} {d : Division} {k k' : Token} {s t v w x : List Char}

namespace Survives

/-- Nothing happens to the word. -/
theorem word_eq (h : Survives d k k') : k'.word = k.word := by
  obtain ⟨e, w, f, -, rfl, rfl⟩ := h
  rfl

/-- What is left is a token exactly if it was one before. -/
theorem isIn_iff (h : Survives d k k') (hK : Apart K) (hd : Divided K [] s d)
    (hword : ∀ u ∈ k.word, isNameChar u = true) : k'.IsIn (d.put [' ']).text ↔ k.IsIn s := by
  obtain ⟨e, w, f, rfl, rfl, rfl⟩ := h
  have hparts : ∀ w ∈ e.parts, ∃ z u, w = z ++ [u] ∧ isIdentChar u = false := by
    intro w hw
    obtain ⟨b, hb⟩ := hd.of_mem_parts w (by simp [Division.parts_append, hw])
    obtain ⟨z, u, hz, hu, -⟩ := hK.last hb
    exact ⟨z, u, hz, hu⟩
  rw [Token.isIn_iff, Token.isIn_iff, ← hd.text_eq]
  simp only [Division.put_append, Division.put_keepAll, Division.text_append,
    Division.text_keepAll, true_and]
  refine and_congr_right fun hname => and_congr ?_ (forall_congr' fun x => ?_)
  · -- a part behind the name begins with something else than a name goes on with
    rcases f.head?_put (v := ' ') with hsame | ⟨hspace, w', g, rfl⟩
    · rw [Ends, Ends, hsame]
    · obtain ⟨u, z, hz⟩ := List.exists_cons_of_ne_nil (List.reverse_ne_nil_iff.mpr hname.ne_nil)
      have hu : isNameChar u = true := hword u (List.mem_reverse.mp (by simp [hz]))
      have hpart := hd.of_append.of_keepAll.of_part
      rw [hz, List.cons_append] at hpart
      refine iff_of_true (fun v hv => ?_) (fun v hv => ?_)
      · obtain rfl : ' ' = v := by simpa [hspace] using hv
        decide
      · rw [Division.text, List.head?_append_of_ne_nil _ (hK.ne_nil hpart)] at hv
        exact hK.first hu hpart v hv
  · -- a part before the name ends in something else than a name has
    have hsame (hx : IsName x) : x <:+ (e.put [' ']).text ↔ x <:+ e.text :=
      Division.suffix_put_iff hx.isIdentChar (by decide) hparts
    exact ⟨fun h hin hx => h ((hsame hx).mpr hin) hx, fun h hin hx => h ((hsame hx).mp hin) hx⟩

/-- Whether a token goes on a number is the same before and afterwards. -/
theorem standsFree_iff (h : Survives d k k') (hK : Apart K) (hd : Divided K [] s d) :
    k'.StandsFree ↔ k.StandsFree := by
  obtain ⟨e, w, f, rfl, rfl, rfl⟩ := h
  have hparts : ∀ w ∈ e.parts, ∃ b, K b w := fun w hw =>
    hd.of_mem_parts w (by simp [Division.parts_append, hw])
  have hne : ∀ w ∈ e.parts, w ≠ [] := fun w hw =>
    let ⟨_, hb⟩ := hparts w hw
    hK.ne_nil hb
  rcases e.getLast?_put (v := ' ') hne with hsame | ⟨hspace, w', hw', hlast⟩
  · rw [Token.StandsFree, Token.StandsFree, hsame]
  · obtain ⟨b, hb⟩ := hparts w' hw'
    obtain ⟨z, u, rfl, hu, hpoint⟩ := hK.last hb
    have hdigit : u.isDigit = false := by
      by_contra hdigit
      have hname := isNameChar_of_isDigit (by simpa using hdigit)
      simp [isIdentChar_of_isNameChar hname] at hu
    refine iff_of_true (fun v hv => ?_) (fun v hv => ?_)
    · obtain rfl : ' ' = v := by simpa [hspace] using hv
      decide
    · obtain rfl : u = v := by simpa [hlast] using hv
      exact ⟨hdigit, hpoint⟩

/-- Each token that is left comes from one of the text before. -/
theorem exists_of_isIn (h : k'.IsIn (d.put [' ']).text) : ∃ k, Survives d k k' := by
  have hspace : ' ' ∉ k'.word := fun hmem => absurd (h.name.isIdentChar ' ' hmem) (by decide)
  obtain ⟨e, g, rfl, hbefore, hrest⟩ := Division.exists_append_of_put h.text.symm
  obtain ⟨f, rfl, hafter⟩ := Division.exists_keepAll_of_put hspace hrest
  exact ⟨⟨e.text, k'.word, f.text⟩, e, k'.word, f, rfl, rfl, by rw [hbefore, hafter]⟩

/-- A name without a colon is left if it starts in no part. -/
theorem exists_of_not_startsIn (hK : Apart K) (hdefinite : Definite K) (hd : Divided K [] s d)
    (hk : k.IsIn s) (hword : ∀ u ∈ k.word, isNameChar u = true) (hnot : ¬ k.StartsIn K) :
    ∃ k', Survives d k k' := by
  rcases Division.exists_append_or_inside (hd.text_eq.trans hk.text.symm) with
    ⟨e, g, rfl, hbefore, hrest⟩ | ⟨e, w₁, w₂, g, h₁, h₂, rfl, hbefore, hrest⟩
  · have hhere := hd.of_append
    rw [hrest, List.append_nil, hbefore] at hhere
    have hvacant : Along (Vacant K) k.before.reverse k.word k.after := by
      refine along_word hword (fun w hw hpre => hnot ?_) fun b a u v hu hv w hw hpre => ?_
      · obtain ⟨r, hr⟩ := hpre
        exact ⟨k.before.reverse, [], w, r, hK.ne_nil hw, hw, by simp, hr.symm⟩
      · obtain ⟨u', z, rfl⟩ := List.exists_cons_of_ne_nil (hK.ne_nil hw)
        obtain ⟨rfl, -⟩ := List.cons_prefix_cons.mp hpre
        have hident := hK.first hu hw u' rfl
        simp [isIdentChar_of_isNameChar hv] at hident
    obtain ⟨f, hf, rfl⟩ := (divided_keepAll_iff hvacant hdefinite).mp hhere
    exact ⟨_, e, k.word, f, rfl, by rw [hbefore, hf.text_eq], rfl⟩
  · have hpart := hd.of_append.of_part
    rw [List.append_nil] at hpart
    exact absurd ⟨e.text.reverse, w₁, w₂, g.text, h₂, hpart, by simpa using hbefore, hrest⟩ hnot

end Survives

/-! ## Label lists -/

/-- A list that starts inside another one ends with it, at the next closing bracket. -/
theorem IsLabelList.eq_of_overlap {b b' z r w a a' : List Char} (hr : r ≠ [])
    (h : IsLabelList b (z ++ r)) (h' : IsLabelList b' w) (heq : w ++ a = r ++ a') : w = r := by
  have hclosing : ∀ {b w}, IsLabelList b w → ∃ x, w = x ++ [')'] ∧ ')' ∉ x := by
    rintro _ _ @⟨y, x, k, -, hk, hy, hx⟩
    have hname := isNameChar_of_mem_listKeywords k hk
    refine ⟨k.toList ++ (y ++ '(' :: x), by simp, ?_⟩
    have hnot : ')' ∉ k.toList ∧ ')' ∉ y :=
      ⟨fun hmem => absurd (hname ')' hmem) (by decide),
        fun hmem => absurd (hy ')' hmem) (by decide)⟩
    simp [hnot.1, hnot.2, hx]
  obtain ⟨x, hw, hx⟩ := hclosing h'
  obtain ⟨x', hzr, hx'⟩ := hclosing h
  obtain ⟨r, u, rfl⟩ := (List.eq_nil_or_concat' r).resolve_left hr
  rw [← List.append_assoc] at hzr
  obtain ⟨rfl, hu⟩ := List.append_inj' hzr rfl
  obtain rfl : u = ')' := by simpa using hu
  rw [hw, List.append_assoc, List.append_assoc] at heq
  rw [hw, eq_of_append_cons_eq hx (fun hmem => hx' (List.mem_append_right _ hmem)) heq]

theorem apart_isLabelList : Apart IsLabelList where
  ne_nil := definite_isLabelList.ne_nil
  last h := by
    obtain @⟨y, x, k, -, -, -, -⟩ := h
    exact ⟨k.toList ++ (y ++ '(' :: x), ')', by simp, by decide⟩
  first hu h := by
    obtain ⟨hb, -, -, -⟩ := h
    rw [opens_cons, isWord_of_isNameChar hu] at hb
    exact absurd hb (by decide)

/-- A token that is left when the label lists are taken out was in no list, whether taken out or
not. -/
theorem Survives.not_startsIn (h : Survives d k k') (hd : Divided IsLabelList [] s d)
    (hne : k.word ≠ []) : ¬ k.StartsIn IsLabelList := by
  rintro ⟨b, w₁, w₂, a, h₂, hlist, hbefore, hrest⟩
  obtain ⟨e, w, f, rfl, rfl, -⟩ := h
  rcases Division.exists_append_or_inside hbefore with
    ⟨e₁, e₂, rfl, hb, hw₁⟩ | ⟨e₁, z₁, z₂, e₂, -, hz, rfl, hb, hw₁⟩
  · -- the list starts at a place outside the parts, so it is taken out
    rw [Division.append_assoc] at hd
    have hbehind := hd.of_append
    rw [hb, List.append_nil, List.reverse_reverse, Division.text_append, Division.text_keepAll,
      hw₁, hrest, ← List.append_assoc] at hbehind
    obtain ⟨g, hg⟩ := hbehind.exists_part definite_isLabelList hlist
    cases e₂ with
    | nil =>
      obtain ⟨u, z, rfl⟩ := List.exists_cons_of_ne_nil hne
      simp [Division.append, Division.keepAll] at hg
    | keep u e₂ => simp [Division.append] at hg
    | part w' e₂ =>
      obtain ⟨rfl, -⟩ : w' = w₁ ++ w₂ ∧ _ := by simpa [Division.append] using hg
      simp [Division.text, h₂] at hw₁
  · -- the list starts inside a part, and ends with it
    rw [Division.append_assoc] at hd
    have hpart := hd.of_append.of_part
    have hsame : w₁ ++ w₂ ++ [] = z₂ ++ (e₂.text ++ w₂) := by simp [hw₁]
    have hshort := hpart.eq_of_overlap hz hlist hsame
    rw [hw₁] at hshort
    simp [h₂] at hshort

/-- The keywords that take labels. -/
def IsListKeyword (w : List Char) : Prop := ∃ k ∈ listKeywords, w = k.toList

/-- The keywords that take labels, in any letter case. -/
def IsAnyCaseListKeyword (w : List Char) : Prop := ∃ k ∈ listKeywords, lowerAscii w = k.toList

/-- The characters that lists of labels are made of. -/
def isLabelChar (u : Char) : Bool := isNameChar u || u == ',' || isBlank u

/-- A keyword of a class that begins a word, and a list of labels in brackets behind it. -/
inductive IsLabels (P : List Char → Prop) : List Char → List Char → Prop
  | mk {b k y x : List Char} (hb : Opens b) (hk : P k) (hy : ∀ u ∈ y, isBlank u = true)
    (hx : ∀ u ∈ x, isLabelChar u = true) : IsLabels P b (k ++ (y ++ '(' :: (x ++ [')'])))

theorem IsLabels.isLabelList {b : List Char} (h : IsLabels IsListKeyword b w) :
    IsLabelList b w := by
  obtain ⟨hb, ⟨k, hk, rfl⟩, hy, hx⟩ := h
  exact .mk hb hk hy fun hmem => absurd (hx ')' hmem) (by decide)

/-- A character of a list of labels with its keyword and brackets. -/
def isListChar (u : Char) : Bool := isLabelChar u || u == '(' || u == ')'

/-- The characters that literals and label matchers begin and end with. -/
def fences : List Char := ['"', '\'', '\x60', '\x7b', '\x7d']

/-- A kind of parts between two of these. -/
def Fenced (K : List Char → List Char → Prop) : Prop :=
  ∀ b w, K b w → ∃ u x v, w = u :: (x ++ [v]) ∧ u ∈ fences ∧ v ∈ fences

/-- They are in no list of labels and in no name. -/
theorem of_mem_fences {u : Char} (h : u ∈ fences) :
    isListChar u = false ∧ isIdentChar u = false ∧ u ≠ '.' := by
  have hall : (fences.all fun u => !isListChar u && !isIdentChar u && u != '.') = true := by
    decide
  simpa [and_assoc] using List.all_eq_true.mp hall u h

theorem Fenced.apart (hK : Fenced K) : Apart K where
  ne_nil h := by
    obtain ⟨u, x, v, rfl, -, -⟩ := hK _ _ h
    simp
  last h := by
    obtain ⟨u, x, v, rfl, -, hv⟩ := hK _ _ h
    exact ⟨u :: x, v, rfl, (of_mem_fences hv).2⟩
  first _ h := by
    obtain ⟨u, x, v, rfl, hu, -⟩ := hK _ _ h
    simpa using (of_mem_fences hu).2.1

theorem fenced_isLiteral : Fenced fun _ => IsLiteral := by
  rintro - _ h
  cases h with
  | quoted hq => exact ⟨_, _, _, rfl, by rcases hq with rfl | rfl <;> decide,
      by rcases hq with rfl | rfl <;> decide⟩
  | backticked => exact ⟨_, _, _, rfl, by decide, by decide⟩

theorem fenced_isMatchers : Fenced fun _ => IsMatchers := by
  rintro - _ ⟨-⟩
  exact ⟨_, _, _, rfl, by decide, by decide⟩

theorem IsLabels.isListChar {P : List Char → Prop} {b : List Char}
    (hP : ∀ k, P k → ∀ u ∈ k, isNameChar u = true) (h : IsLabels P b w) :
    ∀ u ∈ w, isListChar u = true := by
  obtain ⟨-, hk, hy, hx⟩ := h
  intro u hu
  simp only [List.mem_append, List.mem_cons, List.not_mem_nil, or_false] at hu
  rcases hu with hu | hu | rfl | hu | rfl
  · simp [Query.isListChar, isLabelChar, hP _ hk u hu]
  · simp [Query.isListChar, isLabelChar, hy u hu]
  · decide
  · simp [Query.isListChar, hx u hu]
  · decide

/-- A list of labels stays one when what is before it changes, as long as a word does not reach
it. -/
theorem IsLabels.of_opens {P : List Char → Prop} {b b' : List Char} (h : IsLabels P b w)
    (hb : Opens b → Opens b') : IsLabels P b' w := by
  obtain ⟨hopens, hk, hy, hx⟩ := h
  exact .mk (hb hopens) hk hy hx

/-- A token in a list of labels is in one after parts are taken out that do not begin or end in such
a list. -/
theorem Survives.startsIn_labels {P : List Char → Prop}
    (hP : ∀ k, P k → ∀ u ∈ k, isNameChar u = true) (hK : Fenced K) (h : Survives d k k')
    (hd : Divided K [] s d) (hk : k.StartsIn (IsLabels P)) : k'.StartsIn (IsLabels P) := by
  obtain ⟨b, w₁, w₂, a, h₂, hlist, hbefore, hrest⟩ := hk
  obtain ⟨e, w, f, rfl, rfl, rfl⟩ := h
  have hchar := List.forall_mem_append.mp (hlist.isListChar hP)
  have hrest' : (Division.keepAll w f).text = w₂ ++ a := by rw [Division.text_keepAll, hrest]
  have hfence : ∀ z ∈ e.parts ++ (Division.keepAll w f).parts,
      z ≠ [] ∧ (∃ u ∈ z.head?, Query.isListChar u = false) ∧
        ∃ u ∈ z.getLast?, Query.isListChar u = false := by
    intro z hz
    rw [← Division.parts_append] at hz
    obtain ⟨_, hb⟩ := hd.of_mem_parts z hz
    obtain ⟨u, x, v, rfl, hu, hv⟩ := hK _ _ hb
    exact ⟨by simp, ⟨u, rfl, (of_mem_fences hu).1⟩,
      ⟨v, by rw [← List.cons_append, List.getLast?_concat]; rfl, (of_mem_fences hv).1⟩⟩
  obtain ⟨hbehind, hahead⟩ := List.forall_mem_append.mp hfence
  obtain ⟨g, hg, rfl⟩ := Division.exists_keepAll hchar.2 (fun z hz => (hahead z hz).2.1) hrest'
  obtain ⟨e', rfl, hb⟩ :=
    Division.exists_append_keepAll hchar.1 (fun z hz => (hbehind z hz).2.2) hbefore
  refine ⟨(e'.put [' ']).text.reverse, w₁, w₂, (g.put [' ']).text, h₂, hlist.of_opens ?_, ?_, ?_⟩
  · -- a word that reaches the list afterwards reaches it before
    intro hopens u hu
    have hne : ∀ z ∈ e'.parts, z ≠ [] := fun z hz =>
      (hbehind z (by simp [Division.parts_append, hz])).1
    rw [List.head?_reverse] at hu
    rcases e'.getLast?_put (v := ' ') hne with hsame | ⟨hspace, -⟩
    · exact hopens u (by rwa [hsame, hb, List.getLast?_reverse] at hu)
    · obtain rfl : ' ' = u := by simpa [hspace] using hu
      decide
  · simp [Division.put, Division.text]
  · have hput := congrArg (fun d => (d.put [' ']).text) hg
    simpa using hput

/-- `v` is `s` without its literals, and then without the label matchers of what is left. -/
def Stripped (s v : List Char) : Prop :=
  ∃ u, Without (fun _ => IsLiteral) s u ∧ Without (fun _ => IsMatchers) u v

theorem stripped_iff :
    Stripped s v ↔ v = blankOut matchersPattern (blankOut literalPattern s) := by
  simp only [Stripped, without_iff depicts_literalPattern definite_isLiteral,
    without_iff depicts_matchersPattern definite_isMatchers, exists_eq_left]

/-- A token that is left when parts are taken out was there before. -/
theorem Without.exists_of_isIn (h : Without K s t) (hK : Apart K) (hk : k'.IsIn t)
    (hword : ∀ u ∈ k'.word, isNameChar u = true) :
    ∃ d k, Divided K [] s d ∧ Survives d k k' ∧ k.IsIn s ∧ k.word = k'.word ∧
      (k'.StandsFree ↔ k.StandsFree) := by
  obtain ⟨d, hd, rfl⟩ := h
  obtain ⟨k, hsurvives⟩ := Survives.exists_of_isIn hk
  have hsame := hsurvives.word_eq
  exact ⟨d, k, hd, hsurvives, (hsurvives.isIn_iff hK hd (hsame ▸ hword)).mp hk, hsame.symm,
    hsurvives.standsFree_iff hK hd⟩

/-- The tokens that are left when the label lists are taken out are those in no label list. -/
theorem exists_token_iff (h : Without IsLabelList v t) (hx : ∀ u ∈ x, isNameChar u = true) :
    (∃ k : Token, k.IsIn t ∧ k.word = x ∧ k.StandsFree) ↔
      ∃ k : Token, k.IsIn v ∧ k.word = x ∧ k.StandsFree ∧ ¬ k.StartsIn IsLabelList := by
  constructor
  · rintro ⟨k', hk', rfl, hfree⟩
    obtain ⟨d, k, hd, hsurvives, hk, hword, hstands⟩ := h.exists_of_isIn apart_isLabelList hk' hx
    exact ⟨k, hk, hword, hstands.mp hfree, hsurvives.not_startsIn hd hk.name.ne_nil⟩
  · rintro ⟨k, hk, rfl, hfree, hnot⟩
    obtain ⟨d, hd, rfl⟩ := h
    obtain ⟨k', hsurvives⟩ :=
      Survives.exists_of_not_startsIn apart_isLabelList definite_isLabelList hd hk hx hnot
    exact ⟨k', (hsurvives.isIn_iff apart_isLabelList hd hx).mpr hk, hsurvives.word_eq,
      (hsurvives.standsFree_iff apart_isLabelList hd).mpr hfree⟩

/-- If each token of a word is in a list of labels, so it is without literals and matchers. -/
theorem Stripped.startsIn_labels {P : List Char → Prop}
    (hP : ∀ k, P k → ∀ u ∈ k, isNameChar u = true) (h : Stripped s v)
    (hx : ∀ u ∈ x, isNameChar u = true)
    (hall : ∀ k : Token, k.IsIn s → k.word = x → k.StartsIn (IsLabels P)) :
    ∀ k : Token, k.IsIn v → k.word = x → k.StartsIn (IsLabels P) := by
  obtain ⟨u, hliteral, hmatchers⟩ := h
  rintro k₂ hk₂ rfl
  obtain ⟨d₁, k₁, hd₁, hlater, hk₁, hword₁, -⟩ :=
    hmatchers.exists_of_isIn fenced_isMatchers.apart hk₂ hx
  obtain ⟨d₀, k₀, hd₀, hearlier, hk₀, hword₀, -⟩ :=
    hliteral.exists_of_isIn fenced_isLiteral.apart hk₁ (hword₁ ▸ hx)
  exact hlater.startsIn_labels hP fenced_isMatchers hd₁
    (hearlier.startsIn_labels hP fenced_isLiteral hd₀ (hall k₀ hk₀ (hword₀.trans hword₁)))

theorem isNameChar_of_isListKeyword (h : IsListKeyword w) : ∀ u ∈ w, isNameChar u = true := by
  obtain ⟨k, hk, rfl⟩ := h
  exact isNameChar_of_mem_listKeywords k hk

/-- The metric names are the words of the tokens that stand in no label list, once literals and
label matchers are taken out. -/
theorem Stripped.mem_metricNames_iff (h : Stripped s v) (hx : ∀ u ∈ x, isNameChar u = true) :
    x ∈ metricNames s ↔ isMetricLike x = true ∧
      ∃ k : Token, k.IsIn v ∧ k.word = x ∧ k.StandsFree ∧ ¬ k.StartsIn IsLabelList := by
  have hlists : Without IsLabelList v (scrub s) := by
    rw [stripped_iff.mp h, without_iff depicts_labelListPattern definite_isLabelList]
    rfl
  rw [Query.mem_metricNames_iff, ← exists_token_iff hlists hx]
  constructor
  · rintro ⟨k, hk, hcandidate, rfl⟩
    obtain ⟨hfree, hlike⟩ := Token.isCandidate_iff.mp hcandidate
    exact ⟨hlike, k, hk, rfl, hfree⟩
  · rintro ⟨hlike, k, hk, rfl, hfree⟩
    exact ⟨k, hk, Token.isCandidate_iff.mpr ⟨hfree, hlike⟩, rfl⟩

/-- **Labels among the metric names**: for every query and every name that a label can have, the
name is reported as a metric exactly if it looks like one and stands, once literals and label
matchers are taken out, somewhere outside of all label lists that have their keyword in lower case,
not right behind a digit or a point. So a label that stands in such lists only, in the query itself,
is never reported. -/
theorem label_mem_metricNames (s : List Char) (hx : isIdentifier x = true) :
    (∃ v, (∀ v', Stripped s v' ↔ v' = v) ∧
      (x ∈ metricNames s ↔ isMetricLike x = true ∧
        ∃ k : Token, k.IsIn v ∧ k.word = x ∧ k.StandsFree ∧ ¬ k.StartsIn IsLabelList)) ∧
    ((∀ k : Token, k.IsIn s → k.word = x → k.StartsIn (IsLabels IsListKeyword)) →
      x ∉ metricNames s) := by
  have hname := isNameChar_of_isIdentifier hx
  have hstripped := stripped_iff (s := s).mpr rfl
  refine ⟨⟨_, fun v' => stripped_iff, hstripped.mem_metricNames_iff hname⟩, fun hall hmem => ?_⟩
  obtain ⟨-, k, hk, hword, -, hnot⟩ := (hstripped.mem_metricNames_iff hname).mp hmem
  obtain ⟨b, w₁, w₂, a, h₂, hlist, hbefore, hrest⟩ :=
    hstripped.startsIn_labels (fun _ => isNameChar_of_isListKeyword) hname hall k hk hword
  exact hnot ⟨b, w₁, w₂, a, h₂, hlist.isLabelList, hbefore, hrest⟩

/-- What holds of all tokens can be computed. -/
theorem Tokens.forall_iff {ks : List Token} (h : Tokens t ks) {P : Token → Prop} :
    (∀ k : Token, k.IsIn t → P k) ↔ ∀ k ∈ ks, P k :=
  forall_congr' fun k => imp_congr_left (h.mem_iff k).symm

/-- A token in a list of labels that is given by its parts. -/
theorem Token.startsIn_labels {P : List Char → Prop} {b y z r a : List Char}
    (hbefore : k.before = b.reverse ++ (w ++ (y ++ '(' :: z))) (hrest : k.after = r ++ ')' :: a)
    (hb : Opens b) (hw : P w) (hy : ∀ u ∈ y, isBlank u = true)
    (hx : ∀ u ∈ z ++ (k.word ++ r), isLabelChar u = true) : k.StartsIn (IsLabels P) := by
  refine ⟨b, w ++ (y ++ '(' :: z), k.word ++ (r ++ [')']), a, by simp, ?_, hbefore, ?_⟩
  · have hlist := IsLabels.mk hb hw hy hx
    simpa using hlist
  · simp [hrest]

/-- A label in a list behind a literal that has a bracket: it is not reported. -/
theorem label_mem_metricNames_perInstance :
    "instance_name".toList ∉
      metricNames "x_1 > \")\" + on(job, instance_name) http_hits".toList := by
  have hplace : ∀ k : Token, k.IsIn "x_1 > \")\" + on(job, instance_name) http_hits".toList →
      k.word = "instance_name".toList →
      k.before = "x_1 > \")\" + on(job, ".toList ∧ k.after = ") http_hits".toList :=
    (tokens_findAll _).forall_iff.mpr (by decide +kernel)
  refine (label_mem_metricNames _ (by decide +kernel)).2 fun k hk hword => ?_
  obtain ⟨hbefore, hafter⟩ := hplace k hk hword
  exact Token.startsIn_labels (b := "x_1 > \")\" + ".toList.reverse) (w := "on".toList) (y := [])
    (z := "job, ".toList) (r := []) (a := " http_hits".toList) (by rw [hbefore]; decide +kernel)
    (by rw [hafter]; decide +kernel) (opens_iff_all.mpr (by decide +kernel)) ⟨"on", by decide, rfl⟩
    (by simp) (List.all_eq_true.mp (by rw [hword]; decide +kernel))

/-- A query that groups by one label. -/
def groupedHits : List Char := "sum(http_hits) BY (instance_name)".toList

/-- The label of a list with its keyword in upper case is reported, although it stands nowhere
else. -/
theorem label_mem_metricNames_groupedHits :
    isIdentifier "instance_name".toList = true ∧
      (∀ k : Token, k.IsIn groupedHits → k.word = "instance_name".toList →
        k.StartsIn (IsLabels IsAnyCaseListKeyword)) ∧
      "instance_name".toList ∈ metricNames groupedHits := by
  have hplace : ∀ k : Token, k.IsIn groupedHits → k.word = "instance_name".toList →
      k.before = "sum(http_hits) BY (".toList ∧ k.after = ")".toList :=
    (tokens_findAll _).forall_iff.mpr (by decide +kernel)
  refine ⟨by decide +kernel, fun k hk hword => ?_, by decide +kernel⟩
  obtain ⟨hbefore, hafter⟩ := hplace k hk hword
  exact Token.startsIn_labels (b := "sum(http_hits) ".toList.reverse) (w := "BY".toList)
    (y := [' ']) (z := []) (r := []) (a := []) (by rw [hbefore]; decide +kernel)
    (by rw [hafter]; decide +kernel) (opens_iff_all.mpr (by decide +kernel))
    ⟨"by", by decide, by decide⟩ (List.all_eq_true.mp (by decide))
    (List.all_eq_true.mp (by rw [hword]; decide +kernel))

end

end AskMetrics.Query
