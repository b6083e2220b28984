import AskMetrics.Proofs.Query.Layout
import AskMetrics.Proofs.Query.Masked
import AskMetrics.Proofs.Query.Normal

/-!
# Expressions in normal form

The text of an expression has single spaces between its words, neither fences nor a label, and it
begins and ends with characters that stand in expressions only. So normalizing leaves it alone.
-/
namespace AskMetrics.Query

open AskMetrics.Text

/-! ## Spacing -/

theorem spaced_of_isNameChar {x : List Char} (hne : x ≠ []) (hx : ∀ u ∈ x, isNameChar u = true) :
    Spaced x :=
  .word hne fun u hu => isBlank_of_isNameChar (hx u hu)

theorem ne_nil_of_isIdentifier {x : List Char} (h : isIdentifier x = true) : x ≠ [] := by
  rintro rfl
  simp [isIdentifier] at h

/-- The characters of matchers are those of names, those of values and a few others. -/
theorem mem_renderMatchers {ms : List Matcher} {u : Char} (h : u ∈ renderMatchers ms) :
    isNameChar u = true ∨ u ∈ ['\x7b', '\x7d', ',', '=', '"', '\\'] ∨
      ∃ m ∈ ms, u ∈ m.value.text := by
  simp only [renderMatchers, List.mem_append, List.mem_cons, List.not_mem_nil, or_false] at h
  rcases h with rfl | h | rfl
  · exact .inr (.inl (by decide))
  · rcases mem_joinWith h with h | ⟨part, hpart, h⟩
    · obtain rfl : u = ',' := by simpa using h
      exact .inr (.inl (by decide))
    · obtain ⟨m, hm, rfl⟩ := List.mem_map.mp hpart
      simp only [Matcher.render, LabelValue.quoted, List.mem_append, List.mem_cons,
        List.mem_flatMap, List.not_mem_nil, or_false] at h
      rcases h with h | rfl | rfl | ⟨v, hv, h⟩ | rfl
      · exact .inl (m.label.isNameChar u h)
      · exact .inr (.inl (by decide))
      · exact .inr (.inl (by decide))
      · have hcases : u = '\\' ∨ u = v := by
          unfold escape at h
          split_ifs at h <;> simp_all
        rcases hcases with rfl | rfl
        · exact .inr (.inl (by decide))
        · exact .inr (.inr ⟨m, hm, hv⟩)
      · exact .inr (.inl (by decide))
  · exact .inr (.inl (by decide))

theorem not_blank_renderMatchers (ms : List Matcher) :
    ∀ u ∈ renderMatchers ms, isBlank u = false := by
  have hmarks : ∀ u ∈ ['\x7b', '\x7d', ',', '=', '"', '\\'], isBlank u = false :=
    List.all_iff_forall_prop.mp (by decide)
  intro u hu
  rcases mem_renderMatchers hu with hu | hu | ⟨m, -, hu⟩
  · exact isBlank_of_isNameChar hu
  · exact hmarks u hu
  · exact m.value.not_blank u hu

/-- A selector is one word. -/
theorem Selector.spaced (s : Selector) : Spaced s.render := by
  refine .word ?_ fun u hu => ?_
  · simp [render, ne_nil_of_isIdentifier s.metric.identifier]
  · rcases List.mem_append.mp hu with hu | hu
    · exact isBlank_of_isNameChar (s.metric.isNameChar u hu)
    · cases hms : s.matchers with
      | none => simp [hms] at hu
      | some ms => exact not_blank_renderMatchers ms u (by simpa [hms] using hu)

theorem Duration.spaced (d : Duration) : Spaced d.render := by
  refine .word (by simp [render]) fun u hu => ?_
  rcases mem_render hu with rfl | rfl | hu
  · decide
  · decide
  · exact isBlank_of_isNameChar hu

/-- A list of labels up to the bracket that closes it, with a part of a word before it. -/
theorem spaced_labels (ls : List LabelName) {x : List Char} (hx : ∀ u ∈ x, isBlank u = false) :
    Spaced (x ++ (joinWith [',', ' '] (ls.map LabelName.text) ++ [')'])) := by
  induction ls generalizing x with
  | nil =>
    refine .word (by simp) fun u hu => ?_
    rcases List.mem_append.mp hu with hu | hu
    · exact hx u hu
    · obtain rfl : u = ')' := by simpa [joinWith] using hu
      decide
  | cons l ls ih =>
    have hlabel : ∀ v, isBlank v = false → ∀ u ∈ x ++ (l.text ++ [v]), isBlank u = false := by
      intro v hv u hu
      simp only [List.mem_append, List.mem_cons, List.not_mem_nil, or_false] at hu
      rcases hu with hu | hu | rfl
      · exact hx u hu
      · exact isBlank_of_isNameChar (l.isNameChar u hu)
      · exact hv
    cases ls with
    | nil => exact .word (by simp) (hlabel ')' (by decide))
    | cons l' ls =>
      have hrest := ih (x := []) (by simp)
      have hall := Spaced.space (by simp) (hlabel ',' (by decide)) hrest
      simpa [joinWith] using hall

theorem Grouping.spaced (g : Grouping) : Spaced g.render := by
  have hkeyword : Spaced g.keeping.keyword.toList :=
    spaced_of_isNameChar (by cases g.keeping <;> decide) g.keeping.isNameChar
  exact hkeyword.join (spaced_labels g.labels (x := ['(']) (by simpa using by decide))

theorem Aggregation.spaced (a : Aggregation) : Spaced a.name.toList :=
  spaced_of_isNameChar (by cases a <;> decide) a.isNameChar

theorem Numeral.spaced (n : Numeral) : Spaced n.render := by
  refine .word (by simp [render, n.digits_ne_nil]) fun u hu => ?_
  rcases mem_render hu with rfl | hu
  · decide
  · exact isBlank_of_isNameChar hu

theorem Expr.spaced (e : Expr) : Spaced e.render := by
  have hopen : Spaced ['('] := .word (by simp) (by simpa using by decide)
  have hclose : Spaced [')'] := .word (by simp) (by simpa using by decide)
  have hsign : ∀ o : Sign, Spaced [o.char] := fun o =>
    .word (by simp) (by cases o <;> simpa using by decide)
  induction e with
  | select s => exact s.spaced
  | call f s d =>
    have hname : Spaced f.text.toList :=
      spaced_of_isNameChar
        (ne_nil_of_isIdentifier (isIdentifier_of_mem_functionNames f.known)) f.isNameChar
    exact hname.append (hopen.append ((s.spaced.append d.spaced).append hclose))
  | aggregate a e ih => exact a.spaced.append (hopen.append (ih.append hclose))
  | groupedBefore a g e ih =>
    exact a.spaced.join (g.spaced.join (hopen.append (ih.append hclose)))
  | groupedAfter a e g ih =>
    have hcall := a.spaced.append (hopen.append (ih.append hclose))
    simpa [render] using hcall.join g.spaced
  | parens e ih => exact hopen.append (ih.append hclose)
  | binary e o f ihe ihf =>
    simpa [render, Sign.render] using ihe.join ((hsign o).join ihf)
  | scaledLeft n o e ih =>
    simpa [render, Sign.render] using n.spaced.join ((hsign o).join ih)
  | scaledRight e o n ih =>
    simpa [render, Sign.render] using ih.join ((hsign o).join n.spaced)

/-! ## Fences -/

theorem not_backtick_renderMatchers (ms : List Matcher) : ∀ u ∈ renderMatchers ms, u ≠ '\x60' := by
  have hmarks : ∀ u ∈ ['\x7b', '\x7d', ',', '=', '"', '\\'], u ≠ '\x60' :=
    List.all_iff_forall_prop.mp (by decide)
  intro u hu
  rcases mem_renderMatchers hu with hu | hu | ⟨m, -, hu⟩
  · exact ne_of_isNameChar hu (by decide)
  · exact hmarks u hu
  · rintro rfl
    exact m.value.not_backtick hu

theorem not_backtick_textOf (ps : List Piece) : ∀ u ∈ textOf written ps, u ≠ '\x60' := by
  intro u hu
  obtain ⟨p, -, hu⟩ := List.mem_flatMap.mp hu
  by_cases hp : ∃ ms, p = .matchers ms
  · obtain ⟨ms, rfl⟩ := hp
    exact not_backtick_renderMatchers ms u hu
  · exact ne_of_isBare (Piece.isBare written hp u hu) (by decide)

/-! ## Labels -/

/-- No colon is in a text before its first quote. -/
def NoEarlyColon (x : List Char) : Prop := ':' ∉ x.takeWhile (· != '"')

theorem NoEarlyColon.append {x y : List Char} (hx : ':' ∉ x) (hy : NoEarlyColon y) :
    NoEarlyColon (x ++ y) := by
  intro hmem
  rw [List.takeWhile_append] at hmem
  split_ifs at hmem with hall
  · exact (List.mem_append.mp hmem).elim hx hy
  · exact hx ((List.takeWhile_sublist _).subset hmem)

theorem noEarlyColon_matchers (ms : List Matcher) {y : List Char} (hy : NoEarlyColon y) :
    NoEarlyColon (renderMatchers ms ++ y) := by
  cases ms with
  | nil => exact hy.append (by decide)
  | cons m ms =>
    obtain ⟨tail, htail⟩ : ∃ tail, joinWith [','] ((m :: ms).map Matcher.render) =
        m.render ++ tail := by
      cases ms with
      | nil => exact ⟨[], by simp [joinWith]⟩
      | cons m' ms => exact ⟨_, List.append_assoc _ _ _⟩
    have htext : renderMatchers (m :: ms) ++ y = ('\x7b' :: (m.label.text ++ ['='])) ++
        '"' :: (m.value.text.flatMap escape ++ '"' :: (tail ++ '\x7d' :: y)) := by
      rw [renderMatchers, htail]
      simp [Matcher.render, LabelValue.quoted]
    rw [htext]
    refine NoEarlyColon.append (fun hcolon => ?_) (by simp [NoEarlyColon])
    simp only [List.mem_append, List.mem_cons, List.not_mem_nil, or_false] at hcolon
    rcases hcolon with hcolon | hcolon | hcolon
    · exact absurd hcolon (by decide)
    · exact ne_of_isNameChar (m.label.isNameChar _ hcolon) (by decide) rfl
    · exact absurd hcolon (by decide)

theorem noEarlyColon_textOf (ps : List Piece) : NoEarlyColon (textOf written ps) := by
  induction ps with
  | nil => simp [NoEarlyColon]
  | cons p ps ih =>
    by_cases hp : ∃ ms, p = .matchers ms
    · obtain ⟨ms, rfl⟩ := hp
      exact noEarlyColon_matchers ms ih
    · refine ih.append fun hcolon => ?_
      exact ne_of_isBare (Piece.isBare written hp _ hcolon) (by decide) rfl

/-! ## Edges -/

/-- A row begins with a bare character when an operand is awaited. -/
theorem Layout.first {heads : List Head} {ps : List Piece} (h : Layout true heads ps) :
    ∀ u ∈ (textOf written ps).head?, isQuote u = false := by
  have hbare : ∀ (p : Piece) (ps : List Piece), (¬ ∃ ms, p = .matchers ms) →
      p.text written ≠ [] → ∀ u ∈ (textOf written (p :: ps)).head?, isQuote u = false := by
    intro p ps hp hne u hu
    obtain ⟨v, y, hv⟩ := List.exists_cons_of_ne_nil hne
    obtain rfl : v = u := by simpa [hv] using hu
    exact isQuote_of_isBare (Piece.isBare written hp v (by simp [hv]))
  cases h with
  | metric m _ => exact hbare _ _ (by simp) (ne_nil_of_isIdentifier m.identifier)
  | opening h _ => exact hbare _ _ (by simp) (by simp [Piece.text])
  | numeral n _ => exact hbare _ _ (by simp) (by simp [Piece.text, Numeral.render, n.digits_ne_nil])

/-- A character that an expression can end with. -/
def isLast (u : Char) : Bool :=
  isNameChar u || u == ')' || u == '\x7d'

/-- A text whose last character is one that an expression can end with. -/
def EndsWell (x : List Char) : Prop := ∃ u, x.getLast? = some u ∧ isLast u = true

theorem EndsWell.append {y : List Char} (h : EndsWell y) (x : List Char) : EndsWell (x ++ y) := by
  obtain ⟨u, hlast, hu⟩ := h
  exact ⟨u, by simp [hlast], hu⟩

theorem EndsWell.cons {y : List Char} (h : EndsWell y) (u : Char) : EndsWell (u :: y) :=
  h.append [u]

theorem endsWell_of_isNameChar {x : List Char} (hne : x ≠ [])
    (hx : ∀ u ∈ x, isNameChar u = true) : EndsWell x :=
  ⟨x.getLast hne, List.getLast?_eq_some_getLast hne, by simp [isLast, hx _ (List.getLast_mem hne)]⟩

theorem Selector.endsWell (s : Selector) : EndsWell s.render := by
  cases hms : s.matchers with
  | none =>
    have hmetric := endsWell_of_isNameChar (ne_nil_of_isIdentifier s.metric.identifier)
      s.metric.isNameChar
    simpa [render, hms] using hmetric
  | some ms =>
    have hclose : EndsWell ['\x7d'] := ⟨_, rfl, by decide⟩
    simpa [render, hms, renderMatchers] using ((hclose.append _).cons '\x7b').append s.metric.text

theorem Expr.endsWell (e : Expr) : EndsWell e.render := by
  have hclose : EndsWell [')'] := ⟨_, rfl, by decide⟩
  have hgrouping : ∀ g : Grouping, EndsWell g.render :=
    fun g => (((hclose.append _).cons '(').cons ' ').append _
  induction e with
  | select s => exact s.endsWell
  | call f s d => exact ((hclose.append _).cons '(').append _
  | aggregate a e _ => exact ((hclose.append _).cons '(').append _
  | groupedBefore a g e _ =>
    exact (((((hclose.append _).cons '(').cons ' ').append _).cons ' ').append _
  | groupedAfter a e g _ =>
    exact (((((hgrouping g).cons ' ').cons ')').append _).cons '(').append _
  | parens e _ => exact (hclose.append _).cons '('
  | binary e o f _ ihf => exact ihf.append _
  | scaledLeft n o e ih => exact ih.append _
  | scaledRight e o n _ =>
    have hdigits := endsWell_of_isNameChar n.digits_ne_nil
      fun u hu => isNameChar_of_isDigit (n.isDigit u hu)
    exact (hdigits.append _).append _

theorem not_isQuote_of_isLast {u : Char} (h : isLast u = true) :
    isQuote u = false ∧ isStop u = false := by
  have hne : ∀ v, isLast v = false → (u == v) = false := by
    intro v hv
    rw [beq_eq_false_iff_ne]
    rintro rfl
    simp [h] at hv
  refine ⟨?_, ?_⟩
  · simp only [isQuote, hne '"' (by decide), hne '\'' (by decide), hne '\x60' (by decide)]
    rfl
  · simp only [isStop, hne '.' (by decide), hne ';' (by decide), hne ',' (by decide)]
    rfl

theorem Expr.last (e : Expr) : ∀ u ∈ e.render.getLast?, isQuote u = false ∧ isStop u = false := by
  obtain ⟨v, hlast, hv⟩ := e.endsWell
  intro u hu
  obtain rfl : v = u := by simpa [hlast] using hu
  exact not_isQuote_of_isLast hv

/-- The text of an expression is its own normal form. -/
theorem Expr.plain (e : Expr) : Plain e.render where
  spaced := e.spaced
  no_fence := along_of_next fun u hu _ _ => ends_fence (by
    rw [e.render_eq] at hu
    exact not_backtick_textOf e.pieces u hu)
  no_label := by
    rw [e.render_eq]
    exact findFirst_label_eq_none (noEarlyColon_textOf e.pieces)
  first := by
    rw [e.render_eq]
    exact e.layout_pieces.first
  last := e.last

end AskMetrics.Query
