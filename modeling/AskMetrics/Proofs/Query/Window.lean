import AskMetrics.Proofs.Query.Check
import AskMetrics.Proofs.Query.Literal
import AskMetrics.Proofs.Query.ResizedShape
import AskMetrics.Proofs.Text.Blank
import AskMetrics.Query.Window
import Mathlib.Data.Nat.Digits.Defs

/-!
# Windows keep queries well-formed

A window is put into the range selectors of a checked query, and the result is not checked again.
It need not be: a selector is exchanged for another selector, wherever it stands, be it in a
literal or in the syntax around literals. The masks of both texts then differ in ranges and blanks
alone, which no rule looks at.
-/
namespace AskMetrics.Query

open AskMetrics.Text

/-! ## Range selectors -/

theorem IsSpan.append {i j : List Char} (hi : IsSpan i) (hj : ∀ u ∈ j, Text.isWord u = true) :
    IsSpan (i ++ j) where
  digit := by
    obtain ⟨u, hu, hdigit⟩ := hi.digit
    exact ⟨u, by simp [Option.mem_def.mp hu], hdigit⟩
  isWord := List.forall_mem_append.mpr ⟨hi.isWord, hj⟩
  letter := by
    obtain ⟨u, hu, hletter⟩ := hi.letter
    exact ⟨u, List.mem_append_left _ hu, hletter⟩

/-- Digits with letters behind them. -/
theorem isSpan_of_digits {x y : List Char} (hne : x ≠ []) (hx : ∀ u ∈ x, isDecimal u = true)
    (hne' : y ≠ []) (hy : y.all Char.isAlpha = true) : IsSpan (x ++ y) where
  digit := by
    obtain ⟨u, x, rfl⟩ := List.exists_cons_of_ne_nil hne
    exact ⟨u, rfl, hx u (.head _)⟩
  isWord := List.forall_mem_append.mpr
    ⟨fun u hu => isWord_of_isDecimal (hx u hu),
      fun u hu => isWord_of_isAlpha (List.all_eq_true.mp hy u hu)⟩
  letter := by
    obtain ⟨u, y, rfl⟩ := List.exists_cons_of_ne_nil hne'
    exact ⟨u, by simp, List.all_eq_true.mp hy u (.head _)⟩

/-- A number with its unit. -/
def duration : Pattern :=
  .andThen (.some (.one isDecimal))
    (.orElse (.literal "ms") (.one fun c => "smhdwy".toList.contains c))

theorem exists_span_of_mem_duration {c d : Cursor} (h : d ∈ duration.ends c) :
    ∃ i, IsSpan i ∧ c.Reads i d := by
  obtain ⟨e, he, hunit⟩ := Pattern.mem_ends_andThen.mp h
  obtain ⟨u, x, hu, hx, hnumber⟩ := Pattern.mem_ends_some_one.mp he
  have hspan : ∀ {y}, y ≠ [] → y.all Char.isAlpha = true → IsSpan (u :: x ++ y) :=
    isSpan_of_digits (by simp) (List.forall_mem_cons.mpr ⟨hu, hx⟩)
  rcases Pattern.mem_ends_orElse.mp hunit with hunit | hunit
  · exact ⟨_, hspan (by simp) (by decide), hnumber.trans (Pattern.mem_ends_literal.mp hunit)⟩
  · obtain ⟨v, hv, hread⟩ := Pattern.mem_ends_one.mp hunit
    have hall : "smhdwy".toList.all Char.isAlpha = true := by decide
    have hletter : v.isAlpha = true := List.all_eq_true.mp hall v (by simpa using hv)
    exact ⟨_, hspan (by simp) (by simpa using hletter), hnumber.trans hread⟩

theorem exists_words_of_stepsTo {n : Nat} {c d : Cursor}
    (h : StepsTo duration.ends n c d) : ∃ j, (∀ u ∈ j, isWord u = true) ∧ c.Reads j d := by
  induction h with
  | zero c => exact ⟨[], by simp, .refl c⟩
  | succ hstep _ ih =>
    obtain ⟨i, hi, hread⟩ := exists_span_of_mem_duration hstep
    obtain ⟨j, hj, hrest⟩ := ih
    exact ⟨i ++ j, List.forall_mem_append.mpr ⟨hi.isWord, hj⟩, hread.trans hrest⟩

/-- What matches as a range selector. -/
theorem exists_span_of_mem_rangeSelector {c d : Cursor} (h : d ∈ rangeSelector.ends c) :
    ∃ i, IsSpan i ∧ c.Reads ('[' :: (i ++ [']'])) d := by
  obtain ⟨c₁, hopen, h⟩ := Pattern.mem_ends_andThen.mp h
  obtain ⟨c₂, hinside, hclose⟩ := Pattern.mem_ends_andThen.mp h
  obtain ⟨c₃, hfirst, hmore⟩ := Pattern.mem_ends_andThen.mp hinside
  obtain ⟨i, hi, hread⟩ := exists_span_of_mem_duration hfirst
  obtain ⟨n, -, hsteps⟩ := (mem_repeated_iff.mp hmore).resolve_left (by simp)
  obtain ⟨j, hj, hrest⟩ := exists_words_of_stepsTo hsteps
  refine ⟨i ++ j, hi.append hj, ?_⟩
  exact (Pattern.mem_ends_char.mp hopen).trans
    ((hread.trans hrest).trans (Pattern.mem_ends_char.mp hclose))

/-- The selector of a number of minutes is the brackets and a span. -/
theorem exists_span_minutesSelector (n : Nat) :
    ∃ i, IsSpan i ∧ minutesSelector n = '[' :: (i ++ [']']) := by
  refine ⟨Nat.toDigits 10 n ++ ['m'], isSpan_of_digits Nat.toDigits_ne_nil (fun u hu => ?_)
    (by simp) (by decide), by simp [minutesSelector]⟩
  exact isDecimal_of_isDigit (Nat.isDigit_of_mem_toDigits (by decide) (by decide) hu)

/-- Applying a window exchanges range selectors, and does nothing else. -/
theorem exchanged_replaceRanges (s : List Char) (window : Option Nat) :
    Exchanged Ranges s (replaceRanges s window) := by
  match window with
  | none => exact .refl s
  | some 0 => exact .refl s
  | some (n + 1) =>
    refine exchanged_replaceAll fun c m hm => ?_
    rw [matchAt_singleton, Option.map_eq_some_iff] at hm
    obtain ⟨d, hfirst, rfl⟩ := hm
    obtain ⟨i, hi, hread⟩ := exists_span_of_mem_rangeSelector (Pattern.mem_ends_of_first hfirst)
    obtain ⟨j, hj, hselector⟩ := exists_span_minutesSelector (n + 1)
    rw [hselector, Match.text, List.flatten_singleton, hread.upTo]
    exact .mk hi hj

/-! ## Masks -/

/-- Neither a quote nor a backslash. -/
def IsUnquoted (u : Char) : Prop := isQuote u = false ∧ u ≠ '\\'

theorem Ranges.isUnquoted {x y : List Char} (h : Ranges x y) : ∀ u ∈ x, IsUnquoted u := by
  refine h.forall_left (by unfold IsUnquoted; decide) (by unfold IsUnquoted; decide) fun u hu => ?_
  refine ⟨?_, ne_of_isWord hu (by decide)⟩
  simp [isQuote, ne_of_isWord hu (v := '"') (by decide), ne_of_isWord hu (v := '\'') (by decide),
    ne_of_isWord hu (v := '\x60') (by decide)]

/-- How a text without quotes and backslashes is shown: as it is outside literals, as blanks
inside. -/
theorem maskFrom_of_isUnquoted {q : Quoting} (hq : q.Proper) {x : List Char} (hne : x ≠ [])
    (hx : ∀ u ∈ x, IsUnquoted u) :
    maskFrom q x = (if q = .outside then x else List.replicate x.length ' ') ∧
      q.after x = q.settled := by
  have hinside : ∀ {quote : Char} {x : List Char}, isQuote quote = true →
      (∀ u ∈ x, IsUnquoted u) → maskFrom (.inside quote) x = List.replicate x.length ' ' ∧
        (Quoting.inside quote).after x = .inside quote := by
    intro quote x hquote hx
    have hbody : Body quote x := by
      induction x with
      | nil => exact .nil
      | cons u x ih =>
        obtain ⟨hu, hbackslash⟩ := hx u (.head _)
        refine .char ?_ hbackslash (ih fun v hv => hx v (.tail _ hv))
        rintro rfl
        simp [hquote] at hu
    exact ⟨hbody.maskFrom_inside, hbody.after_inside⟩
  cases q with
  | outside =>
    clear hne
    induction x with
    | nil => exact ⟨rfl, rfl⟩
    | cons u x ih =>
      obtain ⟨hu, -⟩ := hx u (.head _)
      obtain ⟨hmask, hafter⟩ := ih fun v hv => hx v (.tail _ hv)
      simp_all [maskFrom, Quoting.next, Quoting.shown, Quoting.settled]
  | inside quote => simpa [Quoting.settled] using hinside hq hx
  | escaped quote =>
    obtain ⟨u, x, rfl⟩ := List.exists_cons_of_ne_nil hne
    obtain ⟨hmask, hafter⟩ := hinside (x := x) hq fun v hv => hx v (.tail _ hv)
    simp [maskFrom, Quoting.next, Quoting.shown, Quoting.settled, hmask, hafter,
      List.replicate_succ]

/-- The masks of texts with other ranges differ in ranges and blanks alone, and both texts leave the
same literal open. -/
theorem exchanged_maskFrom {s t : List Char} (h : Exchanged Ranges s t) {q : Quoting}
    (hq : q.Proper) : Exchanged Resized (maskFrom q s) (maskFrom q t) ∧ q.after s = q.after t := by
  induction h generalizing q with
  | nil => exact ⟨.nil, rfl⟩
  | keep u _ ih =>
    obtain ⟨hmask, hafter⟩ := ih (hq.next u)
    exact ⟨.keep _ hmask, hafter⟩
  | @swap x y s t hxy _ ih =>
    obtain ⟨hx, hafter⟩ := maskFrom_of_isUnquoted hq (steady_ranges.ne_nil hxy) hxy.isUnquoted
    obtain ⟨hy, hafter'⟩ :=
      maskFrom_of_isUnquoted hq (steady_ranges.ne_nil' hxy) hxy.symm.isUnquoted
    have hsettled : q.settled.Proper := by cases q <;> exact hq
    obtain ⟨hrest, hend⟩ := ih hsettled
    rw [maskFrom_append, maskFrom_append, hx, hy, Quoting.after_append, Quoting.after_append,
      hafter, hafter']
    refine ⟨?_, hend⟩
    by_cases houtside : q = .outside
    · rw [if_pos houtside, if_pos houtside]
      exact .swap (.range hxy) hrest
    · rw [if_neg houtside, if_neg houtside]
      obtain ⟨⟨i⟩, ⟨j⟩⟩ := hxy
      exact .swap (.blanks _ _) hrest

theorem leavesOpen_eq_of_exchanged {s t : List Char} (h : Exchanged Ranges s t) :
    leavesOpen s = leavesOpen t := by
  rw [leavesOpen, leavesOpen, (exchanged_maskFrom h (q := .outside) trivial).2]

theorem exchanged_mask {s t : List Char} (h : Exchanged Ranges s t) :
    Exchanged Resized (mask s) (mask t) :=
  (exchanged_maskFrom h (q := .outside) trivial).1

/-! ## Well-formed queries -/

/-- A single line with single spaces that passes all checks but perhaps the one for its length. -/
structure WellFormed (s : List Char) : Prop where
  long_enough : minLength ≤ s.length
  closed : leavesOpen s = false
  shapes : ∀ rule ∈ shapeRules, breaks (mask s) rule = false
  balanced : isBalanced (mask s) = true
  identifier : hasIdentifier s = true
  spaced : Spaced s

section
variable {s t : List Char}

theorem Ranges.minLength_le {x y : List Char} (h : Ranges x y) : minLength ≤ x.length := by
  obtain ⟨hi, -⟩ := h
  have hpos := List.length_pos_of_ne_nil hi.ne_nil
  simp only [minLength, List.length_cons, List.length_append, List.length_nil]
  omega

/-- A text keeps its length unless it has a range, which is long enough. -/
theorem minLength_le_of_exchanged (h : Exchanged Ranges s t) (hs : minLength ≤ s.length) :
    minLength ≤ t.length := by
  have heq : t = s ∨ minLength ≤ t.length := by
    clear hs
    induction h with
    | nil => exact .inl rfl
    | keep u _ ih =>
      rcases ih with rfl | ih
      · exact .inl rfl
      · exact .inr (by simp only [List.length_cons]; omega)
    | swap hxy _ _ =>
      have hy := hxy.symm.minLength_le
      exact .inr (by simp only [List.length_append]; omega)
  rcases heq with rfl | hlong
  · exact hs
  · exact hlong

/-- A range has a letter, and a letter starts a name. -/
theorem hasIdentifier_of_exchanged (h : Exchanged Ranges s t) (hs : hasIdentifier s = true) :
    hasIdentifier t = true := by
  induction h with
  | nil => exact hs
  | keep u _ ih =>
    simp only [hasIdentifier, List.any_cons, Bool.or_eq_true] at hs ih ⊢
    exact hs.imp_right ih
  | swap hxy _ _ =>
    obtain ⟨-, hj⟩ := hxy
    obtain ⟨u, hu, hletter⟩ := hj.letter
    refine List.any_eq_true.mpr ⟨u, by simp [hu], ?_⟩
    simp [isIdentStart, hletter]

theorem Ranges.not_isBlank {x y : List Char} (h : Ranges x y) : ∀ u ∈ x, isBlank u = false :=
  h.forall_left (by decide) (by decide) fun _ hu => isBlank_of_isWord hu

/-- A range lies inside a word. -/
theorem spaced_of_exchanged (h : Exchanged Ranges s t) (hs : Spaced s) : Spaced t := by
  have hword : ∀ {w t : List Char}, Exchanged Ranges w t → w ≠ [] → (∀ u ∈ w, isBlank u = false) →
      t ≠ [] ∧ ∀ u ∈ t, isBlank u = false := fun h hne hw =>
    ⟨mt (h.eq_nil_iff steady_ranges).mpr hne, h.forall_mem (fun _ _ hxy => hxy.symm.not_isBlank) hw⟩
  have hchain : ∀ x y, Ranges x y → x.IsChain fun _ v => isBlank v = false := fun x y hxy =>
    (List.pairwise_of_forall_mem_list fun _ _ v hv => hxy.not_isBlank v hv).isChain
  induction hs generalizing t with
  | word hne hw =>
    obtain ⟨hne', hw'⟩ := hword h hne hw
    exact .word hne' hw'
  | @space w s hne hw _ ih =>
    obtain ⟨w', a, rfl, hw', ha⟩ := h.split hchain fun _ _ v hv => by
      obtain rfl : ' ' = v := by simpa using hv
      decide
    obtain ⟨s', rfl, hs'⟩ := ha.cons_inv steady_ranges fun x y hxy hx => by
      obtain ⟨-, -⟩ := hxy
      simp at hx
    obtain ⟨hne', hblank⟩ := hword hw' hne hw
    exact .space hne' hblank (ih hs')

/-- Other ranges keep a text well-formed. -/
theorem WellFormed.of_exchanged (hs : WellFormed s) (h : Exchanged Ranges s t) : WellFormed t where
  long_enough := minLength_le_of_exchanged h hs.long_enough
  closed := by rw [← leavesOpen_eq_of_exchanged h, hs.closed]
  shapes rule hrule := by rw [← breaks_eq_of_resized (exchanged_mask h), hs.shapes rule hrule]
  balanced := by rw [← isBalanced_eq_of_resized (exchanged_mask h), hs.balanced]
  identifier := hasIdentifier_of_exchanged h hs.identifier
  spaced := spaced_of_exchanged h hs.spaced

/-- The normal form of a text is tidy, unless nothing is left of it. -/
theorem spaced_normalize (hne : normalize s ≠ []) : Spaced (normalize s) := by
  refine Spaced.of_words fun hwords => hne ?_
  simp only [normalize, collapseBlanks, hwords, joinWith]

theorem Passes.wellFormed (h : Passes (normalize s)) : WellFormed (normalize s) where
  long_enough := h.long_enough
  closed := h.closed
  shapes := h.shapes
  balanced := h.balanced
  identifier := h.identifier
  spaced := spaced_normalize fun hnil => by simpa [hnil, minLength] using h.long_enough

/-- The one check that a well-formed text can fail is the one for its length. -/
theorem WellFormed.brokenRule? (h : WellFormed s) :
    brokenRule? s = if s.length ≤ maxLength then none else some .proseContamination := by
  split_ifs with hlength
  · exact brokenRule?_eq_none_iff.mpr
      ⟨h.long_enough, h.closed, h.shapes, h.balanced, h.identifier, hlength⟩
  · simp [Query.brokenRule?, find?_shapeRules_eq_none_iff.mpr h.shapes, h.closed, h.balanced,
      h.identifier, Nat.not_lt.mpr h.long_enough, hlength]

end

/-- An accepted query is well-formed with any window, although nothing checks it again: the limit on
its length is all that a window can make it break. -/
theorem wellFormed_withWindow {raw : String} {q : CheckedQuery}
    (h : validate raw = .ok q ∨ screen raw = .ok (.query q)) (window : Option Nat) :
    WellFormed (q.withWindow window).text.toList ∧
      brokenRule? (q.withWindow window).text.toList =
        if (q.withWindow window).text.toList.length ≤ maxLength then none
        else some .proseContamination := by
  have hpasses : Passes (normalize raw.toList) ∧ q = .ofText (normalize raw.toList) := by
    rcases h with h | h
    · exact validate_eq_ok_iff.mp h
    · exact (screen_eq_query_iff.mp h).2
  obtain ⟨hpasses, rfl⟩ := hpasses
  have hformed : WellFormed
      ((CheckedQuery.ofText (normalize raw.toList)).withWindow window).text.toList := by
    rw [CheckedQuery.withWindow, CheckedQuery.toList_text_ofText, CheckedQuery.toList_text_ofText]
    exact hpasses.wellFormed.of_exchanged (exchanged_replaceRanges _ window)
  exact ⟨hformed, hformed.brokenRule?⟩

/-- A query with one range in a literal and one outside. -/
def sharePerJob : CheckedQuery where
  text := "sum by (job) (rate(http_hits\x7bjob=\"[5m] by\"\x7d[5m])) / node_total"
  metrics := ["http_hits", "node_total"]

theorem wellFormed_sharePerJob_withWindow :
    validate sharePerJob.text = .ok sharePerJob ∧
      (sharePerJob.withWindow (some 60)).text =
        "sum by (job) (rate(http_hits\x7bjob=\"[60m] by\"\x7d[60m])) / node_total" ∧
      WellFormed (sharePerJob.withWindow (some 60)).text.toList := by
  have haccepted : validate sharePerJob.text = .ok sharePerJob := by decide +kernel
  exact ⟨haccepted, by decide +kernel, (wellFormed_withWindow (.inl haccepted) (some 60)).1⟩

end AskMetrics.Query
