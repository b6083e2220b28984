import AskMetrics.Proofs.Query.Decoration

/-!
# A stop at a closing quote

Normalizing looks for quotes at the edges once, and behind that for a stop at the end once. With a
stop inside the quotes both are left out. With the stop behind the closing quote, that quote is not
at the edge when quotes are looked for: only the opening one is left out, then the stop, and the
closing quote stays. It opens a literal that never closes, so a decorated query is turned away where
the bare one is accepted, and so is the answer of a model that declines.
-/
namespace AskMetrics.Query

open AskMetrics.Text

section
variable {b x a s t q : List Char} {c p u : Char}

/-! ## Lines -/

/-- A text of fewer than three characters has no code fence. -/
theorem unfenced_of_length_lt (h : (x ++ a).length < 3) : Unfenced b x a := by
  induction x generalizing b with
  | nil => trivial
  | cons u x ih =>
    rw [List.cons_append, List.length_cons] at h
    refine ⟨matchAt_fence_eq_none_iff.mpr fun hmark => ?_, ih (by omega)⟩
    have hlength := hmark.length_le
    simp only [fenceMark, List.length_cons, List.length_nil] at hlength
    omega

/-- A text on one line, without blanks at its edges, that begins with no label and has no code
fence. -/
structure OnLine (s : List Char) : Prop where
  ne_nil : s ≠ []
  first : ∀ u ∈ s.head?, isBlank u = false
  last : ∀ u ∈ s.getLast?, isBlank u = false
  one_line : '\n' ∉ s
  no_fence : ∀ b, Unfenced b s []
  no_label : ∀ r, ¬ Labelled s r

namespace OnLine

theorem trim_eq (h : OnLine s) : trim s = s := Text.trim_eq h.first h.last

theorem dropLabel_eq (h : OnLine s) : dropLabel s = s := dropLabel_of_not_labelled h.no_label

/-- Only what stands at the edges of such a text is left out. -/
theorem normalize_eq (h : OnLine s) :
    normalize s = collapseBlanks (dropStop (dropLabel (dropQuotes s))) := by
  have hfences : dropFences s = s := by
    have hkept : Rewrites [fence] (fun _ => []) (.start s) s := by
      simpa [Cursor.start] using Rewrites.keep (h.no_fence []) (.done _)
    exact hkept.replaceAll_eq
  have hline : firstLine s = s := by rw [firstLine_eq_trim h.one_line, h.trim_eq]
  rw [normalize]
  simp only [hfences, h.trim_eq, h.dropLabel_eq, hline]

/-- A quote may stand before such a text. -/
theorem quote_cons (h : OnLine s) (hc : isQuote c = true) (hs : ∀ u ∈ s.head?, isQuote u = false) :
    OnLine (c :: s) where
  ne_nil := List.cons_ne_nil c s
  first := by
    rintro u ⟨⟩
    by_contra hblank
    simp [isQuote_of_isBlank (by simpa using hblank)] at hc
  last := by
    rw [List.getLast?_cons_of_ne_nil h.ne_nil]
    exact h.last
  one_line := by
    have hc' : '\n' ≠ c := by
      rintro rfl
      exact absurd hc (by decide)
    simp [hc', h.one_line]
  no_fence b := by
    have hfirst : Unfenced b [c] (s ++ []) := by
      rw [List.append_nil]
      exact unfenced_singleton fun u hu => not_backtick_of_not_isQuote (hs u hu)
    exact along_append.mpr ⟨hfirst, h.no_fence _⟩
  no_label r hr := by
    have hletter := hr.isAlpha_head? c rfl
    simp [not_isAlpha_of_isQuote hc] at hletter

end OnLine

/-! ## Marks behind a text -/

/-- A quote or a stop. -/
def IsMark (u : Char) : Prop := isQuote u = true ∨ isStop u = true

theorem IsMark.isBlank_eq (h : IsMark u) : isBlank u = false := by
  rcases h with h | h
  · by_contra hblank
    simp [isQuote_of_isBlank (by simpa using hblank)] at h
  · rcases eq_of_isStop h with rfl | rfl | rfl <;> decide

/-- No mark continues a label. -/
theorem IsMark.ends_label (h : IsMark u) : u.isAlpha = false ∧ isBlank u = false ∧ u ≠ ':' := by
  refine ⟨?_, h.isBlank_eq, ?_⟩
  · rcases h with h | h
    · exact not_isAlpha_of_isQuote h
    · rcases eq_of_isStop h with rfl | rfl | rfl <;> decide
  · rintro rfl
    exact absurd h (by simp [IsMark]; decide)

/-- One or two marks may stand behind a plain text. -/
theorem Plain.onLine_append (hq : Plain q) (hne : t ≠ []) (hshort : t.length < 3)
    (ht : ∀ u ∈ t, IsMark u) : OnLine (q ++ t) where
  ne_nil := by simp [hne]
  first u hu := by
    rw [List.head?_append_of_ne_nil _ hq.spaced.ne_nil] at hu
    exact hq.spaced.head?_not_blank u hu
  last u hu := by
    rw [List.getLast?_append_of_ne_nil _ hne] at hu
    exact (ht u (List.mem_of_mem_getLast? hu)).isBlank_eq
  one_line hmem := by
    rcases List.mem_append.mp hmem with hmem | hmem
    · exact absurd (hq.spaced.eq_space_of_isBlank hmem (by decide)) (by decide)
    · exact absurd (ht _ hmem).isBlank_eq (by decide)
  no_fence b := by
    have hinside : Unfenced [] q [] := by
      simpa only [Unfenced, matchAt_singleton, Option.map_eq_none_iff, Pattern.first_eq_none_iff]
        using hq.no_fence
    have hplain : Unfenced b q (t ++ []) :=
      unfenced_append hinside fun u hu => not_backtick_of_not_isQuote (hq.last u hu).1
    exact along_append.mpr ⟨hplain, unfenced_of_length_lt (by simpa using hshort)⟩
  no_label := hq.not_labelled_append fun u hu => (ht u (List.mem_of_mem_head? hu)).ends_label

/-- Also a text with a quote behind it has single spaces between words. -/
theorem Plain.collapseBlanks_append_singleton (hq : Plain q) (hc : isBlank c = false) :
    collapseBlanks (q ++ [c]) = q ++ [c] :=
  (hq.spaced.append (.word (by simp) (by simpa using hc))).joinWith_words

/-! ## Quotes and stops at the edges -/

theorem dropQuotes_wrapped (hc : isQuote c = true) (s : List Char) :
    dropQuotes (c :: (s ++ [c])) = trim s := by
  have hwrapped : isWrapped (c :: (s ++ [c])) = true := by
    cases s with
    | nil => simp [isWrapped, hc]
    | cons u s =>
      have hend : (u :: (s ++ [c])).getLast? = some c := by
        rw [← List.cons_append, List.getLast?_concat]
      simp [isWrapped, hc, hend]
  simp [dropQuotes, hwrapped]

/-- With something else than a quote at the end only the first quote is left out. -/
theorem dropQuotes_opened (hc : isQuote c = true) (hp : isQuote p = false) (s : List Char) :
    dropQuotes (c :: (s ++ [p])) = trim (s ++ [p]) := by
  have hwrapped : isWrapped (c :: (s ++ [p])) = false := by
    have hne : p ≠ c := by
      rintro rfl
      simp [hc] at hp
    cases s with
    | nil => simp [isWrapped, hne]
    | cons u s =>
      have hend : (u :: (s ++ [p])).getLast? = some p := by
        rw [← List.cons_append, List.getLast?_concat]
      simp [isWrapped, hne, hend]
  have hlast : dropLast isQuote (s ++ [p]) = s ++ [p] := dropLast_eq_self (by simp [hp])
  simp [dropQuotes, hwrapped, dropFirst, hc, hlast]

/-- With something else than a quote at the start only the last quote is left out. -/
theorem dropQuotes_closed (hc : isQuote c = true) (hne : s ≠ [])
    (hs : ∀ u ∈ s.head?, isQuote u = false) : dropQuotes (s ++ [c]) = trim s := by
  obtain ⟨u, s, rfl⟩ := List.exists_cons_of_ne_nil hne
  have hu : isQuote u = false := hs u rfl
  have hwrapped : isWrapped (u :: s ++ [c]) = false := by
    cases s <;> simp [isWrapped, hu]
  have hfirst : dropFirst isQuote (u :: s ++ [c]) = u :: s ++ [c] := by simp [dropFirst, hu]
  have hlast : dropLast isQuote (u :: s ++ [c]) = u :: s := by
    rw [dropLast, List.getLast?_concat]
    simp only [hc, if_true]
    exact List.dropLast_concat
  rw [dropQuotes, hwrapped, hfirst, hlast]
  rfl

theorem dropStop_append_singleton (hp : isStop p = true) (s : List Char) :
    dropStop (s ++ [p]) = s := by
  have hstop : (p == '.' || p == ';' || p == ',') = true := hp
  simp [dropStop, dropLast, hstop]

/-! ## Screening -/

/-- The answer of a model that declines has letters only. -/
theorem leavesOpen_of_declines (h : Declines s) : leavesOpen s = false := by
  have hletters : ∀ u ∈ s, u.isAlpha = true := isAlpha_of_lowerAscii h (by decide)
  refine leavesOpen_eq_false_iff.mpr ⟨s, skeleton_self fun u hu => ?_⟩
  by_contra hquote
  have hletter := not_isAlpha_of_isQuote (by simpa using hquote)
  simp [hletters u hu] at hletter

/-- A text with an open literal is turned away. -/
theorem screen_of_leavesOpen (raw : String) (hlong : minLength ≤ (normalize raw.toList).length)
    (hopen : leavesOpen (normalize raw.toList) = true) :
    screen raw = .error ⟨.unbalancedDelimiters, .ofList (normalize raw.toList)⟩ := by
  have hno : ¬ lowerAscii (normalize raw.toList) = lowerAscii noAnswer.toList := by
    intro hdeclines
    simp [leavesOpen_of_declines hdeclines] at hopen
  have hbroken : brokenRule? (normalize raw.toList) = some .unbalancedDelimiters := by
    simp [brokenRule?, Nat.not_lt.mpr hlong, hopen]
  simp [screen, hno, checkNormal, hbroken, Except.map]

/-- What is answered is long enough, and its literals are all closed. -/
theorem closed_of_screen_eq_ok {raw : String} {answer : Screened} (h : screen raw = .ok answer) :
    minLength ≤ (normalize raw.toList).length ∧ leavesOpen (normalize raw.toList) = false := by
  by_cases hdeclines : Declines (normalize raw.toList)
  · have hlength : (normalize raw.toList).length = 4 := by
      have hlower := congrArg List.length hdeclines
      simpa [lowerAscii, noAnswer] using hlower
    exact ⟨by simp [hlength, minLength], leavesOpen_of_declines hdeclines⟩
  · have hno : ¬ lowerAscii (normalize raw.toList) = lowerAscii noAnswer.toList := hdeclines
    have hpasses : Passes (normalize raw.toList) := by
      by_contra hnot
      obtain ⟨violation, hviolation⟩ := checkNormal_of_not_passes hnot
      simp [screen, hno, hviolation, Except.map] at h
    exact ⟨hpasses.long_enough, hpasses.closed⟩

/-- A quote behind closed literals opens one. -/
theorem leavesOpen_append_quote (hs : leavesOpen s = false) (hc : isQuote c = true) :
    leavesOpen (s ++ [c]) = true := by
  have hplace : Quoting.outside.after s = .outside := by simpa [leavesOpen] using hs
  simp [leavesOpen, hplace, Quoting.next, hc]

/-- **A stop at a closing quote.** For a text in normal form with quotes around it, a stop inside
the quotes is left out with them. Behind the closing quote it is left out as well, but that quote
stays. It is one that normalizing leaves out the next time; as it is, the text is turned away for an
open literal whenever the text without decoration has an answer. -/
theorem normalize_stop_at_quote (hne : q ≠ []) (hself : normalize q = q) (hc : isQuote c = true)
    (hp : isStop p = true) :
    normalize (c :: (q ++ [p, c])) = q ∧
      normalize (c :: (q ++ [c, p])) = q ++ [c] ∧ normalize (q ++ [c]) = q ∧
      ∀ answer, screen (.ofList q) = .ok answer →
        screen (.ofList (c :: (q ++ [c, p]))) =
          .error ⟨.unbalancedDelimiters, .ofList (q ++ [c])⟩ := by
  have hq : Plain q := plain_of_normalize_eq_self hne hself
  have hquote : IsMark c := .inl hc
  have hstop : IsMark p := .inr hp
  have hpquote : isQuote p = false := by rcases eq_of_isStop hp with rfl | rfl | rfl <;> decide
  have hfirst : ∀ {t}, ∀ u ∈ (q ++ t).head?, isQuote u = false := fun u hu => by
    rw [List.head?_append_of_ne_nil _ hne] at hu
    exact hq.first u hu
  have hstopped : OnLine (q ++ [p]) := hq.onLine_append (by simp) (by simp) (by simpa using hstop)
  have hclosed : OnLine (q ++ [c]) := hq.onLine_append (by simp) (by simp) (by simpa using hquote)
  have hinside : OnLine (q ++ [p, c]) :=
    hq.onLine_append (by simp) (by simp) (by simpa using ⟨hstop, hquote⟩)
  have hbehind : OnLine (q ++ [c, p]) :=
    hq.onLine_append (by simp) (by simp) (by simpa using ⟨hquote, hstop⟩)
  have hresidue : normalize (c :: (q ++ [c, p])) = q ++ [c] := by
    have hquotes : dropQuotes (c :: (q ++ [c, p])) = q ++ [c, p] := by
      simpa [hbehind.trim_eq] using dropQuotes_opened hc hpquote (q ++ [c])
    have hstops : dropStop (q ++ [c, p]) = q ++ [c] := by
      simpa using dropStop_append_singleton hp (q ++ [c])
    rw [(hbehind.quote_cons hc hfirst).normalize_eq, hquotes, hbehind.dropLabel_eq, hstops,
      hq.collapseBlanks_append_singleton hquote.isBlank_eq]
  refine ⟨?_, hresidue, ?_, fun answer hanswer => ?_⟩
  · have hquotes : dropQuotes (c :: (q ++ [p, c])) = q ++ [p] := by
      simpa [hstopped.trim_eq] using dropQuotes_wrapped hc (q ++ [p])
    rw [(hinside.quote_cons hc hfirst).normalize_eq, hquotes, hstopped.dropLabel_eq,
      dropStop_append_singleton hp, hq.collapseBlanks_eq]
  · rw [hclosed.normalize_eq, dropQuotes_closed hc hne hq.first, hq.spaced.trim_eq,
      hq.dropLabel_eq, hq.dropStop_eq, hq.collapseBlanks_eq]
  · have hshown := closed_of_screen_eq_ok hanswer
    rw [String.toList_ofList, hself] at hshown
    obtain ⟨hlong, hopen⟩ := hshown
    have hscreen := screen_of_leavesOpen (.ofList (c :: (q ++ [c, p])))
    rw [String.toList_ofList, hresidue] at hscreen
    exact hscreen (by rw [List.length_append]; omega) (leavesOpen_append_quote hopen hc)

/-- A query between backticks with a semicolon. -/
theorem normalize_stop_at_quote_up :
    normalize "up_1".toList = "up_1".toList ∧ isQuote '\x60' = true ∧ isStop ';' = true ∧
      normalize "\x60up_1;\x60".toList = "up_1".toList ∧
      normalize "\x60up_1\x60;".toList = "up_1\x60".toList ∧
      normalize "up_1\x60".toList = "up_1".toList ∧
      screen "up_1" = .ok (.query ⟨"up_1", ["up_1"]⟩) ∧
      screen "\x60up_1\x60;" = .error ⟨.unbalancedDelimiters, "up_1\x60"⟩ := by
  have hself : normalize "up_1".toList = "up_1".toList := by decide +kernel
  have hscreen : screen "up_1" = .ok (.query ⟨"up_1", ["up_1"]⟩) := by decide +kernel
  obtain ⟨hinside, hbehind, hagain, hlost⟩ :=
    normalize_stop_at_quote (q := "up_1".toList) (c := '\x60') (p := ';') (by decide) hself
      (by decide) (by decide)
  exact ⟨hself, by decide, by decide, hinside, hbehind, hagain, hscreen, hlost _ hscreen⟩

/-- With a full stop behind the closing quote a query keeps that quote. -/
theorem normalize_stop_behind_quote_ne :
    "node_load1".toList ≠ [] ∧ normalize "node_load1".toList = "node_load1".toList ∧
      normalize "\"node_load1.\"".toList = "node_load1".toList ∧
      normalize "\"node_load1\".".toList = "node_load1\"".toList := by
  decide +kernel

end

end AskMetrics.Query
