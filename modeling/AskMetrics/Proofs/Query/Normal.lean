import AskMetrics.Proofs.Text.Blank
import AskMetrics.Proofs.Text.Scan
import AskMetrics.Query.Normal

/-!
# Texts in normal form

Normalizing leaves out what a model puts around a query. A text without any of that, and with
single spaces between its words, is its own normal form.
-/
namespace AskMetrics.Query

open AskMetrics.Text

/-- A mark of punctuation that is left out at the end. -/
def isStop (u : Char) : Bool :=
  u == '.' || u == ';' || u == ','

/-- A text with nothing around it that normalizing leaves out. -/
structure Plain (s : List Char) : Prop where
  spaced : Spaced s
  no_fence : Along (fun b a => fence.ends ⟨b, a⟩ = []) [] s []
  no_label : findFirst [label] s = none
  first : ∀ u ∈ s.head?, isQuote u = false
  last : ∀ u ∈ s.getLast?, isQuote u = false ∧ isStop u = false

theorem dropLast_eq_self {drops : Char → Bool} {s : List Char}
    (h : ∀ u ∈ s.getLast?, drops u = false) : dropLast drops s = s := by
  unfold dropLast
  cases hlast : s.getLast? with
  | none => rfl
  | some u => simp [h u hlast]

theorem dropFirst_eq_self {drops : Char → Bool} {s : List Char}
    (h : ∀ u ∈ s.head?, drops u = false) : dropFirst drops s = s := by
  cases s with
  | nil => rfl
  | cons u s => simp [dropFirst, h u rfl]

/-- A text on one line is that line. -/
theorem firstLine_eq_trim {s : List Char} (h : '\n' ∉ s) : firstLine s = trim s := by
  have hline : ∀ u ∈ s, (u == '\n') = false := fun u hu => by
    simpa using ne_of_mem_of_not_mem hu h
  rw [firstLine, pieces_eq_singleton hline]
  by_cases hblank : trim s = []
  · simp [hblank]
  · simp [hblank]

/-- A text without quotes at its edges is just trimmed. -/
theorem dropQuotes_eq_trim {s : List Char} (hhead : ∀ u ∈ s.head?, isQuote u = false)
    (hlast : ∀ u ∈ s.getLast?, isQuote u = false) : dropQuotes s = trim s := by
  have hwrapped : isWrapped s = false := by
    match s with
    | [] => rfl
    | [_] => rfl
    | c :: d :: cs => simp [isWrapped, hhead c rfl]
  simp [dropQuotes, hwrapped, dropFirst_eq_self hhead, dropLast_eq_self hlast]

namespace Plain
variable {s : List Char}

theorem dropFences_eq (h : Plain s) : dropFences s = s :=
  replaceAll_eq_self _ h.no_fence

theorem dropLabel_eq (h : Plain s) : dropLabel s = s := by
  simp [dropLabel, h.no_label]

theorem firstLine_eq (h : Plain s) : firstLine s = s := by
  have hline : '\n' ∉ s := fun hmem =>
    absurd (h.spaced.eq_space_of_isBlank hmem (by decide)) (by decide)
  rw [firstLine_eq_trim hline, h.spaced.trim_eq]

theorem dropQuotes_eq (h : Plain s) : dropQuotes s = s := by
  rw [dropQuotes_eq_trim h.first fun u hu => (h.last u hu).1, h.spaced.trim_eq]

theorem dropStop_eq (h : Plain s) : dropStop s = s :=
  dropLast_eq_self fun u hu => (h.last u hu).2

theorem collapseBlanks_eq (h : Plain s) : collapseBlanks s = s :=
  h.spaced.joinWith_words

/-- A plain text is its own normal form. -/
theorem normalize_eq_self (h : Plain s) : normalize s = s := by
  rw [normalize]
  simp only [h.dropFences_eq, h.spaced.trim_eq, h.dropLabel_eq, h.firstLine_eq, h.dropQuotes_eq,
    h.dropStop_eq, h.collapseBlanks_eq]

end Plain

/-! ## Fences and labels -/

theorem ends_fence {b a : List Char} {u : Char} (hu : u ≠ '\x60') :
    fence.ends ⟨b, u :: a⟩ = [] := by
  rw [List.eq_nil_iff_forall_not_mem]
  intro d hd
  simp only [fence, Pattern.mem_ends_andThen, Pattern.mem_ends_literal] at hd
  obtain ⟨d', hread, -⟩ := hd
  exact hu (List.cons.inj hread.ahead).1

/-- The word of a label has no quotes in it. -/
theorem exists_reads_of_labelWord {c d : Cursor}
    (h : d ∈ (Pattern.anyCase "promql").ends c ∨ d ∈ (Pattern.anyCase "query").ends c ∨
      d ∈ (Pattern.anyCase "output").ends c) :
    ∃ x, c.Reads x d ∧ ∀ u ∈ x, (u != '"') = true := by
  have hletters : ∀ w ∈ ["promql", "query", "output"],
      w.toList.all (!sameLetter · '"') = true := by
    decide
  have hword : ∀ w ∈ ["promql", "query", "output"], d ∈ (Pattern.anyCase w).ends c →
      ∃ x, c.Reads x d ∧ ∀ u ∈ x, (u != '"') = true := by
    intro w hw hd
    obtain ⟨x, hreads, hx⟩ := Pattern.exists_sameLetter_of_mem_ends hd
    refine ⟨x, hreads, fun u hu => ?_⟩
    by_contra hquote
    obtain rfl : u = '"' := by simpa using hquote
    obtain ⟨letter, hmem, hsame⟩ := hx '"' hu
    have hnot := List.all_eq_true.mp (hletters w hw) letter hmem
    simp [hsame] at hnot
  rcases h with h | h | h
  · exact hword "promql" (by decide) h
  · exact hword "query" (by decide) h
  · exact hword "output" (by decide) h

/-- A label ends in a colon with no quote before it. -/
theorem findFirst_label_eq_none {s : List Char} (h : ':' ∉ s.takeWhile (· != '"')) :
    findFirst [label] s = none := by
  rw [findFirst, findFrom_eq_none_iff]
  intro x a hs
  refine matchAt_singleton_eq_none ?_
  rw [List.eq_nil_iff_forall_not_mem]
  intro d hd
  simp only [label, Pattern.oneOf, Pattern.sequence_cons_cons, Pattern.mem_ends_andThen,
    Pattern.mem_ends_atStart, Pattern.mem_ends_orElse, Pattern.mem_ends_blanks,
    Pattern.mem_ends_char] at hd
  obtain ⟨d₀, ⟨hstart, rfl⟩, d₁, hword, d₂, ⟨y, hy, hblanks⟩, d₃, hcolon, -⟩ := hd
  obtain rfl : x = [] := by simpa using hstart
  obtain ⟨k, hreads, hk⟩ := exists_reads_of_labelWord hword
  have ha : s = (k ++ y) ++ ':' :: d₃.ahead := by
    rw [hs]
    simpa using (hreads.trans (hblanks.trans hcolon)).ahead
  have hbefore : ∀ u ∈ k ++ y, (u != '"') = true := by
    intro u hu
    rcases List.mem_append.mp hu with hu | hu
    · exact hk u hu
    · have hblank := hy u hu
      by_contra hquote
      obtain rfl : u = '"' := by simpa using hquote
      exact absurd hblank (by decide)
  apply h
  rw [ha, List.takeWhile_append_of_pos hbefore]
  simp

end AskMetrics.Query
