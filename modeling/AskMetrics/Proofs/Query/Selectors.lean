import AskMetrics.Proofs.Query.Window
import AskMetrics.Proofs.Text.Division

/-!
# A window in place of every selector

A range selector has a bracket at each end and none inside, so no two of them overlap, and a text
that is put where one was makes no other one together with what stands around it. A text can
therefore be cut at all its selectors, in one way only, and a window changes nothing but the
selectors of that cut. Applying a second window finds just the selectors that the first one has put
there.
-/
namespace AskMetrics.Query

open AskMetrics.Text

/-! ## Selectors -/

/-- The units of a duration. -/
def durationUnits : List String := ["ms", "s", "m", "h", "d", "w", "y"]

/-- A number and its unit. -/
def IsDuration (w : List Char) : Prop :=
  ∃ n, n ≠ [] ∧ (∀ u ∈ n, isDecimal u = true) ∧ ∃ unit ∈ durationUnits, w = n ++ unit.toList

/-- One or more durations in square brackets. -/
def IsSelector (w : List Char) : Prop :=
  ∃ ws : List (List Char), ws ≠ [] ∧ (∀ x ∈ ws, IsDuration x) ∧ w = '[' :: (ws.flatten ++ [']'])

section
variable {c d : Cursor} {w x a b : List Char}

theorem mem_ends_unit :
    d ∈ (Pattern.orElse (.literal "ms") (.one fun c => "smhdwy".toList.contains c)).ends c ↔
      ∃ unit ∈ durationUnits, c.Reads unit.toList d := by
  simp only [Pattern.mem_ends_orElse, Pattern.mem_ends_literal, Pattern.mem_ends_one]
  simp [durationUnits, or_and_right, exists_or]

theorem mem_ends_duration :
    d ∈ duration.ends c ↔ ∃ w, IsDuration w ∧ c.Reads w d := by
  rw [duration, Pattern.mem_ends_andThen]
  simp only [Pattern.mem_ends_run, mem_ends_unit]
  constructor
  · rintro ⟨e, ⟨n, hne, hn, hread⟩, unit, hunit, hrest⟩
    exact ⟨_, ⟨n, hne, hn, unit, hunit, rfl⟩, hread.trans hrest⟩
  · rintro ⟨_, ⟨n, hne, hn, unit, hunit, rfl⟩, hreads⟩
    obtain ⟨e, hread, hrest⟩ := Cursor.reads_append_iff.mp hreads
    exact ⟨e, ⟨n, hne, hn, hread⟩, unit, hunit, hrest⟩

theorem IsDuration.ne_nil (h : IsDuration w) : w ≠ [] := by
  obtain ⟨n, hne, -, unit, -, rfl⟩ := h
  simp [hne]

/-- The pattern of a range selector fits the selectors, and nothing else. -/
theorem depicts_rangeSelector : Depicts rangeSelector fun _ => IsSelector := by
  intro c d
  have hsome : ∀ c d, d ∈ (Pattern.some duration).ends c ↔
      ∃ ws : List (List Char), ws ≠ [] ∧ (∀ x ∈ ws, IsDuration x) ∧ c.Reads ws.flatten d := by
    intro c d
    rw [Pattern.some, Pattern.mem_ends_andThen]
    simp only [mem_ends_duration,
      Pattern.mem_ends_many_iff (fun c d => mem_ends_duration) fun _ => IsDuration.ne_nil]
    constructor
    · rintro ⟨e, ⟨w, hw, hread⟩, ws, hws, hrest⟩
      exact ⟨w :: ws, by simp, List.forall_mem_cons.mpr ⟨hw, hws⟩, hread.trans hrest⟩
    · rintro ⟨ws, hne, hws, hreads⟩
      obtain ⟨w, ws, rfl⟩ := List.exists_cons_of_ne_nil hne
      obtain ⟨e, hread, hrest⟩ := Cursor.reads_append_iff.mp hreads
      exact ⟨e, ⟨w, hws w (.head _), hread⟩, ws, fun x hx => hws x (.tail _ hx), hrest⟩
  have hparts : d ∈ rangeSelector.ends c ↔ ∃ c₁, c.Reads ['['] c₁ ∧
      ∃ c₂, (∃ ws : List (List Char), ws ≠ [] ∧ (∀ x ∈ ws, IsDuration x) ∧
        c₁.Reads ws.flatten c₂) ∧ c₂.Reads [']'] d := by
    simp only [← hsome, ← Pattern.mem_ends_char, ← Pattern.mem_ends_andThen]
    simp [rangeSelector, duration]
  rw [hparts]
  constructor
  · rintro ⟨c₁, hopen, c₂, ⟨ws, hne, hws, hread⟩, hclose⟩
    exact ⟨_, ⟨ws, hne, hws, rfl⟩, hopen.trans (hread.trans hclose)⟩
  · rintro ⟨_, ⟨ws, hne, hws, rfl⟩, hreads⟩
    obtain ⟨c₁, hopen, hrest⟩ := Cursor.reads_cons_iff.mp hreads
    obtain ⟨c₂, hread, hclose⟩ := Cursor.reads_append_iff.mp hrest
    exact ⟨c₁, hopen, c₂, ⟨ws, hne, hws, hread⟩, hclose⟩

/-- A selector is a span in brackets. -/
theorem IsSelector.exists_span (h : IsSelector w) : ∃ i, IsSpan i ∧ w = '[' :: (i ++ [']']) := by
  have hmem := (depicts_rangeSelector ⟨[], w⟩ ⟨w.reverse, []⟩).mpr ⟨w, h, by simp, by simp⟩
  obtain ⟨i, hi, hread⟩ := exists_span_of_mem_rangeSelector hmem
  exact ⟨i, hi, by simpa using hread.ahead⟩

theorem IsSpan.not_mem_of_not_isWord {i : List Char} (h : IsSpan i) {u : Char}
    (hu : Text.isWord u = false) : u ∉ i := by
  intro hmem
  simp [h.isWord u hmem] at hu

/-- A selector begins with a bracket and has no further one of that kind. -/
theorem IsSelector.exists_rest (h : IsSelector w) : ∃ r, w = '[' :: r ∧ '[' ∉ r := by
  obtain ⟨i, hi, rfl⟩ := h.exists_span
  exact ⟨_, rfl, by simpa using hi.not_mem_of_not_isWord (u := '[') (by decide)⟩

/-- A selector ends at the first closing bracket. -/
theorem definite_isSelector : Definite fun _ => IsSelector where
  ne_nil h := by
    obtain ⟨r, rfl, -⟩ := h.exists_rest
    simp
  eq h h' heq := by
    obtain ⟨i, hi, rfl⟩ := h.exists_span
    obtain ⟨j, hj, rfl⟩ := h'.exists_span
    have hclose : ∀ {k}, IsSpan k → ']' ∉ k := fun hk => hk.not_mem_of_not_isWord (by decide)
    simp only [List.cons_append, List.append_assoc, List.cons.injEq, true_and] at heq
    rw [eq_of_append_cons_eq (hclose hi) (hclose hj) heq]

/-- What begins with a character that a stretch does not have lies behind it. -/
theorem infix_append_of_head_not_mem {v : Char} (hv : v ∉ x) (h : v :: w <:+: x ++ a) :
    v :: w <:+: a := by
  induction x with
  | nil => exact h
  | cons u x ih =>
    rcases List.infix_cons_iff.mp h with hpre | hin
    · obtain ⟨rfl, -⟩ := List.cons_prefix_cons.mp hpre
      exact absurd (.head _) hv
    · exact ih (fun hmem => hv (.tail _ hmem)) hin

theorem isSelector_minutesSelector (n : Nat) : IsSelector (minutesSelector n) := by
  refine ⟨[Nat.toDigits 10 n ++ ['m']], by simp, ?_, by simp [minutesSelector]⟩
  have hdigits : ∀ u ∈ Nat.toDigits 10 n, isDecimal u = true := fun u hu =>
    isDecimal_of_isDigit (Nat.isDigit_of_mem_toDigits (by decide) (by decide) hu)
  simpa using ⟨_, Nat.toDigits_ne_nil, hdigits, "m", by decide, rfl⟩

end

/-! ## Cutting at all selectors -/

/-- `d` is the text `s` cut at all its range selectors. -/
structure IsCut (d : Division) (s : List Char) : Prop where
  text_eq : d.text = s
  selector : ∀ w ∈ d.parts, IsSelector w
  free : ∀ x ∈ d.pieces, ∀ w, IsSelector w → ¬ w <:+: x

section
variable {d e : Division} {b s w y : List Char}

/-- Cutting at all selectors is cutting at those that are met from left to right. -/
theorem isCut_iff_divided : IsCut d s ↔ Divided (fun _ => IsSelector) b s d := by
  constructor
  · rintro ⟨rfl, hselector, hfree⟩
    induction d generalizing b with
    | nil => exact .nil b
    | keep u d ih =>
      refine .keep (fun w hw hpre => ?_) (ih hselector fun x hx w hw hin => ?_)
      · -- a selector that starts here would lie before the first part
        obtain ⟨r, rfl, hr⟩ := hw.exists_rest
        obtain ⟨rfl, hrest⟩ := List.cons_prefix_cons.mp hpre
        have hopen : ∀ w ∈ d.parts, w.head? = some '[' := by
          intro w hw
          obtain ⟨r, rfl, -⟩ := (hselector w hw).exists_rest
          rfl
        have hfront := (Division.prefix_text_iff hr hopen).mp hrest
        exact hfree _ (.head _) _ hw (List.cons_prefix_cons.mpr ⟨rfl, hfront⟩).isInfix
      · rcases List.mem_cons.mp hx with rfl | hx
        · exact hfree _ (.head _) w hw (List.infix_cons hin)
        · exact hfree x (.tail _ hx) w hw hin
    | part w d ih =>
      exact .part (hselector w (.head _)) (ih (fun x hx => hselector x (.tail _ hx))
        fun x hx => hfree x (.tail _ hx))
  · intro h
    exact ⟨h.text_eq, fun w hw => (h.of_mem_parts w hw).choose_spec,
      h.not_infix_of_mem_pieces (definite_isSelector.ne_nil (b := []))⟩

namespace IsCut

/-- A selector anywhere in the text is a part of the cut. -/
theorem mem_parts (h : IsCut d s) (hw : IsSelector w) (hin : w <:+: s) : w ∈ d.parts := by
  have hd := (isCut_iff_divided (b := [])).mp h
  clear h
  generalize ([] : List Char) = b at hd
  induction hd with
  | nil => exact absurd (List.infix_nil.mp hin) (definite_isSelector.ne_nil (b := []) hw)
  | keep hno _ ih =>
    rcases List.infix_cons_iff.mp hin with hpre | hin
    · exact absurd hpre (hno w hw)
    · exact ih hin
  | @part b w' a d hw' _ ih =>
    obtain ⟨r, rfl, -⟩ := hw.exists_rest
    obtain ⟨r', rfl, hr'⟩ := hw'.exists_rest
    rcases List.infix_cons_iff.mp hin with ⟨z, hz⟩ | hin
    · rw [definite_isSelector.eq (b := []) hw hw' hz]
      exact .head _
    · exact .tail _ (ih (infix_append_of_head_not_mem hr' hin))

theorem infix_of_mem_parts (h : IsCut d s) (hw : w ∈ d.parts) : w <:+: s :=
  h.text_eq ▸ d.infix_text_of_mem_parts hw

/-- Other selectors in place of those of a cut are those of the new text. -/
theorem put (h : IsCut d s) (hy : IsSelector y) : IsCut (d.put y) (d.put y).text where
  text_eq := rfl
  selector w hw := by
    rw [Division.parts_put] at hw
    rwa [List.eq_of_mem_replicate hw]
  free := by
    rw [Division.pieces_put]
    exact h.free

theorem unique (h : IsCut d s) (h' : IsCut e s) : e = d :=
  (isCut_iff_divided.mp h').unique definite_isSelector ((isCut_iff_divided (b := [])).mp h)

end IsCut

theorem exists_isCut (s : List Char) : ∃ d, IsCut d s :=
  (exists_divided definite_isSelector [] s).imp fun _ => isCut_iff_divided.mpr

/-! ## Windows -/

/-- A window takes the place of each selector of the cut. -/
theorem replaceRanges_eq {n : Nat} (hn : 0 < n) (h : IsCut d s) :
    replaceRanges s (some n) = (d.put (minutesSelector n)).text := by
  obtain ⟨m, rfl⟩ := Nat.exists_eq_succ_of_ne_zero hn.ne'
  exact (isCut_iff_divided.mp h).replaceAll_eq depicts_rangeSelector definite_isSelector _

/-- Of two windows the last one counts. A window leaves no selector but its own and takes the place
of all those that were there, and of nothing else; no window, or one of zero minutes, changes
nothing. -/
theorem last_window_wins (s : List Char) {m n : Nat} (hm : 0 < m) (hn : 0 < n) :
    replaceRanges (replaceRanges s (some m)) (some n) = replaceRanges s (some n) ∧
    (∀ w, IsSelector w → w <:+: replaceRanges s (some m) → w = minutesSelector m) ∧
    (∃ d d', (∀ e, IsCut e s ↔ e = d) ∧ (∀ e, IsCut e (replaceRanges s (some m)) ↔ e = d') ∧
      d'.parts = List.replicate d.parts.length (minutesSelector m) ∧ d'.pieces = d.pieces) ∧
    replaceRanges s none = s ∧ replaceRanges s (some 0) = s := by
  obtain ⟨d, hd⟩ := exists_isCut s
  have hcut : IsCut (d.put (minutesSelector m)) (replaceRanges s (some m)) := by
    rw [replaceRanges_eq hm hd]
    exact hd.put (isSelector_minutesSelector m)
  refine ⟨?_, fun w hw hin => ?_, ⟨d, d.put (minutesSelector m), fun e => ?_, fun e => ?_,
    Division.parts_put, Division.pieces_put⟩, rfl, rfl⟩
  · rw [replaceRanges_eq hn hcut, replaceRanges_eq hn hd, Division.put_put]
  · have hmem := hcut.mem_parts hw hin
    rw [Division.parts_put] at hmem
    exact List.eq_of_mem_replicate hmem
  · exact ⟨hd.unique, fun he => he ▸ hd⟩
  · exact ⟨hcut.unique, fun he => he ▸ hcut⟩

theorem last_window_wins_of_two_selectors :
    (0 < 10 ∧ 0 < 3) ∧
    replaceRanges (replaceRanges "a[5m] / b[[1h30m]]".toList (some 10)) (some 3) =
      "a[3m] / b[[3m]]".toList := by
  refine ⟨by decide, ?_⟩
  have hlast := (last_window_wins "a[5m] / b[[1h30m]]".toList (m := 10) (n := 3)
    (by decide) (by decide)).1
  rw [hlast]
  decide +kernel

end

end AskMetrics.Query
