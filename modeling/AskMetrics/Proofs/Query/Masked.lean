import AskMetrics.Proofs.Query.Layout
import AskMetrics.Proofs.Query.Literal

/-!
# The mask of an expression

In an expression only label values are quoted, and escaping keeps them inside their quotes. So its
literals are all closed, and its mask is the same row of pieces with the values blanked.
-/
namespace AskMetrics.Query

open AskMetrics.Text

/-! ## Masking -/

/-- The text of a matcher with its value blanked. -/
def Matcher.masked (m : Matcher) : List Char :=
  m.label.text ++ '=' :: '"' :: (List.replicate (m.value.text.flatMap escape).length ' ' ++ ['"'])

/-- Matchers with blanked values. -/
def masked : Rendition where
  matchers := fun ms => '\x7b' :: (joinWith [','] (ms.map Matcher.masked) ++ ['\x7d'])
  grouping := Grouping.render
  ends_matchers := fun _ _ => by simp; decide
  bare_grouping := Grouping.isBare

theorem isQuote_of_isBare {u : Char} (h : isBare u = true) : isQuote u = false := by
  have hne : ∀ v, isBare v = false → (u == v) = false :=
    fun v hv => beq_eq_false_iff_ne.mpr (ne_of_isBare h hv)
  rw [isQuote, hne '"' (by decide), hne '\'' (by decide), hne '\x60' (by decide)]
  rfl

/-- `y` is the mask of `x`, a text whose literals are all closed. -/
structure Masks (x y : List Char) : Prop where
  mask : maskFrom .outside x = y
  closed : Quoting.outside.after x = .outside

namespace Masks
variable {x y x' y' : List Char}

theorem append (h : Masks x y) (h' : Masks x' y') : Masks (x ++ x') (y ++ y') := by
  refine ⟨?_, ?_⟩
  · rw [maskFrom_append, h.mask, h.closed, h'.mask]
  · rw [Quoting.after_append, h.closed, h'.closed]

/-- Without quotes there is nothing to mask. -/
theorem of_not_isQuote (h : ∀ u ∈ x, isQuote u = false) : Masks x x := by
  induction x with
  | nil => exact ⟨rfl, rfl⟩
  | cons u x ih =>
    obtain ⟨hmask, hclosed⟩ := ih fun v hv => h v (.tail _ hv)
    have hu := h u (.head _)
    refine ⟨?_, ?_⟩
    · simp [maskFrom, Quoting.shown, Quoting.next, hu, hmask]
    · simp [Quoting.next, hu, hclosed]

theorem of_isBare (h : ∀ u ∈ x, isBare u = true) : Masks x x :=
  of_not_isQuote fun u hu => isQuote_of_isBare (h u hu)

/-- A literal in double quotes. -/
theorem literal (h : Body '"' x) : Masks ('"' :: (x ++ ['"']))
    ('"' :: (List.replicate x.length ' ' ++ ['"'])) := by
  have hquote : isQuote '"' = true := by decide
  refine ⟨?_, ?_⟩
  · simp [maskFrom, Quoting.shown, Quoting.next, hquote, h.after_inside, h.maskFrom_inside]
  · simp [Quoting.next, hquote, h.after_inside]

theorem joinWith {α : Type} {separator : List Char} {f g : α → List Char}
    (hseparator : Masks separator separator) (hfg : ∀ a, Masks (f a) (g a)) (as : List α) :
    Masks (joinWith separator (as.map f)) (joinWith separator (as.map g)) := by
  induction as with
  | nil => exact ⟨rfl, rfl⟩
  | cons a as ih =>
    cases as with
    | nil => exact hfg a
    | cons b as => exact ((hfg a).append hseparator).append ih

end Masks

/-- Escaping makes every text the body of a literal. -/
theorem body_escape (x : List Char) : Body '"' (x.flatMap escape) := by
  induction x with
  | nil => exact .nil
  | cons u x ih =>
    by_cases h : u = '"' ∨ u = '\\'
    · simpa [escape, h] using Body.escape u ih
    · obtain ⟨hq, hb⟩ := not_or.mp h
      simpa [escape, h] using Body.char hq hb ih

theorem Matcher.masks (m : Matcher) : Masks m.render m.masked := by
  have hlabel : Masks (m.label.text ++ ['=']) (m.label.text ++ ['=']) := by
    refine (Masks.of_isBare fun u hu => isBare_of_isNameChar (m.label.isNameChar u hu)).append ?_
    exact .of_not_isQuote (by simp; decide)
  simpa [render, masked, LabelValue.quoted] using
    hlabel.append (.literal (body_escape m.value.text))

theorem masks_matchers (ms : List Matcher) : Masks (renderMatchers ms) (masked.matchers ms) := by
  have hopen : Masks ['\x7b'] ['\x7b'] := .of_not_isQuote (by simp; decide)
  have hclose : Masks ['\x7d'] ['\x7d'] := .of_not_isQuote (by simp; decide)
  have hcomma : Masks [','] [','] := .of_not_isQuote (by simp; decide)
  exact hopen.append ((Masks.joinWith hcomma Matcher.masks ms).append hclose)

theorem Piece.masks (p : Piece) : Masks (p.text written) (p.text masked) := by
  by_cases hp : ∃ ms, p = .matchers ms
  · obtain ⟨ms, rfl⟩ := hp
    exact masks_matchers ms
  · rw [Piece.text_congr masked written rfl hp]
    exact .of_isBare (Piece.isBare written hp)

/-- The mask of a row of pieces is the same row with its values blanked. -/
theorem masks_textOf (ps : List Piece) : Masks (textOf written ps) (textOf masked ps) := by
  induction ps with
  | nil => exact ⟨rfl, rfl⟩
  | cons p ps ih => exact p.masks.append ih

theorem mask_textOf (ps : List Piece) : mask (textOf written ps) = textOf masked ps :=
  (masks_textOf ps).mask

theorem leavesOpen_textOf (ps : List Piece) : leavesOpen (textOf written ps) = false := by
  simp [leavesOpen, (masks_textOf ps).closed]

end AskMetrics.Query
