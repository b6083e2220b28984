import AskMetrics.Proofs.Query.Expression
import AskMetrics.Proofs.Text.Blank
import AskMetrics.Proofs.Text.Word

/-!
# The layout of an expression

The checks read a query from left to right. So an expression is laid out here as a row of pieces,
and a machine with a stack of open brackets says which piece can follow: whether an operand is
awaited, and what opened the bracket that closes next. Every expression is such a row, and a proof
about its text needs one case for each piece, with what the machine knows about the text before it.

The checks also replace parts of the text before they look at it. Only label matchers and groupings
are ever replaced, so the text of a row depends on a rendition of these two.

## Main definitions

* `Piece`, `Head` : the pieces of a row.
* `Rendition`, `Piece.text`, `textOf` : the text of pieces, with matchers and groupings replaced.
* `Layout` : the rows that the machine takes from a state to the end.
* `AtOperand` : the places where an operand can stand.
* `Expr.pieces` : the row of an expression.
-/
namespace AskMetrics.Query

open AskMetrics.Text

/-! ## Pieces -/

/-- What stands before a round bracket that opens. -/
inductive Head where
  | parens
  | call (f : FunctionName)
  | aggregate (a : Aggregation)
  | grouped (a : Aggregation) (g : Grouping)

/-- A piece of a query. -/
inductive Piece where
  | metric (m : MetricName)
  | matchers (ms : List Matcher)
  /-- A range and the bracket that closes the call around it. -/
  | range (d : Duration)
  | opening (h : Head)
  /-- A bracket that closes, perhaps with a grouping after it. -/
  | closing (g : Option Grouping)
  | numeral (n : Numeral)
  | sign (o : Sign)

/-- The characters outside label matchers. -/
def isBare (u : Char) : Bool :=
  isNameChar u || " ()[],+-*/".toList.contains u

/-- How label matchers and groupings are written. Matchers never look like the rest of a name, and
groupings have no characters that only matchers have. -/
structure Rendition where
  matchers : List Matcher → List Char
  grouping : Grouping → List Char
  ends_matchers : ∀ ms a, Ends (matchers ms ++ a)
  bare_grouping : ∀ g, ∀ u ∈ grouping g, isBare u = true

/-- The text before the round bracket. -/
def Head.text (r : Rendition) : Head → List Char
  | parens => []
  | call f => f.text.toList
  | aggregate a => a.name.toList
  | grouped a g => a.name.toList ++ ' ' :: (r.grouping g ++ [' '])

/-- The text of a piece. -/
def Piece.text (r : Rendition) : Piece → List Char
  | metric m => m.text
  | matchers ms => r.matchers ms
  | range d => d.render ++ [')']
  | opening h => h.text r ++ ['(']
  | closing none => [')']
  | closing (some g) => ')' :: ' ' :: r.grouping g
  | numeral n => n.render
  | sign o => o.render

/-- The text of a row of pieces. -/
def textOf (r : Rendition) (ps : List Piece) : List Char :=
  ps.flatMap (Piece.text r)

section
variable {r : Rendition} {p : Piece} {ps qs : List Piece}

@[simp] theorem textOf_nil : textOf r [] = [] := rfl

@[simp] theorem textOf_cons : textOf r (p :: ps) = p.text r ++ textOf r ps := rfl

@[simp] theorem textOf_append : textOf r (ps ++ qs) = textOf r ps ++ textOf r qs := by
  simp [textOf]

end

/-! ## Bare characters -/

theorem isBare_of_isNameChar {u : Char} (h : isNameChar u = true) : isBare u = true := by
  simp [isBare, h]

theorem ne_of_isBare {u v : Char} (hu : isBare u = true) (hv : isBare v = false) : u ≠ v := by
  rintro rfl
  simp [hu] at hv

/-- The characters of a list of labels. -/
theorem mem_joinWith_labels {ls : List LabelName} {u : Char}
    (h : u ∈ joinWith [',', ' '] (ls.map LabelName.text)) :
    u = ',' ∨ u = ' ' ∨ isNameChar u = true := by
  rcases mem_joinWith h with hu | ⟨part, hpart, hu⟩
  · have hcases : u = ',' ∨ u = ' ' := by simpa using hu
    exact hcases.imp_right .inl
  · obtain ⟨l, -, rfl⟩ := List.mem_map.mp hpart
    exact .inr (.inr (l.isNameChar u hu))

/-- The bracket that closes a list of labels is not in it. -/
theorem not_closing_of_mem_labels (ls : List LabelName) :
    ∀ u ∈ joinWith [',', ' '] (ls.map LabelName.text), (u != ')') = true := by
  intro u hu
  rcases mem_joinWith_labels hu with rfl | rfl | hu
  · decide
  · decide
  · simpa using ne_of_isNameChar hu (by decide)

/-- The characters of a range. -/
theorem Duration.mem_render {d : Duration} {u : Char} (h : u ∈ d.render) :
    u = '[' ∨ u = ']' ∨ isNameChar u = true := by
  simp only [Duration.render, List.mem_cons, List.mem_append, List.not_mem_nil, or_false] at h
  rcases h with rfl | hu | rfl | rfl
  · exact .inl rfl
  · exact .inr (.inr (isNameChar_of_isDigit (d.isDigit u hu)))
  · exact .inr (.inr d.isNameChar_unit)
  · exact .inr (.inl rfl)

/-- The characters of a number. -/
theorem Numeral.mem_render {n : Numeral} {u : Char} (h : u ∈ n.render) :
    u = '-' ∨ isNameChar u = true := by
  rcases List.mem_append.mp h with hu | hu
  · split_ifs at hu
    · exact .inl (by simpa using hu)
    · simp at hu
  · exact .inr (isNameChar_of_isDigit (n.isDigit u hu))

theorem Grouping.isBare (g : Grouping) : ∀ u ∈ g.render, isBare u = true := by
  intro u hu
  simp only [Grouping.render, List.mem_append, List.mem_cons, List.not_mem_nil, or_false] at hu
  rcases hu with hu | rfl | rfl | hu | rfl
  · exact isBare_of_isNameChar (g.keeping.isNameChar u hu)
  · decide
  · decide
  · rcases mem_joinWith_labels hu with rfl | rfl | hu
    · decide
    · decide
    · exact isBare_of_isNameChar hu
  · decide

theorem Duration.isBare (d : Duration) : ∀ u ∈ d.render, isBare u = true := by
  intro u hu
  rcases Duration.mem_render hu with rfl | rfl | hu
  · decide
  · decide
  · exact isBare_of_isNameChar hu

theorem Numeral.isBare (n : Numeral) : ∀ u ∈ n.render, isBare u = true := by
  intro u hu
  rcases Numeral.mem_render hu with rfl | hu
  · decide
  · exact isBare_of_isNameChar hu

theorem Sign.isBare (o : Sign) : ∀ u ∈ o.render, isBare u = true := by
  cases o <;> exact List.all_eq_true.mp (by decide)

theorem Head.isBare (r : Rendition) (h : Head) : ∀ u ∈ h.text r, isBare u = true := by
  intro u hu
  cases h with
  | parens => simp [Head.text] at hu
  | call f => exact isBare_of_isNameChar (f.isNameChar u hu)
  | aggregate a => exact isBare_of_isNameChar (a.isNameChar u hu)
  | grouped a g =>
    simp only [Head.text, List.mem_append, List.mem_cons, List.not_mem_nil, or_false] at hu
    rcases hu with hu | rfl | hu | rfl
    · exact isBare_of_isNameChar (a.isNameChar u hu)
    · decide
    · exact r.bare_grouping g u hu
    · decide

namespace Piece
variable {p : Piece}

/-- Only matchers have other than bare characters. -/
theorem isBare (r : Rendition) (hp : ¬ ∃ ms, p = .matchers ms) :
    ∀ u ∈ p.text r, isBare u = true := by
  intro u hu
  cases p with
  | matchers ms => exact absurd ⟨ms, rfl⟩ hp
  | metric m => exact isBare_of_isNameChar (m.isNameChar u hu)
  | range d =>
    rcases List.mem_append.mp hu with hu | hu
    · exact d.isBare u hu
    · obtain rfl : u = ')' := by simpa using hu
      decide
  | opening h =>
    rcases List.mem_append.mp hu with hu | hu
    · exact h.isBare r u hu
    · obtain rfl : u = '(' := by simpa using hu
      decide
  | closing g =>
    cases g with
    | none =>
      obtain rfl : u = ')' := by simpa [text] using hu
      decide
    | some g =>
      simp only [text, List.mem_cons] at hu
      rcases hu with rfl | rfl | hu
      · decide
      · decide
      · exact r.bare_grouping g u hu
  | numeral n => exact n.isBare u hu
  | sign o => exact o.isBare u hu

/-- Other pieces look the same in renditions that do the same to groupings. -/
theorem text_congr (r r' : Rendition) (hg : r.grouping = r'.grouping)
    (hp : ¬ ∃ ms, p = .matchers ms) : p.text r = p.text r' := by
  cases p with
  | matchers ms => exact absurd ⟨ms, rfl⟩ hp
  | opening h => cases h <;> simp [text, Head.text, hg]
  | closing g => cases g <;> simp [text, hg]
  | metric | range | numeral | sign => rfl

end Piece

/-- Matchers and groupings as they are in the query. -/
def written : Rendition where
  matchers := renderMatchers
  grouping := Grouping.render
  ends_matchers := fun _ _ => by simp [renderMatchers]; decide
  bare_grouping := Grouping.isBare

/-! ## Rows -/

/-- The rows of pieces that can follow a place where an operand is awaited or not and some brackets
are open, the nearest first. A range closes a call, and a grouping follows an aggregation. -/
inductive Layout : Bool → List Head → List Piece → Prop
  | done : Layout false [] []
  | metric (m : MetricName) {heads : List Head} {ps : List Piece} (rest : Layout false heads ps) :
    Layout true heads (.metric m :: ps)
  | matchers (ms : List Matcher) {heads : List Head} {ps : List Piece}
    (rest : Layout false heads ps) : Layout false heads (.matchers ms :: ps)
  | range (f : FunctionName) (d : Duration) {heads : List Head} {ps : List Piece}
    (rest : Layout false heads ps) : Layout false (.call f :: heads) (.range d :: ps)
  | opening (h : Head) {heads : List Head} {ps : List Piece} (rest : Layout true (h :: heads) ps) :
    Layout true heads (.opening h :: ps)
  | closing (h : Head) {heads : List Head} {ps : List Piece} (rest : Layout false heads ps) :
    Layout false (h :: heads) (.closing none :: ps)
  | closingBy (a : Aggregation) (g : Grouping) {heads : List Head} {ps : List Piece}
    (rest : Layout false heads ps) :
    Layout false (.aggregate a :: heads) (.closing (some g) :: ps)
  | numeral (n : Numeral) {heads : List Head} {ps : List Piece} (rest : Layout false heads ps) :
    Layout true heads (.numeral n :: ps)
  | sign (o : Sign) {heads : List Head} {ps : List Piece} (rest : Layout true heads ps) :
    Layout false heads (.sign o :: ps)

/-- Where no operand is awaited, no identifier goes on. -/
theorem Layout.ends_textOf {r : Rendition} {heads : List Head} {ps : List Piece}
    (h : Layout false heads ps) : Ends (textOf r ps) := by
  cases h with
  | done => simp
  | matchers ms _ => exact r.ends_matchers ms _
  | range | closing | closingBy | sign =>
    simp only [textOf_cons, Piece.text, Duration.render, Sign.render, List.cons_append, ends_cons]
    decide

/-! ## Places for an operand -/

/-- An operand can stand after `b`, read backwards. -/
def AtOperand (b : List Char) : Prop := ∀ u ∈ b.head?, u = '(' ∨ u = ' '

theorem AtOperand.opens {b : List Char} (h : AtOperand b) : Opens b := by
  intro u hu
  rcases h u hu with rfl | rfl <;> decide

theorem atOperand_opening {r : Rendition} (h : Head) {b : List Char} :
    AtOperand (((Piece.opening h).text r).reverse ++ b) := by
  simp [AtOperand, Piece.text]

theorem atOperand_sign (o : Sign) {b : List Char} : AtOperand (o.render.reverse ++ b) := by
  simp [AtOperand, Sign.render]

/-! ## The row of an expression -/

/-- The pieces of a selector. -/
def Selector.pieces (s : Selector) : List Piece :=
  .metric s.metric :: (s.matchers.map fun ms => [.matchers ms]).getD []

namespace Expr

/-- The pieces of an expression. -/
def pieces : Expr → List Piece
  | select s => s.pieces
  | call f s d => .opening (.call f) :: (s.pieces ++ [.range d])
  | aggregate a e => .opening (.aggregate a) :: (e.pieces ++ [.closing none])
  | groupedBefore a g e => .opening (.grouped a g) :: (e.pieces ++ [.closing none])
  | groupedAfter a e g => .opening (.aggregate a) :: (e.pieces ++ [.closing (some g)])
  | parens e => .opening .parens :: (e.pieces ++ [.closing none])
  | binary e o f => e.pieces ++ .sign o :: f.pieces
  | scaledLeft n o e => .numeral n :: .sign o :: e.pieces
  | scaledRight e o n => e.pieces ++ [.sign o, .numeral n]

end Expr

theorem Selector.render_eq (s : Selector) : s.render = textOf written s.pieces := by
  rcases h : s.matchers with _ | ms <;> simp [render, pieces, h, Piece.text, written]

/-- The text of an expression is the text of its row. -/
theorem Expr.render_eq (e : Expr) : e.render = textOf written e.pieces := by
  induction e with
  | select s => exact s.render_eq
  | call f s d => simp [render, pieces, Piece.text, Head.text, s.render_eq]
  | aggregate a e ih => simp [render, pieces, Piece.text, Head.text, ih]
  | groupedBefore a g e ih => simp [render, pieces, Piece.text, Head.text, ih, written]
  | groupedAfter a e g ih => simp [render, pieces, Piece.text, Head.text, ih, written]
  | parens e ih => simp [render, pieces, Piece.text, Head.text, ih]
  | binary e o f ihe ihf => simp [render, pieces, Piece.text, ihe, ihf]
  | scaledLeft n o e ih => simp [render, pieces, Piece.text, ih]
  | scaledRight e o n ih => simp [render, pieces, Piece.text, ih]

theorem Selector.layout (s : Selector) {heads : List Head} {ps : List Piece}
    (rest : Layout false heads ps) : Layout true heads (s.pieces ++ ps) := by
  rcases h : s.matchers with _ | ms
  · simpa [pieces, h] using .metric s.metric rest
  · simpa [pieces, h] using .metric s.metric (.matchers ms rest)

/-- The row of an expression takes the place of an operand, whatever is open. -/
theorem Expr.layout (e : Expr) {heads : List Head} {ps : List Piece}
    (rest : Layout false heads ps) : Layout true heads (e.pieces ++ ps) := by
  induction e generalizing heads ps with
  | select s => exact s.layout rest
  | call f s d =>
    have hinside := s.layout (.range f d rest)
    simpa [pieces] using Layout.opening (.call f) hinside
  | aggregate a e ih =>
    simpa [pieces] using Layout.opening (.aggregate a) (ih (.closing _ rest))
  | groupedBefore a g e ih =>
    simpa [pieces] using Layout.opening (.grouped a g) (ih (.closing _ rest))
  | groupedAfter a e g ih =>
    simpa [pieces] using Layout.opening (.aggregate a) (ih (.closingBy a g rest))
  | parens e ih => simpa [pieces] using Layout.opening .parens (ih (.closing _ rest))
  | binary e o f ihe ihf => simpa [pieces] using ihe (.sign o (ihf rest))
  | scaledLeft n o e ih => exact .numeral n (.sign o (ih rest))
  | scaledRight e o n ih => simpa [pieces] using ih (.sign o (.numeral n rest))

theorem Expr.layout_pieces (e : Expr) : Layout true [] e.pieces := by
  simpa using e.layout .done

end AskMetrics.Query
