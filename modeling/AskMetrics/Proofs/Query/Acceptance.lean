import AskMetrics.Proofs.Distinct
import AskMetrics.Proofs.Query.Check
import AskMetrics.Proofs.Query.ExpressionMetrics
import AskMetrics.Proofs.Query.ExpressionNormal

/-!
# Well-formed expressions are accepted

No expression of the language the prompt asks for is turned away: its text is in normal form and
breaks no rule, and the metric names found in it are those that are in it.
-/
namespace AskMetrics.Query

open AskMetrics.Text

namespace Expr
variable (e : Expr)

theorem mask_render : mask e.render = textOf masked e.pieces := by
  rw [e.render_eq, mask_textOf]

theorem soundText : SoundText (mask e.render) := by
  rw [e.mask_render]
  intro b u a hs
  exact (e.layout_pieces.sound (by simp [AtOperand]) trivial).at_place hs

theorem isBalanced : isBalanced (mask e.render) = true := by
  rw [e.mask_render]
  exact e.layout_pieces.closes

theorem metrics_ne_nil : e.metrics ≠ [] := by
  induction e with
  | select | call => simp [metrics]
  | binary e o f ihe _ => simp [metrics, ihe]
  | aggregate a e ih => exact ih
  | groupedBefore a g e ih => exact ih
  | groupedAfter a e g ih => exact ih
  | parens e ih => exact ih
  | scaledLeft n o e ih => exact ih
  | scaledRight e o n ih => exact ih

/-- An expression has a metric, and a metric begins like an identifier. -/
theorem hasIdentifier : hasIdentifier e.render = true := by
  obtain ⟨m, ms, hms⟩ := List.exists_cons_of_ne_nil e.metrics_ne_nil
  have hmem : m ∈ e.pieces.filterMap Piece.metric? := by
    rw [e.filterMap_metric?, hms]
    exact .head _
  obtain ⟨p, hp, hm⟩ := List.mem_filterMap.mp hmem
  obtain rfl : p = .metric m := by
    cases p <;> simp_all [Piece.metric?]
  obtain ⟨u, y, hm, hu, -⟩ := exists_eq_cons_of_isIdentifier m.identifier
  rw [e.render_eq, Query.hasIdentifier, List.any_eq_true]
  refine ⟨u, List.mem_flatMap.mpr ⟨_, hp, ?_⟩, by simp [isIdentStart_of_isAlpha_or hu]⟩
  simp [Piece.text, hm]

/-- The text of an expression passes all checks when its length does. -/
theorem passes (hmin : 3 ≤ e.render.length) (hmax : e.render.length ≤ 500) :
    Passes e.render where
  long_enough := hmin
  closed := by
    rw [e.render_eq]
    exact leavesOpen_textOf e.pieces
  shapes := fun rule _ => breaks_eq_false e.soundText rule
  balanced := e.isBalanced
  identifier := e.hasIdentifier
  short_enough := hmax

end Expr

/-- An expression of 3 to 500 characters is accepted as it is written, and its metric names, each
once and in order of first appearance, are the names found in it. -/
theorem validate_render (e : Expr) (hmin : 3 ≤ e.render.length) (hmax : e.render.length ≤ 500) :
    ∃ q, validate (.ofList e.render) = .ok q ∧ q.text = .ofList e.render ∧
      q.metrics = (e.metrics.map MetricName.text).eraseDups.map .ofList := by
  have hnormal : normalize (String.ofList e.render).toList = e.render := by
    rw [String.toList_ofList]
    exact e.plain.normalize_eq_self
  refine ⟨.ofText e.render, validate_eq_ok_iff.mpr ?_, rfl, ?_⟩
  · rw [hnormal]
    exact ⟨e.passes hmin hmax, rfl⟩
  · rw [CheckedQuery.ofText, metricNames_render, distinct_eq_eraseDups]

/-- A metric that counts hits. -/
def hits : MetricName where
  text := "hits_total".toList
  identifier := by decide
  not_plain := by decide
  not_reserved := by decide

/-- A label that tells jobs apart. -/
def job : LabelName where
  text := "job".toList
  identifier := by decide
  ne_by := by decide
  ne_without := by decide

/-- A value with brackets, a quote and a grouping word in it. -/
def jobName : LabelValue where
  text := "a\"by(b)[".toList
  not_blank := List.all_iff_forall_prop.mp (by decide)
  not_backtick := by decide

/-- Five minutes. -/
def fiveMinutes : Duration where
  digits := ['5']
  unit := 'm'
  digits_ne_nil := by decide
  isDigit := List.all_iff_forall_prop.mp (by decide)
  isUnit := by decide

/-- The hits of jobs with brackets and a quote in their name, as a part of all. -/
def hitShare : Expr :=
  .binary
    (.groupedBefore .sum ⟨.labels, [job]⟩
      (.call ⟨"rate", by decide, by decide⟩
        ⟨hits, some [⟨job, jobName⟩]⟩ fiveMinutes))
    .slash (.select ⟨hits, none⟩)

theorem validate_hitShare :
    3 ≤ hitShare.render.length ∧ hitShare.render.length ≤ 500 ∧
      ∃ q, validate (.ofList hitShare.render) = .ok q ∧
        q.text =
          "sum by (job) (rate(hits_total\x7bjob=\"a\\\"by(b)[\"\x7d[5m])) / hits_total" ∧
        q.metrics = ["hits_total"] := by
  obtain ⟨q, haccepted, htext, hmetrics⟩ := validate_render hitShare (by decide) (by decide)
  exact ⟨by decide, by decide, q, haccepted, htext.trans (by decide), hmetrics.trans (by decide)⟩

end AskMetrics.Query
