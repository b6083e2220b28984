import AskMetrics.Proofs.Query.Scrubbed

/-!
# Scrubbing and collecting names

Metric names are found by three scans that blank parts of a query and a fourth that collects what
looks like a name. `Blanks` and `Collects` say what such a scan makes of a part of the text, so that
the outcome for a text can be put together.
-/
namespace AskMetrics.Query

open AskMetrics.Text

/-! ## Blanking -/

/-- The text of a segment after blanking. -/
def blanked : Segment → List Char
  | .plain u => [u]
  | .hit _ => [' ']

/-- Blanking makes `y` of the part `x`, which has `b` before it and `a` after it. -/
def Blanks (p : Pattern) (b x a y : List Char) : Prop :=
  ∃ segments, Cuts p b x a segments ∧ segments.flatMap blanked = y

namespace Blanks
variable {p : Pattern} {b x x' a y y' : List Char}

theorem nil : Blanks p b [] a [] := ⟨[], .nil, rfl⟩

theorem append (h : Blanks p b x (x' ++ a) y) (h' : Blanks p (x.reverse ++ b) x' a y') :
    Blanks p b (x ++ x') a (y ++ y') := by
  obtain ⟨segments, hcuts, rfl⟩ := h
  obtain ⟨segments', hcuts', rfl⟩ := h'
  exact ⟨_, hcuts.append hcuts', List.flatMap_append⟩

theorem keep (hno : Along (fun b a => p.ends ⟨b, a⟩ = []) b x a) : Blanks p b x a x := by
  refine ⟨_, .keep hno, ?_⟩
  rw [List.flatMap_map]
  simp [blanked]

/-- A part of the kind that is blanked. -/
theorem part {K : List Char → List Char → Prop} (hp : Depicts p K) (hK : Definite K) (hx : K b x) :
    Blanks p b x a [' '] :=
  ⟨_, .hit (hK.ne_nil hx) (hp.first_eq hK hx), rfl⟩

theorem blankOut_eq {s : List Char} (h : Blanks p [] s [] y) : blankOut p s = y := by
  obtain ⟨segments, hcuts, rfl⟩ := h
  rw [blankOut, replaceAll, hcuts.scans.scan_eq]
  rfl

/-- Parts joined by a separator that is kept. -/
theorem joinWith {α : Type} {f g : α → List Char} {separator : List Char} {as : List α}
    (hpart : ∀ t ∈ as, ∀ b a, Blanks p b (f t) a (g t))
    (hseparator : ∀ b a, Blanks p b separator a separator) :
    Blanks p b (joinWith separator (as.map f)) a (joinWith separator (as.map g)) := by
  induction as generalizing b with
  | nil => exact nil
  | cons t as ih =>
    cases as with
    | nil => exact hpart t (.head _) b a
    | cons t' as =>
      refine append (append (hpart t (.head _) _ _) (hseparator _ _)) ?_
      exact ih fun t' ht' => hpart t' (.tail _ ht')

end Blanks

/-! ## Identifiers -/

section
variable {b a x : List Char}

theorem ends_identifierPattern {u : Char} (hu : isIdentStart u = false) :
    identifierPattern.ends ⟨b, u :: a⟩ = [] := by
  simp [identifierPattern, Pattern.ends, hu]

/-- An identifier is matched to its end. -/
theorem first_identifierPattern {u : Char} (hu : isIdentStart u = true)
    (hx : ∀ v ∈ x, isIdentChar v = true) (ha : Ends a) :
    identifierPattern.first ⟨b, u :: x ++ a⟩ = some ⟨(u :: x).reverse ++ b, a⟩ := by
  have hrest := Pattern.first_many_one (b := u :: b) hx ha
  exact Pattern.first_andThen (Pattern.first_one hu) (by simpa using hrest)

end

/-! ## Collecting names -/

/-- The names collected from some segments. -/
def collected (segments : List Segment) : List (List Char) :=
  ((segments.filterMap Segment.match?).filter fun m =>
    !continuesNumber m && isMetricLike m.text).map Match.text

@[simp] theorem collected_append (segments segments' : List Segment) :
    collected (segments ++ segments') = collected segments ++ collected segments' := by
  simp [collected]

/-- The names collected from the part `x`, which has `b` before it and `a` after it, are `names`. -/
def Collects (b x a : List Char) (names : List (List Char)) : Prop :=
  ∃ segments, Cuts identifierPattern b x a segments ∧ collected segments = names

namespace Collects
variable {b x x' a : List Char} {names names' : List (List Char)}

theorem nil : Collects b [] a [] := ⟨[], .nil, rfl⟩

theorem append (h : Collects b x (x' ++ a) names) (h' : Collects (x.reverse ++ b) x' a names') :
    Collects b (x ++ x') a (names ++ names') := by
  obtain ⟨segments, hcuts, rfl⟩ := h
  obtain ⟨segments', hcuts', rfl⟩ := h'
  exact ⟨_, hcuts.append hcuts', collected_append _ _⟩

/-- Characters that begin no identifier. -/
theorem skip (h : x.all (!isIdentStart ·) = true) : Collects b x a [] := by
  have hnot : ∀ u ∈ x, isIdentStart u = false := by simpa using h
  refine ⟨_, .keep (along_of_next fun u hu _ _ => ends_identifierPattern (hnot u hu)), ?_⟩
  induction x <;> simp_all [collected, Segment.match?]

theorem skip_append (hx : x.all (!isIdentStart ·) = true)
    (h : Collects (x.reverse ++ b) x' a names) : Collects b (x ++ x') a names :=
  (skip hx).append h

/-- A word is collected unless it is the end of a number, vocabulary or plain. -/
theorem word {u : Char} (hu : isIdentStart u = true) (hx : ∀ v ∈ x, isIdentChar v = true)
    (ha : Ends a) : Collects b (u :: x) a
      (if !(b.head?.any fun c => c.isDigit || c == '.') && isMetricLike (u :: x) then [u :: x]
        else []) := by
  refine ⟨_, .hit (by simp) (first_identifierPattern hu hx ha), ?_⟩
  simp only [collected, Segment.match?, continuesNumber, Match.text, List.filterMap_cons,
    List.filterMap_nil, List.flatten_singleton, List.filter_singleton, Bool.cond_eq_ite]
  split_ifs <;> simp [Match.text]

/-- A word that looks like a metric and is not the end of a number. -/
theorem metric {u : Char} (hu : isIdentStart u = true) (hx : ∀ v ∈ x, isIdentChar v = true)
    (ha : Ends a) (hb : ∀ c ∈ b.head?, (c.isDigit || c == '.') = false)
    (hlike : isMetricLike (u :: x) = true) : Collects b (u :: x) a [u :: x] := by
  have hcontinues : b.head?.any (fun c => c.isDigit || c == '.') = false := by
    cases hhead : b.head? with
    | none => rfl
    | some c => exact hb c hhead
  simpa only [hcontinues, hlike, Bool.not_false, Bool.and_self, if_true] using
    word (b := b) hu hx ha

/-- A word that is vocabulary or plain. -/
theorem noise {u : Char} (hu : isIdentStart u = true) (hx : ∀ v ∈ x, isIdentChar v = true)
    (ha : Ends a) (hlike : isMetricLike (u :: x) = false) : Collects b (u :: x) a [] := by
  simpa [hlike] using word (b := b) hu hx ha

/-- A word that is the end of a number. -/
theorem unit {u c : Char} (hu : isIdentStart u = true) (hx : ∀ v ∈ x, isIdentChar v = true)
    (ha : Ends a) (hc : c.isDigit = true) : Collects (c :: b) (u :: x) a [] := by
  simpa [hc] using word (b := c :: b) hu hx ha

theorem metricNames_eq {s : List Char} (h : Collects [] (scrub s) [] names) :
    metricNames s = distinct names := by
  obtain ⟨segments, hcuts, rfl⟩ := h
  rw [metricNames, findAll, hcuts.scans.scan_eq]
  rfl

end Collects

end AskMetrics.Query
