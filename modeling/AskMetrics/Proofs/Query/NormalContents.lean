import AskMetrics.Proofs.Query.Contents
import AskMetrics.Proofs.Query.FixedPoint
import AskMetrics.Proofs.Text.Squeeze

/-!
# What normalizing does to literals

Normalizing does not look at literals, so two of its steps reach into them: code fences are left out
wherever they stand, and each run of white space becomes one space. What it leaves out at the edges
of a line lies outside all literals, as long as no label stands there and no quote.

A fence has three quotes in it, more than can be gone from a text whose literals say the same as
before. So the literals of a line say the same exactly when it has no code fence and all white space
in literals is single spaces.
-/
namespace AskMetrics.Query

open AskMetrics.Text

/-- One line whose literals are all closed, with no label before it and no quote at an edge. Blanks
at the edges do not count. -/
structure PlainLine (s : List Char) : Prop where
  line : '\n' ∉ s
  closed : leavesOpen s = false
  no_label : ∀ r, ¬ Labelled (trim s) r
  head : ∀ u ∈ (trim s).head?, isQuote u = false
  last : ∀ u ∈ (trim s).getLast?, isQuote u = false

section
variable {s t x body : List Char} {q : Char} {behindBlank : Bool}

/-! ## Squeezing literals -/

theorem not_isBlank_of_isQuote (hq : isQuote q = true) : isBlank q = false := by
  by_contra hblank
  simp [isQuote_of_isBlank (by simpa using hblank)] at hq

/-- What is between two quotes stays so. A space that is left may follow a backslash. -/
theorem Body.squeezeFrom (hq : isQuote q = true) (h : Body q body) :
    Body q (squeezeFrom behindBlank body) := by
  have hspace : ∀ {y}, Body q y → Body q (' ' :: y) :=
    .char (fun heq => absurd (heq ▸ hq) (by decide)) (by decide)
  induction h generalizing behindBlank with
  | nil => exact .nil
  | @char c _ hne hslash _ ih =>
    rw [Text.squeezeFrom]
    split_ifs
    · exact ih
    · exact hspace ih
    · exact .char hne hslash ih
  | escape c _ ih =>
    rw [Text.squeezeFrom, if_neg (by decide), Text.squeezeFrom]
    split_ifs with hc hbehind
    · simp at hbehind
    · exact .escape ' ' ih
    · exact .escape c ih

/-- Quotes separate the squeezing of blanks. -/
theorem piecewise_squeeze : Piecewise squeeze where
  nil := rfl
  splits hq := squeeze_append_cons (not_isBlank_of_isQuote hq) _ _
  unquoted hx := forall_mem_squeezeFrom (by decide) hx
  body hq h := h.squeezeFrom hq

/-! ## The edges of a line -/

theorem exists_unquoted_trim (s : List Char) :
    ∃ x y, Unquoted x ∧ Unquoted y ∧ s = x ++ (trim s ++ y) := by
  obtain ⟨x, y, hx, hy, hs⟩ := exists_trim s
  exact ⟨x, y, unquoted_of_isBlank hx, unquoted_of_isBlank hy, hs⟩

theorem exists_unquoted_dropStop (s : List Char) :
    ∃ x y, Unquoted x ∧ Unquoted y ∧ s = x ++ (dropStop s ++ y) := by
  unfold dropStop dropLast
  split
  · rename_i c hc
    split_ifs with hstop
    · refine ⟨[], [c], unquoted_nil, ?_, ?_⟩
      · rcases (by simpa [or_assoc] using hstop : c = '.' ∨ c = ';' ∨ c = ',') with
          rfl | rfl | rfl <;> simp [Unquoted, isQuote]
      · exact (List.dropLast_append_getLast? c hc).symm
    · exact ⟨[], [], unquoted_nil, unquoted_nil, by simp⟩
  · exact ⟨[], [], unquoted_nil, unquoted_nil, by simp⟩

/-- What is left when text without quotes is left out at the edges has the same literals. -/
theorem contents_of_unquoted_around (h : ∃ x y, Unquoted x ∧ Unquoted y ∧ s = x ++ (t ++ y))
    (hclosed : leavesOpen s = false) : leavesOpen t = false ∧ contents t = contents s := by
  obtain ⟨x, y, hx, hy, rfl⟩ := h
  have hinside : leavesOpen t = false := by
    rwa [leavesOpen_unquoted_around hx hy] at hclosed
  exact ⟨hinside, (contents_unquoted_around hx hy hinside).symm⟩

namespace PlainLine

/-- Without a code fence, all that happens to a plain line is that it loses a stop and that its
blanks are squeezed. -/
theorem normalize_eq (h : PlainLine s) (hfence : ¬ fenceMark <:+: s) :
    normalize s = squeeze (trim (dropStop (trim s))) := by
  have hfences : dropFences s = s := replaceAll_eq_self _ (not_infix_fenceMark_iff.mp hfence)
  have hlabel : dropLabel (trim s) = trim s := dropLabel_of_not_labelled h.no_label
  have hline : firstLine (trim s) = trim s := by
    rw [firstLine_eq_trim fun hmem => h.line ((infix_trim s).subset hmem), trim_trim]
  have hquotes : dropQuotes (trim s) = trim s := by
    rw [dropQuotes_eq_trim h.head h.last, trim_trim]
  simp only [normalize, hfences, hlabel, hline, hquotes]
  exact joinWith_words_eq_squeeze _

/-- The contents of the literals in a normal form. -/
theorem contents_normalize (h : PlainLine s) (hfence : ¬ fenceMark <:+: s) :
    contents (normalize s) = (contents s).map squeeze := by
  obtain ⟨htrim, hcontents⟩ := contents_of_unquoted_around (exists_unquoted_trim s) h.closed
  obtain ⟨hstop, hcontents'⟩ := contents_of_unquoted_around (exists_unquoted_dropStop _) htrim
  obtain ⟨hend, hcontents''⟩ := contents_of_unquoted_around (exists_unquoted_trim _) hstop
  rw [h.normalize_eq hfence, piecewise_squeeze.contents_eq hend, hcontents'', hcontents', hcontents]

end PlainLine

/-! ## Fences -/

/-- Leaving out fences leaves out quotes, unless there are none. -/
theorem eq_or_countP_isQuote_lt_of_rewrites {c : Cursor}
    (h : Rewrites [fence] (fun _ => []) c t) :
    t = c.ahead ∨ t.countP isQuote < c.ahead.countP isQuote := by
  induction h with
  | done => exact .inl rfl
  | @skip b a t u _ _ ih =>
    rcases ih with rfl | hless
    · exact .inl rfl
    · exact .inr (by simpa [List.countP_cons] using hless)
  | @hit c m t hmatch hless rest _ =>
    right
    have hread := (reads_of_matchAt hmatch).2
    have hmark : fenceMark <+: c.ahead := by
      by_contra hno
      obtain ⟨b, a⟩ := c
      simp [matchAt_fence_eq_none_iff.mpr hno] at hmatch
    obtain ⟨u, w, hw⟩ : ∃ u w, m.text = u :: w := by
      refine List.exists_cons_of_ne_nil fun hnil => ?_
      simp [hread.ahead, hnil] at hless
    have hquote : isQuote u = true := by
      rw [hread.ahead, hw] at hmark
      obtain ⟨rfl, -⟩ := List.cons_prefix_cons.mp hmark
      decide
    have hlater := rest.sublist.countP_le (p := isQuote)
    rw [hread.ahead, hw, List.cons_append, List.countP_cons_of_pos hquote, List.nil_append,
      List.countP_append]
    omega

theorem countP_isQuote_dropFences_lt (h : fenceMark <:+: s) :
    (dropFences s).countP isQuote < s.countP isQuote := by
  refine (eq_or_countP_isQuote_lt_of_rewrites (rewrites_dropFences s)).resolve_left fun heq => ?_
  have hnone := not_infix_dropFences s
  rw [heq] at hnone
  exact hnone h

/-- No step brings in a quote. -/
theorem countP_isQuote_normalize_le (s : List Char) :
    (normalize s).countP isQuote ≤ (dropFences s).countP isQuote := by
  rw [normalize_eq_collapse, collapseBlanks, joinWith_words_eq_squeeze, squeeze,
    countP_squeezeFrom fun u hu => isQuote_of_isBlank hu]
  exact ((infix_trim _).trans (infix_leavingOut s)).sublist.countP_le

/-- A fence has more quotes than can be missing when the literals say the same as before. -/
theorem not_infix_fenceMark_of_contents_eq (hclosed : leavesOpen s = false)
    (h : contents (normalize s) = contents s) : ¬ fenceMark <:+: s := by
  intro hfence
  have hall := countP_isQuote_contents hclosed
  have hleft := countP_isQuote_contents_le (normalize s)
  have hsteps := countP_isQuote_normalize_le s
  have hless := countP_isQuote_dropFences_lt hfence
  rw [h] at hleft
  omega

end

/-! ## Plain lines -/

/-- Normalizing keeps what the literals of a line say exactly when the line has no code fence and
white space in literals is single spaces. Without a fence it squeezes the white space in them and
changes nothing else. -/
theorem contents_normalize_eq_iff {s : List Char} (h : PlainLine s) :
    (contents (normalize s) = contents s ↔
      ¬ fenceMark <:+: s ∧ ∀ x ∈ contents s, SinglySpaced x) ∧
    (¬ fenceMark <:+: s → contents (normalize s) = (contents s).map squeeze) := by
  refine ⟨?_, h.contents_normalize⟩
  have hmap : (contents s).map squeeze = contents s ↔ ∀ x ∈ contents s, SinglySpaced x := by
    rw [← piecewise_squeeze.contents_eq h.closed, piecewise_squeeze.contents_eq_self_iff h.closed]
    simp only [squeeze_eq_self_iff]
  constructor
  · intro heq
    have hfence := not_infix_fenceMark_of_contents_eq h.closed heq
    rw [h.contents_normalize hfence, hmap] at heq
    exact ⟨hfence, heq⟩
  · rintro ⟨hfence, hspaced⟩
    rw [h.contents_normalize hfence, hmap.mpr hspaced]

/-- A line with a stop and a literal of two words. -/
theorem contents_normalize_twoWords :
    PlainLine " up\x7bjob=\"node a\"\x7d  > 0; ".toList ∧
      contents (normalize " up\x7bjob=\"node a\"\x7d  > 0; ".toList) = ["node a".toList] := by
  have hplain : PlainLine " up\x7bjob=\"node a\"\x7d  > 0; ".toList := by
    refine ⟨by decide +kernel, by decide +kernel, findFirst_label_eq_none_iff.mp ?_,
      (Option.any_eq_false ..).mp ?_, (Option.any_eq_false ..).mp ?_⟩ <;>
      decide +kernel
  have hcontents : contents " up\x7bjob=\"node a\"\x7d  > 0; ".toList = ["node a".toList] := by
    decide +kernel
  have hfence : ¬ fenceMark <:+: " up\x7bjob=\"node a\"\x7d  > 0; ".toList := by decide +kernel
  refine ⟨hplain, ?_⟩
  rw [(contents_normalize_eq_iff hplain).1.mpr ⟨hfence, ?_⟩, hcontents]
  simp only [hcontents, List.mem_singleton, forall_eq, ← squeeze_eq_self_iff]
  decide +kernel

/-- An undecorated line of closed literals that say something else once it is normalized. -/
def IsAltered (s : List Char) : Prop :=
  '\n' ∉ s ∧ leavesOpen s = false ∧ Undecorated s ∧ contents (normalize s) ≠ contents s

instance (s : List Char) : Decidable (IsAltered s) :=
  inferInstanceAs (Decidable (_ ∧ _ ∧ _ ∧ _))

/-- Literals say something else when they hold more than single spaces, or a fence, and when one at
the end of the line has its quote left out although blanks follow. -/
theorem contents_normalize_ne :
    IsAltered "up\x7bjob=\"a  b\"\x7d".toList ∧
      IsAltered "up\x7bjob=\"a\x60\x60\x60b\"\x7d".toList ∧
      IsAltered "up + \"a\" ".toList := by
  decide +kernel

end AskMetrics.Query
