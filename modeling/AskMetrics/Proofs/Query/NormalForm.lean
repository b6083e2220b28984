import AskMetrics.Proofs.Query.Normal
import AskMetrics.Proofs.Query.Window
import AskMetrics.Proofs.Text.Case
import AskMetrics.Proofs.Text.Rewrite
import Mathlib.Data.List.Flatten

/-!
# Which texts are normal forms

Each step of normalizing but the last leaves out parts of its text, and the last one, which leaves
single blanks between words, makes no text longer. So a text that normalizing gives back as it is
has passed through every step as it is, and there is nothing in it that a step would leave out.
-/
namespace AskMetrics.Query

open AskMetrics.Text

/-! ## Labels -/

/-- The words that a label can have. -/
def labelWords : List String := ["promql", "query", "output"]

/-- A word of a label, in any letter case. -/
def IsLabelWord (w : List Char) : Prop := ∃ name ∈ labelWords, lowerAscii w = name.toList

/-- A text that begins with a label, and what lies behind the colon. -/
def Labelled (s r : List Char) : Prop :=
  ∃ w y, IsLabelWord w ∧ (∀ u ∈ y, isBlank u = true) ∧ s = w ++ (y ++ ':' :: r)

section
variable {s r w b a : List Char}

theorem forall₂_sameLetter_labelWord {name : String} (hname : name ∈ labelWords) :
    List.Forall₂ (fun letter u => sameLetter letter u = true) name.toList w ↔
      lowerAscii w = name.toList := by
  have hletters : ∀ name ∈ labelWords, 's' ∉ name.toList ∧ 'k' ∉ name.toList := by decide
  exact forall₂_sameLetter_iff (hletters name hname).1 (hletters name hname).2

/-- Where a label matches, the text begins with one. -/
theorem labelled_of_mem_ends {d : Cursor} (h : d ∈ label.ends ⟨b, s⟩) :
    b = [] ∧ ∃ r, Labelled s r := by
  simp only [label, Pattern.oneOf, Pattern.sequence_cons_cons, Pattern.mem_ends_andThen,
    Pattern.mem_ends_atStart, Pattern.mem_ends_orElse, Pattern.mem_ends_blanks,
    Pattern.mem_ends_char] at h
  obtain ⟨d₀, ⟨hstart, rfl⟩, d₁, hword, d₂, ⟨y, hy, hblanks⟩, d₃, hcolon, -⟩ := h
  have hname : ∃ name ∈ labelWords, d₁ ∈ (Pattern.anyCase name).ends ⟨b, s⟩ := by
    rcases hword with hword | hword | hword
    · exact ⟨_, by decide, hword⟩
    · exact ⟨_, by decide, hword⟩
    · exact ⟨_, by decide, hword⟩
  obtain ⟨name, hname, hends⟩ := hname
  obtain ⟨w, hw, hread⟩ := Pattern.mem_ends_anyCase.mp hends
  rw [forall₂_sameLetter_labelWord hname] at hw
  refine ⟨hstart, d₃.ahead, w, y, ⟨name, hname, hw⟩, hy, ?_⟩
  simpa using (hread.trans (hblanks.trans hcolon)).ahead

/-- The word of a label has letters only. -/
theorem IsLabelWord.isAlpha (hw : IsLabelWord w) : ∀ u ∈ w, u.isAlpha = true := by
  obtain ⟨name, hname, hlower⟩ := hw
  have hletters : ∀ name ∈ labelWords,
      (name.toList.all fun u => 97 ≤ u.toNat ∧ u.toNat ≤ 122) = true := by decide
  exact isAlpha_of_lowerAscii hlower (hletters name hname)

theorem IsLabelWord.ne_nil (hw : IsLabelWord w) : w ≠ [] := by
  obtain ⟨name, hname, hlower⟩ := hw
  have hlong : ∀ name ∈ labelWords, name.toList ≠ [] := by decide
  exact fun hnil => hlong name hname (by rw [← hlower, hnil]; rfl)

/-- The word of a label is matched as a whole. -/
theorem first_labelWord (hw : IsLabelWord w) :
    (Pattern.oneOf [.anyCase "promql", .anyCase "query", .anyCase "output"]).first ⟨b, w ++ a⟩ =
      some ⟨w.reverse ++ b, a⟩ := by
  obtain ⟨name, hname, hlower⟩ := hw
  have hfirst : (Pattern.anyCase name).first ⟨b, w ++ a⟩ = some ⟨w.reverse ++ b, a⟩ :=
    Pattern.first_anyCase ((forall₂_sameLetter_labelWord hname).mpr hlower)
  -- another word begins with another letter
  have hother : ∀ other ∈ labelWords, other.toList.head? ≠ name.toList.head? →
      (Pattern.anyCase other).ends ⟨b, w ++ a⟩ = [] := by
    intro other hmem hne
    rw [List.eq_nil_iff_forall_not_mem]
    intro d hd
    obtain ⟨x, hx, hread⟩ := Pattern.mem_ends_anyCase.mp hd
    rw [forall₂_sameLetter_labelWord hmem] at hx
    obtain ⟨u, x, rfl⟩ := List.exists_cons_of_ne_nil (IsLabelWord.ne_nil ⟨other, hmem, hx⟩)
    obtain ⟨v, w, rfl⟩ := List.exists_cons_of_ne_nil (IsLabelWord.ne_nil ⟨name, hname, hlower⟩)
    obtain ⟨rfl, -⟩ := List.cons.inj hread.ahead
    exact hne (by rw [← hx, ← hlower]; rfl)
  simp only [labelWords, List.mem_cons, List.not_mem_nil, or_false] at hname
  rcases hname with rfl | rfl | rfl
  · exact Pattern.first_orElse_left hfirst
  · have hpromql := hother "promql" (by decide) (by decide)
    exact (Pattern.first_orElse_right hpromql).trans (Pattern.first_orElse_left hfirst)
  · have hpromql := hother "promql" (by decide) (by decide)
    have hquery := hother "query" (by decide) (by decide)
    exact (Pattern.first_orElse_right hpromql).trans
      ((Pattern.first_orElse_right hquery).trans hfirst)

/-- A label is matched with the blanks behind it. -/
theorem exists_findFirst_label (h : Labelled s r) :
    ∃ m, findFirst [label] s = some m ∧ trim m.stop.ahead = trim r := by
  obtain ⟨w, y, hw, hy, rfl⟩ := h
  obtain ⟨z, a, rfl, hz, ha⟩ := exists_run isBlank r
  have hblanks : Pattern.blanks.first ⟨':' :: (y.reverse ++ w.reverse), z ++ a⟩ =
      some ⟨z.reverse ++ ':' :: (y.reverse ++ w.reverse), a⟩ := Pattern.first_many_one hz ha
  have hfirst : label.first ⟨[], w ++ (y ++ ':' :: (z ++ a))⟩ =
      some ⟨z.reverse ++ ':' :: (y.reverse ++ w.reverse), a⟩ := by
    refine Pattern.first_andThen (d := ⟨[], w ++ (y ++ ':' :: (z ++ a))⟩) rfl ?_
    refine Pattern.first_andThen (first_labelWord hw) ?_
    refine Pattern.first_andThen (Pattern.first_many_one hy (by simp; decide)) ?_
    exact Pattern.first_andThen Pattern.first_char (by simpa using hblanks)
  have hmatch := matchAt_singleton (p := label) (c := ⟨[], w ++ (y ++ ':' :: (z ++ a))⟩)
  rw [hfirst, Option.map_some] at hmatch
  exact ⟨_, findFrom_of_matchAt hmatch, (trim_blanks_append hz a).symm⟩

theorem findFirst_label_eq_none_iff : findFirst [label] s = none ↔ ∀ r, ¬ Labelled s r := by
  constructor
  · intro h r hr
    obtain ⟨m, hm, -⟩ := exists_findFirst_label hr
    simp [h] at hm
  · intro h
    rw [Option.eq_none_iff_forall_ne_some]
    intro m hm
    obtain ⟨x, a, rfl, hmatch⟩ := exists_matchAt_of_findFrom hm
    rw [matchAt_singleton, Option.map_eq_some_iff] at hmatch
    obtain ⟨d, hfirst, -⟩ := hmatch
    obtain ⟨hstart, r, hr⟩ := labelled_of_mem_ends (Pattern.mem_ends_of_first hfirst)
    obtain rfl : x = [] := by simpa using hstart
    exact h r hr

theorem dropLabel_of_labelled (h : Labelled s r) : dropLabel s = trim r := by
  obtain ⟨m, hm, htrim⟩ := exists_findFirst_label h
  rw [dropLabel, hm]
  exact htrim

theorem dropLabel_of_not_labelled (h : ∀ r, ¬ Labelled s r) : dropLabel s = s := by
  rw [dropLabel, findFirst_label_eq_none_iff.mpr h]

end

/-! ## Steps that leave out parts -/

section
variable {s : List Char}

/-- A fence has three backticks. -/
theorem length_stop_of_matchAt_fence {c : Cursor} {m : Match} (h : matchAt [fence] c = some m) :
    m.stop.ahead.length < c.ahead.length := by
  rw [matchAt_singleton, Option.map_eq_some_iff] at h
  obtain ⟨d, hfirst, rfl⟩ := h
  obtain ⟨e, he, hlanguage⟩ := Pattern.mem_ends_andThen.mp (Pattern.mem_ends_of_first hfirst)
  obtain ⟨x, hx⟩ := Pattern.exists_reads hlanguage
  have hread := ((Pattern.mem_ends_literal.mp he).trans hx).length
  simp only [String.reduceToList, List.length_append, List.length_cons] at hread
  change d.ahead.length < c.ahead.length
  omega

theorem rewrites_dropFences (s : List Char) :
    Rewrites [fence] (fun _ => []) (.start s) (dropFences s) :=
  rewrites_replaceAll (fun _ _ => length_stop_of_matchAt_fence) s

theorem sublist_dropFences (s : List Char) : (dropFences s).Sublist s :=
  (rewrites_dropFences s).sublist

/-- What lies behind a label is a shorter part of the text. -/
theorem Labelled.infix_tail {r : List Char} (h : Labelled s r) : trim r <:+: s.tail := by
  obtain ⟨w, y, hw, -, rfl⟩ := h
  rw [List.tail_append_of_ne_nil hw.ne_nil]
  have hbehind : r <:+ w.tail ++ (y ++ ':' :: r) :=
    (List.suffix_cons ':' r).trans ((List.suffix_append y _).trans (List.suffix_append _ _))
  exact (infix_trim r).trans hbehind.isInfix

theorem infix_dropLabel (s : List Char) : dropLabel s <:+: s := by
  by_cases h : ∃ r, Labelled s r
  · obtain ⟨r, hr⟩ := h
    rw [dropLabel_of_labelled hr]
    exact hr.infix_tail.trans (List.tail_suffix s).isInfix
  · rewrite [dropLabel_of_not_labelled (not_exists.mp h)]
    exact List.infix_rfl

theorem infix_firstLine (s : List Char) : firstLine s <:+: s := by
  unfold firstLine
  cases hfind : ((pieces (· == '\n') s).map trim).find? (· ≠ []) with
  | none => exact List.nil_infix
  | some line =>
    obtain ⟨part, hpart, rfl⟩ := List.mem_map.mp (List.mem_of_find?_eq_some hfind)
    exact (infix_trim part).trans (infix_of_mem_pieces hpart)

theorem infix_dropLast (drops : Char → Bool) (s : List Char) : dropLast drops s <:+: s := by
  unfold dropLast
  split
  · split_ifs
    · exact (List.dropLast_prefix s).isInfix
    · exact List.infix_rfl
  · exact List.infix_rfl

theorem infix_dropFirst (drops : Char → Bool) (s : List Char) : dropFirst drops s <:+: s := by
  cases s with
  | nil => exact List.infix_rfl
  | cons u s =>
    rw [dropFirst]
    split_ifs
    · exact (List.suffix_cons u s).isInfix
    · exact List.infix_rfl

theorem infix_dropQuotes (s : List Char) : dropQuotes s <:+: s := by
  unfold dropQuotes
  split_ifs
  · have hinside : (s.drop 1).dropLast <:+: s :=
      (List.dropLast_prefix _).isInfix.trans (List.drop_suffix 1 s).isInfix
    exact (infix_trim _).trans hinside
  · exact (infix_trim _).trans ((infix_dropLast _ _).trans (infix_dropFirst _ s))

theorem infix_dropStop (s : List Char) : dropStop s <:+: s := infix_dropLast _ s

/-! ## The last step -/

theorem length_joinWith_le (ws : List (List Char)) :
    (joinWith [' '] ws).length ≤ (ws.flatMap (' ' :: ·)).length - 1 := by
  induction ws with
  | nil => simp [joinWith]
  | cons w ws ih =>
    cases ws with
    | nil => simp [joinWith]
    | cons w' ws =>
      simp only [joinWith, List.length_append, List.flatMap_cons, List.length_cons,
        List.length_nil] at ih ⊢
      omega

/-- Words with single blanks between them are no longer than the text. -/
theorem length_collapseBlanks_le (s : List Char) : (collapseBlanks s).length ≤ s.length := by
  have hjoined := length_joinWith_le (words s)
  have hwords : ((words s).flatMap (' ' :: ·)).length ≤
      ((pieces isBlank s).flatMap (' ' :: ·)).length :=
    (List.filter_sublist.flatMap _).length_le
  rw [length_flatMap_pieces] at hwords
  rw [collapseBlanks]
  omega

/-! ## Normal forms -/

/-- Steps that leave out parts of a text and in the end have left out nothing have each left out
nothing. -/
theorem eq_self_of_length_le (steps : List (List Char → List Char))
    (hsteps : ∀ g ∈ steps, ∀ t, (g t).Sublist t)
    (hlength : s.length ≤ (steps.foldl (fun t g => g t) s).length) : ∀ g ∈ steps, g s = s := by
  induction steps with
  | nil => simp
  | cons g steps ih =>
    obtain ⟨hg, hrest⟩ := List.forall_mem_cons.mp hsteps
    have hfold : ∀ (gs : List (List Char → List Char)) (t : List Char),
        (∀ g ∈ gs, ∀ t, (g t).Sublist t) → (gs.foldl (fun t g => g t) t).Sublist t := by
      intro gs
      induction gs with
      | nil => exact fun t _ => .refl t
      | cons g gs ihgs =>
        intro t hgs
        obtain ⟨hg, hgs⟩ := List.forall_mem_cons.mp hgs
        exact (ihgs (g t) hgs).trans (hg t)
    have heq : g s = s :=
      (hg s).eq_of_length_le (hlength.trans (hfold steps (g s) hrest).length_le)
    rw [List.foldl_cons, heq] at hlength
    exact List.forall_mem_cons.mpr ⟨heq, ih hrest hlength⟩

/-- The steps of normalizing before the last one. -/
def leavingOut : List (List Char → List Char) :=
  [dropFences, trim, dropLabel, firstLine, dropLabel, dropQuotes, dropLabel, dropStop]

theorem normalize_eq_collapse (s : List Char) :
    normalize s = collapseBlanks (leavingOut.foldl (fun t g => g t) s) := by
  simp only [normalize, leavingOut, List.foldl_cons, List.foldl_nil]

/-- Behind the first step, what is left is in one piece. -/
theorem infix_of_mem_tail_leavingOut : ∀ g ∈ leavingOut.tail, ∀ t, g t <:+: t := by
  simp only [leavingOut, List.tail_cons, List.forall_mem_cons, List.not_mem_nil, IsEmpty.forall_iff,
    implies_true, and_true]
  exact ⟨infix_trim, infix_dropLabel, infix_firstLine, infix_dropLabel, infix_dropQuotes,
    infix_dropLabel, infix_dropStop⟩

theorem sublist_of_mem_leavingOut : ∀ g ∈ leavingOut, ∀ t, (g t).Sublist t :=
  List.forall_mem_cons.mpr
    ⟨sublist_dropFences, fun g hg t => (infix_of_mem_tail_leavingOut g hg t).sublist⟩

theorem not_of_dropFirst_eq {drops : Char → Bool} (h : dropFirst drops s = s) :
    ∀ u ∈ s.head?, drops u = false := by
  cases s with
  | nil => simp
  | cons u s =>
    rw [dropFirst] at h
    split_ifs at h with hu
    · exact absurd (congrArg List.length h) (by simp)
    · simpa using hu

theorem not_of_dropLast_eq {drops : Char → Bool} (h : dropLast drops s = s) :
    ∀ u ∈ s.getLast?, drops u = false := by
  intro u hu
  by_contra hdrops
  rw [Bool.not_eq_false] at hdrops
  have hne : s ≠ [] := by
    rintro rfl
    simp at hu
  have hpos := List.length_pos_of_ne_nil hne
  have hlength := congrArg List.length h
  rw [dropLast, Option.mem_def.mp hu] at hlength
  simp only [hdrops, if_true, List.length_dropLast] at hlength
  omega

theorem not_quote_of_dropQuotes_eq (h : dropQuotes s = s) :
    (∀ u ∈ s.head?, isQuote u = false) ∧ ∀ u ∈ s.getLast?, isQuote u = false := by
  unfold dropQuotes at h
  split_ifs at h with hwrapped
  · -- two quotes are gone
    have hlength := (infix_trim (s.drop 1).dropLast).length_le
    have hne : s ≠ [] := by
      rintro rfl
      simp [isWrapped] at hwrapped
    have hpos := List.length_pos_of_ne_nil hne
    rw [h, List.length_dropLast, List.length_drop] at hlength
    omega
  · have hsteps : ∀ g ∈ [dropFirst isQuote, dropLast isQuote, trim], g s = s :=
      eq_self_of_length_le _ (by
        simp [(infix_dropFirst _ _).sublist, (infix_dropLast _ _).sublist, (infix_trim _).sublist])
        (by simp [h])
    have hfirst : dropFirst isQuote s = s := hsteps _ (by simp)
    have hlast : dropLast isQuote s = s := hsteps _ (by simp)
    exact ⟨not_of_dropFirst_eq hfirst, not_of_dropLast_eq hlast⟩

/-- What normalizing gives back as it is has nothing around it that is left out. -/
theorem plain_of_normalize_eq_self (hne : s ≠ []) (h : normalize s = s) : Plain s := by
  have hlength : s.length ≤ (leavingOut.foldl (fun t g => g t) s).length := by
    have hcollapse := length_collapseBlanks_le (leavingOut.foldl (fun t g => g t) s)
    rwa [← normalize_eq_collapse, h] at hcollapse
  have hsteps := eq_self_of_length_le leavingOut sublist_of_mem_leavingOut hlength
  have hfences : dropFences s = s := hsteps _ (by simp [leavingOut])
  have hlabel : dropLabel s = s := hsteps _ (by simp [leavingOut])
  have hquotes : dropQuotes s = s := hsteps _ (by simp [leavingOut])
  have hstop : dropStop s = s := hsteps _ (by simp [leavingOut])
  obtain ⟨hfirst, hlast⟩ := not_quote_of_dropQuotes_eq hquotes
  exact {
    spaced := by
      rw [← h]
      exact spaced_normalize (by rwa [h])
    no_fence := by
      have hrewrites := rewrites_dropFences s
      rw [hfences] at hrewrites
      have hnone := hrewrites.along_of_length_le (Nat.le_refl _)
      simp only [matchAt_singleton, Option.map_eq_none_iff, Pattern.first_eq_none_iff] at hnone
      exact hnone
    no_label := by
      rw [findFirst_label_eq_none_iff]
      intro r hr
      have hshort := hr.infix_tail.length_le
      have hpos := List.length_pos_of_ne_nil hne
      rw [← dropLabel_of_labelled hr, hlabel, List.length_tail] at hshort
      omega
    first := hfirst
    last := fun u hu => ⟨hlast u hu, not_of_dropLast_eq hstop u hu⟩ }

theorem normalize_eq_self_iff (hne : s ≠ []) : normalize s = s ↔ Plain s :=
  ⟨plain_of_normalize_eq_self hne, Plain.normalize_eq_self⟩

end

end AskMetrics.Query
