import AskMetrics.Text.Blank
import Mathlib.Data.List.Basic
import Mathlib.Data.List.TakeWhile

/-!
# Tidy spacing

A text is tidy when it consists of words with one space between each two of them. Cutting such a
text into words and joining them again gives the text back, and trimming leaves it as it is.
-/
namespace AskMetrics.Text

/-! ## Cutting -/

theorem pieces_ne_nil {separates : Char → Bool} (s : List Char) : pieces separates s ≠ [] := by
  induction s with
  | nil => simp [pieces]
  | cons u s ih =>
    unfold pieces
    split_ifs
    · simp
    · cases h : pieces separates s <;> simp

theorem pieces_eq_singleton {separates : Char → Bool} {s : List Char}
    (h : ∀ u ∈ s, separates u = false) : pieces separates s = [s] := by
  induction s with
  | nil => rfl
  | cons u s ih =>
    have hs := ih fun v hv => h v (.tail _ hv)
    simp [pieces, h u (.head _), hs]

/-- A separator parts the text before it from the text after it. -/
theorem pieces_append_cons {separates : Char → Bool} {u : Char} (hu : separates u = true)
    (x y : List Char) :
    pieces separates (x ++ u :: y) = pieces separates x ++ pieces separates y := by
  induction x with
  | nil => simp [pieces, hu]
  | cons v x ih =>
    by_cases hv : separates v = true
    · simp [pieces, hv, ih]
    · have hne : pieces separates x ≠ [] := pieces_ne_nil x
      obtain ⟨part, parts, hparts⟩ := List.exists_cons_of_ne_nil hne
      simp [pieces, hv, ih, hparts]

/-- No separator is left inside a part. -/
theorem not_separates_of_mem_pieces {separates : Char → Bool} {s part : List Char}
    (h : part ∈ pieces separates s) : ∀ u ∈ part, separates u = false := by
  induction s generalizing part with
  | nil => simp_all [pieces]
  | cons v s ih =>
    by_cases hv : separates v = true
    · rcases List.mem_cons.mp (by simpa [pieces, hv] using h) with rfl | h
      · simp
      · exact ih h
    · have hne : pieces separates s ≠ [] := pieces_ne_nil s
      obtain ⟨first, rest, hparts⟩ := List.exists_cons_of_ne_nil hne
      have hfirst : ∀ u ∈ first, separates u = false := ih (by simp [hparts])
      rcases List.mem_cons.mp (by simpa [pieces, hv, hparts] using h) with rfl | h
      · exact List.forall_mem_cons.mpr ⟨by simpa using hv, hfirst⟩
      · exact ih (by simp [hparts, h])

/-- The first piece is the front of a text, up to a separator. The others stand behind one. -/
theorem exists_of_pieces_eq {separates : Char → Bool} {s first : List Char}
    {rest : List (List Char)} (h : pieces separates s = first :: rest) :
    (∃ a, s = first ++ a ∧ ∀ u ∈ a.head?, separates u = true) ∧
      ∀ part ∈ rest, ∃ x u a, s = x ++ u :: (part ++ a) ∧ separates u = true ∧
        ∀ u ∈ a.head?, separates u = true := by
  induction s generalizing first rest with
  | nil =>
    obtain ⟨rfl, rfl⟩ := List.cons.inj (h : [[]] = first :: rest)
    exact ⟨⟨[], rfl, by simp⟩, by simp⟩
  | cons v s ih =>
    obtain ⟨first', rest', hpieces⟩ := List.exists_cons_of_ne_nil (pieces_ne_nil s)
    obtain ⟨⟨a', rfl, ha'⟩, hothers⟩ := ih hpieces
    unfold pieces at h
    split_ifs at h with hv
    · obtain ⟨rfl, rfl⟩ := List.cons.inj h
      refine ⟨⟨_, rfl, by simpa using hv⟩, fun part hpart => ?_⟩
      rw [hpieces] at hpart
      rcases List.mem_cons.mp hpart with rfl | hpart
      · exact ⟨[], v, a', rfl, hv, ha'⟩
      · obtain ⟨x, u, a, hs, hu, ha⟩ := hothers part hpart
        exact ⟨v :: x, u, a, by rw [hs, List.cons_append], hu, ha⟩
    · rw [hpieces] at h
      obtain ⟨rfl, rfl⟩ := List.cons.inj h
      refine ⟨⟨a', rfl, ha'⟩, fun part hpart => ?_⟩
      obtain ⟨x, u, a, hs, hu, ha⟩ := hothers part hpart
      exact ⟨v :: x, u, a, by rw [hs, List.cons_append], hu, ha⟩

/-- A piece stands between separators and the ends of the text. -/
theorem exists_of_mem_pieces {separates : Char → Bool} {s part : List Char}
    (h : part ∈ pieces separates s) : ∃ b a : List Char, s = b.reverse ++ (part ++ a) ∧
      (∀ u ∈ b.head?, separates u = true) ∧ ∀ u ∈ a.head?, separates u = true := by
  obtain ⟨first, rest, hpieces⟩ := List.exists_cons_of_ne_nil (pieces_ne_nil s)
  obtain ⟨⟨a, hfirst, ha⟩, hothers⟩ := exists_of_pieces_eq hpieces
  rw [hpieces] at h
  rcases List.mem_cons.mp h with rfl | h
  · exact ⟨[], a, hfirst, by simp, ha⟩
  · obtain ⟨x, u, a, hs, hu, ha⟩ := hothers part h
    exact ⟨u :: x.reverse, a, by simpa using hs, by simpa using hu, ha⟩

/-- A piece is a part of the text. -/
theorem infix_of_mem_pieces {separates : Char → Bool} {s part : List Char}
    (h : part ∈ pieces separates s) : part <:+: s := by
  obtain ⟨b, a, rfl, -, -⟩ := exists_of_mem_pieces h
  exact ⟨b.reverse, a, by rw [List.append_assoc]⟩

/-- Each separator stands between two pieces. -/
theorem length_flatMap_pieces {separates : Char → Bool} (u : Char) (s : List Char) :
    ((pieces separates s).flatMap (u :: ·)).length = s.length + 1 := by
  induction s with
  | nil => rfl
  | cons v s ih =>
    unfold pieces
    split_ifs
    · simp only [List.flatMap_cons, List.length_append, List.length_cons, List.length_nil, ih]
      omega
    · cases hpieces : pieces separates s with
      | nil => exact absurd hpieces (pieces_ne_nil s)
      | cons first rest =>
        simp only [hpieces, List.flatMap_cons, List.length_append, List.length_cons] at ih ⊢
        omega

/-- What is in a joined text is in a part or in the separator. -/
theorem mem_joinWith {separator : List Char} {parts : List (List Char)} {u : Char}
    (h : u ∈ joinWith separator parts) : u ∈ separator ∨ ∃ part ∈ parts, u ∈ part := by
  induction parts with
  | nil => simp [joinWith] at h
  | cons part parts ih =>
    cases parts with
    | nil => exact .inr ⟨part, .head _, h⟩
    | cons next parts =>
      simp only [joinWith, List.mem_append] at h
      rcases h with (h | h) | h
      · exact .inr ⟨part, .head _, h⟩
      · exact .inl h
      · exact (ih h).imp_right fun ⟨p, hp, hu⟩ => ⟨p, .tail _ hp, hu⟩

theorem words_append_cons {u : Char} (hu : isBlank u = true) (x y : List Char) :
    words (x ++ u :: y) = words x ++ words y := by
  simp [words, pieces_append_cons hu]

theorem words_eq_singleton {w : List Char} (hne : w ≠ []) (hw : ∀ u ∈ w, isBlank u = false) :
    words w = [w] := by
  simp [words, pieces_eq_singleton hw, hne]

/-! ## Trimming -/

theorem trimStart_eq {s : List Char} (h : ∀ u ∈ s.head?, isBlank u = false) :
    trimStart s = s := by
  cases s with
  | nil => rfl
  | cons u s => simp [trimStart, h u rfl]

/-- Trimming leaves a text without blanks at its edges as it is. -/
theorem trim_eq {s : List Char} (hhead : ∀ u ∈ s.head?, isBlank u = false)
    (hlast : ∀ u ∈ s.getLast?, isBlank u = false) : trim s = s := by
  have hreverse : trimStart s.reverse = s.reverse :=
    trimStart_eq (by simpa using hlast)
  rw [trim, trimStart_eq hhead, trimEnd, hreverse, List.reverse_reverse]

/-- Blanks in front of a text are left out. -/
theorem trim_blanks_append {x : List Char} (hx : ∀ u ∈ x, isBlank u = true) (s : List Char) :
    trim (x ++ s) = trim s := by
  rw [trim, trimStart, List.dropWhile_append_of_pos hx]
  rfl

theorem trimEnd_blanks {x : List Char} (hx : ∀ u ∈ x, isBlank u = true) : trimEnd x = [] := by
  rw [trimEnd, trimStart, List.dropWhile_eq_nil_iff.mpr (by simpa using hx), List.reverse_nil]

/-- The end of a text is trimmed behind its last part that is not blank. -/
theorem trimEnd_append (x s : List Char) :
    trimEnd (x ++ s) = if trimEnd s = [] then trimEnd x else x ++ trimEnd s := by
  have hempty : trimEnd s = [] ↔ (s.reverse.dropWhile isBlank).isEmpty = true := by
    simp [trimEnd, trimStart]
  rw [trimEnd, List.reverse_append, trimStart, List.dropWhile_append]
  by_cases hblank : trimEnd s = []
  · rw [if_pos hblank, if_pos (hempty.mp hblank)]
    rfl
  · rw [if_neg hblank, if_neg (mt hempty.mpr hblank)]
    simp [trimEnd, trimStart]

/-- A text without blanks at its edges stays, and what comes behind it is trimmed at its end. -/
theorem trim_append {x : List Char} (hne : x ≠ []) (hhead : ∀ u ∈ x.head?, isBlank u = false)
    (hlast : ∀ u ∈ x.getLast?, isBlank u = false) (s : List Char) :
    trim (x ++ s) = x ++ trimEnd s := by
  have hstart : ∀ t, trimStart (x ++ t) = x ++ t := by
    intro t
    refine trimStart_eq fun u hu => hhead u ?_
    rwa [List.head?_append_of_ne_nil _ hne] at hu
  have hend : trimEnd x = x := by
    have hself := trim_eq hhead hlast
    rwa [trim, ← List.append_nil x, hstart, List.append_nil] at hself
  rw [trim, hstart, trimEnd_append, hend]
  split_ifs with hblank
  · rw [hblank, List.append_nil]
  · rfl

/-- What is left out at the end of a text is blank. -/
theorem exists_blanks_trimEnd (s : List Char) :
    ∃ x, (∀ u ∈ x, isBlank u = true) ∧ s = trimEnd s ++ x := by
  refine ⟨(s.reverse.takeWhile isBlank).reverse, fun u hu => ?_, ?_⟩
  · exact List.mem_takeWhile_imp (List.mem_reverse.mp hu)
  · rw [trimEnd, trimStart, ← List.reverse_append, List.takeWhile_append_dropWhile,
      List.reverse_reverse]

theorem infix_trim (s : List Char) : trim s <:+: s := by
  obtain ⟨x, -, hx⟩ := exists_blanks_trimEnd (trimStart s)
  have hend : trimEnd (trimStart s) <+: trimStart s := ⟨x, hx.symm⟩
  exact hend.isInfix.trans (List.dropWhile_suffix _).isInfix

theorem not_blank_head?_trimStart (s : List Char) :
    ∀ u ∈ (trimStart s).head?, isBlank u = false := by
  intro u hu
  have h := List.head?_dropWhile_not isBlank s
  rw [trimStart, Option.mem_def] at hu
  rw [hu] at h
  simpa using h

theorem not_blank_getLast?_trimEnd (s : List Char) :
    ∀ u ∈ (trimEnd s).getLast?, isBlank u = false := by
  rw [trimEnd, List.getLast?_reverse]
  exact not_blank_head?_trimStart s.reverse

/-- Trimming at the end keeps the first character of what is left. -/
theorem not_blank_head?_trim (s : List Char) : ∀ u ∈ (trim s).head?, isBlank u = false := by
  obtain ⟨x, -, hx⟩ := exists_blanks_trimEnd (trimStart s)
  intro u hu
  refine not_blank_head?_trimStart s u ?_
  rw [hx, List.head?_append, ← trim, Option.mem_def.mp hu]
  rfl

/-- A trimmed text stays as it is. -/
theorem trim_trim (s : List Char) : trim (trim s) = trim s :=
  trim_eq (not_blank_head?_trim s) (not_blank_getLast?_trimEnd (trimStart s))

theorem trimString_trimString (s : String) : trimString (trimString s) = trimString s := by
  simp [trimString, trim_trim]

/-- Nothing is left of a text exactly when it is blank. -/
theorem trim_eq_nil_iff {s : List Char} : trim s = [] ↔ ∀ u ∈ s, isBlank u = true := by
  constructor
  · intro h
    obtain ⟨x, hx, hs⟩ := exists_blanks_trimEnd (trimStart s)
    rw [← trim, h, List.nil_append] at hs
    have hstart : trimStart s = [] := by
      by_contra hne
      obtain ⟨v, y, hy⟩ := List.exists_cons_of_ne_nil hne
      have hfirst := not_blank_head?_trimStart s v (by simp [hy])
      simp [hx v (by simp [← hs, hy])] at hfirst
    simpa [trimStart] using hstart
  · intro h
    rw [trim, trimStart, List.dropWhile_eq_nil_iff.mpr h]
    rfl

theorem trimString_eq_empty_iff {s : String} : trimString s = "" ↔ isBlankString s = true := by
  simp [trimString, isBlankString, trim_eq_nil_iff]

/-! ## Tidy texts -/

/-- Words with single spaces between them. -/
inductive Spaced : List Char → Prop
  | word {w : List Char} (hne : w ≠ []) (hw : ∀ u ∈ w, isBlank u = false) : Spaced w
  | space {w s : List Char} (hne : w ≠ []) (hw : ∀ u ∈ w, isBlank u = false) (rest : Spaced s) :
    Spaced (w ++ ' ' :: s)

namespace Spaced
variable {s t : List Char}

theorem ne_nil (h : Spaced s) : s ≠ [] := by
  cases h with
  | word hne _ => exact hne
  | space => simp

/-- The words of a tidy text, joined again. -/
theorem joinWith_words (h : Spaced s) : joinWith [' '] (words s) = s := by
  induction h with
  | word hne hw => simp [words_eq_singleton hne hw, joinWith]
  | @space w s hne hw rest ih =>
    rw [words_append_cons (by decide), words_eq_singleton hne hw]
    cases hs : words s with
    | nil =>
      rw [hs] at ih
      exact absurd ih.symm rest.ne_nil
    | cons v vs =>
      rw [hs] at ih
      simp [joinWith, ih]

theorem eq_space_of_isBlank (h : Spaced s) {u : Char} (hu : u ∈ s) (hblank : isBlank u = true) :
    u = ' ' := by
  induction h with
  | word _ hw => simp [hw u hu] at hblank
  | space _ hw _ ih =>
    rcases List.mem_append.mp hu with hu | hu
    · simp [hw u hu] at hblank
    · rcases List.mem_cons.mp hu with rfl | hu
      · rfl
      · exact ih hu

theorem head?_not_blank (h : Spaced s) : ∀ u ∈ s.head?, isBlank u = false := by
  have hword : ∀ {w t : List Char}, w ≠ [] → (∀ u ∈ w, isBlank u = false) →
      ∀ u ∈ (w ++ t).head?, isBlank u = false := by
    intro w t hne hw u hu
    obtain ⟨v, w, rfl⟩ := List.exists_cons_of_ne_nil hne
    obtain rfl : v = u := by simpa using hu
    exact hw v (.head _)
  cases h with
  | word hne hw => simpa using hword (t := []) hne hw
  | space hne hw _ => exact hword hne hw

theorem getLast?_not_blank (h : Spaced s) : ∀ u ∈ s.getLast?, isBlank u = false := by
  induction h with
  | word _ hw => exact fun u hu => hw u (List.mem_of_mem_getLast? hu)
  | @space w s _ _ rest ih =>
    have hlast : (w ++ ' ' :: s).getLast? = s.getLast? := by
      rw [List.getLast?_append_cons, List.getLast?_cons_of_ne_nil rest.ne_nil]
    rwa [hlast]

theorem trim_eq (h : Spaced s) : trim s = s :=
  Text.trim_eq h.head?_not_blank h.getLast?_not_blank

/-- Words joined by single spaces. -/
theorem joinWith {ws : List (List Char)} (hne : ws ≠ [])
    (hws : ∀ w ∈ ws, w ≠ [] ∧ ∀ u ∈ w, isBlank u = false) : Spaced (joinWith [' '] ws) := by
  induction ws with
  | nil => exact absurd rfl hne
  | cons w ws ih =>
    obtain ⟨hw, hblank⟩ := hws w (.head _)
    cases ws with
    | nil => exact .word hw hblank
    | cons v vs =>
      have hrest := ih (by simp) fun u hu => hws u (.tail _ hu)
      simpa [Text.joinWith] using Spaced.space hw hblank hrest

/-- Tidying makes a text tidy, unless nothing is left of it. -/
theorem of_words {s : List Char} (hne : words s ≠ []) : Spaced (Text.joinWith [' '] (words s)) := by
  refine joinWith hne fun w hw => ?_
  obtain ⟨hpiece, hempty⟩ := List.mem_filter.mp hw
  exact ⟨by simpa using hempty, not_separates_of_mem_pieces hpiece⟩

/-- Two tidy texts with a space between them. -/
theorem join (hs : Spaced s) (ht : Spaced t) : Spaced (s ++ ' ' :: t) := by
  induction hs with
  | word hne hw => exact .space hne hw ht
  | space hne hw _ ih => simpa using .space hne hw ih

/-- Two tidy texts side by side: the words that meet become one. -/
theorem append (hs : Spaced s) (ht : Spaced t) : Spaced (s ++ t) := by
  induction hs with
  | @word w hne hw =>
    have hboth : ∀ {v : List Char}, (∀ u ∈ v, isBlank u = false) →
        ∀ u ∈ w ++ v, isBlank u = false := by
      intro v hv u hu
      exact (List.mem_append.mp hu).elim (hw u) (hv u)
    cases ht with
    | word hne' hw' => exact .word (by simp [hne]) (hboth hw')
    | space hne' hw' rest =>
      rw [← List.append_assoc]
      exact .space (by simp [hne]) (hboth hw') rest
  | space hne hw _ ih => simpa using .space hne hw ih

end Spaced

end AskMetrics.Text
