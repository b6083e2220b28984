import AskMetrics.Proofs.Query.Decoration
import AskMetrics.Proofs.Text.Mention

/-!
# What normalizing gives

Normalizing gives one line with single spaces and no code fence, whatever it is given. The backticks
that are left of a row of them stand before something that is left as well, so leaving out a fence
never makes another one of what stood around it.

Not every such text is a normal form: one that begins with a label, has a quote at an edge or ends
in a stop loses that. All the others are.
-/
namespace AskMetrics.Query

open AskMetrics.Text

/-- Single spaces between other characters, and neither other blanks nor a code fence. The empty
text is tidy. -/
structure Tidy (s : List Char) : Prop where
  no_fence : ¬ fenceMark <:+: s
  space : ∀ u ∈ s, isBlank u = true → u = ' '
  single : ¬ [' ', ' '] <:+: s
  head : ∀ u ∈ s.head?, u ≠ ' '
  last : ∀ u ∈ s.getLast?, u ≠ ' '

/-- Neither a label at the start, nor a quote at an edge, nor a stop at the end. -/
structure Undecorated (s : List Char) : Prop where
  no_label : ∀ r, ¬ Labelled s r
  head : ∀ u ∈ s.head?, isQuote u = false
  last : ∀ u ∈ s.getLast?, isQuote u = false ∧ isStop u = false

instance (s : List Char) : Decidable (Undecorated s) :=
  decidable_of_iff (findFirst [label] s = none ∧ s.head?.any isQuote = false ∧
      s.getLast?.any (fun u => isQuote u || isStop u) = false)
    ⟨fun ⟨hlabel, hhead, hlast⟩ => ⟨findFirst_label_eq_none_iff.mp hlabel,
        (Option.any_eq_false ..).mp hhead,
        fun u hu => Bool.or_eq_false_iff.mp ((Option.any_eq_false ..).mp hlast u hu)⟩,
      fun h => ⟨findFirst_label_eq_none_iff.mpr h.no_label, (Option.any_eq_false ..).mpr h.head,
        (Option.any_eq_false ..).mpr fun u hu => Bool.or_eq_false_iff.mpr (h.last u hu)⟩⟩

/-! ## Spacing -/

section
variable {s : List Char}

/-- There is a word between two spaces of a spaced text. -/
theorem not_infix_spaces (h : Spaced s) : ¬ [' ', ' '] <:+: s := by
  have hword : ∀ {w : List Char}, (∀ u ∈ w, isBlank u = false) → ' ' ∉ w := fun hw hmem =>
    absurd (hw ' ' hmem) (by decide)
  induction h with
  | word _ hw => exact fun hin => hword hw (hin.subset (by simp))
  | @space w s hne hw rest ih =>
    have hlast : ∀ u ∈ w.getLast?, u ∉ [' ', ' '] := by
      intro u hu hmem
      obtain rfl : u = ' ' := by simpa using hmem
      exact hword hw (List.mem_of_mem_getLast? hu)
    rw [infix_append_iff_of_not_mem (.inl hlast), List.infix_cons_iff]
    rintro (hin | hpre | hin)
    · exact hword hw (hin.subset (by simp))
    · obtain ⟨r, rfl⟩ := (List.cons_prefix_cons.mp hpre).2
      exact absurd (rest.head?_not_blank ' ' rfl) (by decide)
    · exact ih hin

/-- What comes after a space of a tidy text is tidy. -/
theorem Tidy.behind_space {w a : List Char} (h : Tidy (w ++ ' ' :: a)) (hne : a ≠ []) :
    Tidy a where
  no_fence hin := h.no_fence (hin.trans ⟨w ++ [' '], [], by simp⟩)
  space u hu := h.space u (by simp [hu])
  single hin := h.single (hin.trans ⟨w ++ [' '], [], by simp⟩)
  head := by
    rintro u hu rfl
    obtain ⟨r, rfl⟩ := List.head?_eq_some_iff.mp hu
    exact h.single ⟨w, r, by simp⟩
  last u hu := by
    refine h.last u ?_
    rwa [List.getLast?_append_cons, List.getLast?_cons_of_ne_nil hne]

/-- A tidy text is empty or has words with single spaces between them. -/
theorem Tidy.spaced (h : Tidy s) (hne : s ≠ []) : Spaced s := by
  induction hn : s.length using Nat.strong_induction_on generalizing s with
  | _ n ih =>
    obtain ⟨w, a, rfl, hw, ha⟩ := exists_run (fun u => !isBlank u) s
    have hword : ∀ u ∈ w, isBlank u = false := fun u hu => by simpa using hw u hu
    cases a with
    | nil =>
      rw [List.append_nil] at hne ⊢
      exact .word hne hword
    | cons v a =>
      obtain rfl : v = ' ' := h.space v (by simp) (by simpa using ha v rfl)
      have hwne : w ≠ [] := by
        rintro rfl
        exact h.head ' ' rfl rfl
      have hane : a ≠ [] := by
        rintro rfl
        exact h.last ' ' (by simp) rfl
      have hshort : a.length < n := by
        simp only [List.length_append, List.length_cons] at hn
        omega
      exact .space hwne hword (ih a.length hshort (h.behind_space hane) hane rfl)

theorem Tidy.of_spaced (h : Spaced s) (hfence : ¬ fenceMark <:+: s) : Tidy s where
  no_fence := hfence
  space _ hu hblank := h.eq_space_of_isBlank hu hblank
  single := not_infix_spaces h
  head u hu := by
    rintro rfl
    exact absurd (h.head?_not_blank ' ' hu) (by decide)
  last u hu := by
    rintro rfl
    exact absurd (h.getLast?_not_blank ' ' hu) (by decide)

theorem tidy_nil : Tidy [] := ⟨by simp [fenceMark], by simp, by simp, by simp, by simp⟩

theorem undecorated_nil : Undecorated [] where
  no_label := by
    rintro r ⟨w, y, hw, -, h⟩
    simp at h
  head := by simp
  last := by simp

/-! ## Fences -/

/-- A text without a code fence is one in which none starts at any place. -/
theorem not_infix_fenceMark_iff :
    ¬ fenceMark <:+: s ↔ Along (fun b a => fence.ends ⟨b, a⟩ = []) [] s [] := by
  have hnone : ∀ {b a}, fence.ends ⟨b, a⟩ = [] ↔ ¬ fenceMark <+: a := by
    intro b a
    rw [← matchAt_fence_eq_none_iff (b := b), matchAt_singleton, Option.map_eq_none_iff,
      Pattern.first_eq_none_iff]
  simp only [along_iff_forall, hnone, List.append_nil]
  constructor
  · rintro hno y u z rfl hpre
    exact hno (hpre.isInfix.trans (List.suffix_append y _).isInfix)
  · rintro hno ⟨y, r, rfl⟩
    exact hno y '\x60' ('\x60' :: '\x60' :: r) (by simp [fenceMark]) ⟨r, rfl⟩

/-- What comes out begins with a backtick only if what goes in does. -/
theorem head?_of_rewrites {b a t : List Char} (h : Rewrites [fence] (fun _ => []) ⟨b, a⟩ t)
    (ht : t.head? = some '\x60') : a.head? = some '\x60' := by
  cases h with
  | done => simp at ht
  | skip => simpa using ht
  | hit hmatch _ _ =>
    have hmark : fenceMark <+: a := by
      by_contra hno
      simp [matchAt_fence_eq_none_iff.mpr hno] at hmatch
    obtain ⟨r, rfl⟩ := hmark
    rfl

/-- No fence is left when all fences are left out. Three backticks that are kept in a row would have
stood in a row before, so the first of them would have begun a fence. -/
theorem not_infix_of_rewrites {c : Cursor} {t : List Char}
    (h : Rewrites [fence] (fun _ => []) c t) : ¬ fenceMark <:+: t := by
  induction h with
  | done => simp [fenceMark]
  | @skip b a t u hno rest ih =>
    rw [List.infix_cons_iff]
    rintro (hpre | hin)
    · rw [matchAt_fence_eq_none_iff] at hno
      obtain ⟨rfl, r, rfl⟩ := List.cons_prefix_cons.mp hpre
      generalize ht : ['\x60', '\x60'] ++ r = t at rest
      cases rest with
      | done => simp at ht
      | @skip _ a t u hnext rest =>
        obtain ⟨rfl, rfl⟩ := List.cons.inj ht
        obtain ⟨a, rfl⟩ := List.head?_eq_some_iff.mp (head?_of_rewrites rest rfl)
        exact hno ⟨a, rfl⟩
      | hit hmatch _ _ =>
        refine hno (List.cons_prefix_cons.mpr ⟨rfl, ?_⟩)
        by_contra hshort
        have hnone : ¬ fenceMark <+: a := fun hmark => hshort (.trans ⟨['\x60'], rfl⟩ hmark)
        simp [matchAt_fence_eq_none_iff.mpr hnone] at hmatch
    · exact ih hin
  | hit _ _ _ ih => exact ih

theorem not_infix_dropFences (s : List Char) : ¬ fenceMark <:+: dropFences s :=
  not_infix_of_rewrites (rewrites_dropFences s)

example : dropFences "\x60\x60\x60\x60\x60promql\x60".toList = "\x60\x60promql\x60".toList := by
  decide +kernel

/-! ## Normal forms -/

/-- What is inside a joined text and has no separator in it is inside a part. -/
theorem exists_infix_of_infix_joinWith {m : List Char} {ws : List (List Char)} (hm : ' ' ∉ m)
    (hne : m ≠ []) (h : m <:+: joinWith [' '] ws) : ∃ w ∈ ws, m <:+: w := by
  induction ws with
  | nil => exact absurd (List.infix_nil.mp h) hne
  | cons w ws ih =>
    cases ws with
    | nil => exact ⟨w, .head _, h⟩
    | cons w' ws =>
      have hspace : ∀ u ∈ (' ' :: joinWith [' '] (w' :: ws)).head?, u ∉ m := by simpa using hm
      rw [joinWith, List.append_assoc, List.singleton_append,
        infix_append_iff_of_not_mem (.inr hspace), List.infix_cons_iff] at h
      · rcases h with hin | hpre | hin
        · exact ⟨w, .head _, hin⟩
        · obtain ⟨u, m, rfl⟩ := List.exists_cons_of_ne_nil hne
          obtain ⟨rfl, -⟩ := List.cons_prefix_cons.mp hpre
          simp at hm
        · obtain ⟨v, hv, hin⟩ := ih hin
          exact ⟨v, .tail _ hv, hin⟩
      · simp

/-- Leaving single spaces between words brings in nothing but the spaces. -/
theorem infix_of_infix_collapseBlanks {m : List Char} (hm : ' ' ∉ m) (hne : m ≠ [])
    (h : m <:+: collapseBlanks s) : m <:+: s := by
  obtain ⟨w, hw, hin⟩ := exists_infix_of_infix_joinWith hm hne h
  exact hin.trans (infix_of_mem_pieces (List.mem_of_mem_filter hw))

/-- Steps that leave a part of the text in one piece. -/
theorem infix_foldl (steps : List (List Char → List Char)) (hsteps : ∀ g ∈ steps, ∀ t, g t <:+: t) :
    steps.foldl (fun t g => g t) s <:+: s := by
  induction steps generalizing s with
  | nil => exact List.infix_rfl
  | cons g steps ih =>
    obtain ⟨hg, hrest⟩ := List.forall_mem_cons.mp hsteps
    exact (ih hrest).trans (hg s)

/-- All that is left before the last step is in one piece once the fences are left out. -/
theorem infix_leavingOut (s : List Char) :
    leavingOut.foldl (fun t g => g t) s <:+: dropFences s := by
  have hsteps : leavingOut = dropFences :: leavingOut.tail := rfl
  rw [hsteps, List.foldl_cons]
  exact infix_foldl _ infix_of_mem_tail_leavingOut

theorem not_infix_normalize (s : List Char) : ¬ fenceMark <:+: normalize s := by
  intro h
  rw [normalize_eq_collapse] at h
  have hleft := infix_of_infix_collapseBlanks (by decide) (by decide) h
  exact not_infix_dropFences s (hleft.trans (infix_leavingOut s))

theorem tidy_normalize (s : List Char) : Tidy (normalize s) := by
  by_cases hne : normalize s = []
  · rw [hne]
    exact tidy_nil
  · exact .of_spaced (spaced_normalize hne) (not_infix_normalize s)

theorem length_normalize_le (s : List Char) : (normalize s).length ≤ s.length := by
  calc (normalize s).length
      ≤ (leavingOut.foldl (fun t g => g t) s).length := by
        rw [normalize_eq_collapse]
        exact length_collapseBlanks_le _
    _ ≤ (dropFences s).length := (infix_leavingOut s).length_le
    _ ≤ s.length := (sublist_dropFences s).length_le

/-- A plain text is a tidy and undecorated one that is not empty. -/
theorem plain_iff (hne : s ≠ []) : Plain s ↔ Tidy s ∧ Undecorated s := by
  constructor
  · intro h
    exact ⟨.of_spaced h.spaced (not_infix_fenceMark_iff.mpr h.no_fence),
      findFirst_label_eq_none_iff.mp h.no_label, h.first, h.last⟩
  · rintro ⟨htidy, hbare⟩
    exact ⟨htidy.spaced hne, not_infix_fenceMark_iff.mp htidy.no_fence,
      findFirst_label_eq_none_iff.mpr hbare.no_label, hbare.head, hbare.last⟩

end

/-- **Normal forms.** Normalizing gives a tidy text that is no longer than the text it is given, and
gives back as they are the tidy texts that are undecorated and no others. -/
theorem tidy_and_normalize_eq_self_iff :
    (∀ s, (normalize s).length ≤ s.length ∧ Tidy (normalize s)) ∧
      ∀ t, normalize t = t ↔ Tidy t ∧ Undecorated t := by
  refine ⟨fun s => ⟨length_normalize_le s, tidy_normalize s⟩, fun t => ?_⟩
  by_cases hne : t = []
  · subst hne
    have hnil : normalize [] = [] :=
      List.eq_nil_of_length_eq_zero (Nat.le_zero.mp (length_normalize_le []))
    exact ⟨fun _ => ⟨tidy_nil, undecorated_nil⟩, fun _ => hnil⟩
  · rw [normalize_eq_self_iff hne, plain_iff hne]

end AskMetrics.Query
