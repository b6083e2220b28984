import AskMetrics.Proofs.Text.Blank
import AskMetrics.Proofs.Text.Word

/-!
# One space for each run of blanks

The words of a text, joined by single spaces, are the trimmed text with each run of blanks squeezed
into one space. Squeezing goes through a text from left to right and looks back one character only,
so it can be said what it does to a part of a text: both sides of a character that is no blank are
squeezed by themselves.
-/
namespace AskMetrics.Text

/-- A text with one space in place of each run of blanks, behind a blank or behind something
else. -/
def squeezeFrom : Bool → List Char → List Char
  | _, [] => []
  | behindBlank, u :: s =>
    if isBlank u then
      if behindBlank then squeezeFrom true s else ' ' :: squeezeFrom true s
    else u :: squeezeFrom false s

/-- A text with one space in place of each run of blanks. -/
def squeeze (s : List Char) : List Char := squeezeFrom false s

/-- Spaces are the only blanks, and no two of them are next to each other. -/
structure SinglySpaced (s : List Char) : Prop where
  space : ∀ u ∈ s, isBlank u = true → u = ' '
  single : ¬ [' ', ' '] <:+: s

section
variable {s w x y : List Char} {u : Char} {behindBlank : Bool}

/-! ## Words -/

theorem words_blanks_append (hx : ∀ u ∈ x, isBlank u = true) : words (x ++ s) = words s := by
  induction x with
  | nil => rfl
  | cons u x ih =>
    rw [← ih fun v hv => hx v (.tail _ hv)]
    exact words_append_cons (hx u (.head _)) [] (x ++ s)

theorem words_append_blanks (hx : ∀ u ∈ x, isBlank u = true) : words (s ++ x) = words s := by
  cases x with
  | nil => rw [List.append_nil]
  | cons u x =>
    have hrest := words_blanks_append (s := []) fun v hv => hx v (.tail _ hv)
    rw [List.append_nil] at hrest
    rw [words_append_cons (hx u (.head _)), hrest]
    exact List.append_nil _

/-- Trimming leaves out blanks on both sides. -/
theorem exists_trim (s : List Char) : ∃ x y, (∀ u ∈ x, isBlank u = true) ∧
    (∀ u ∈ y, isBlank u = true) ∧ s = x ++ (trim s ++ y) := by
  obtain ⟨x, a, rfl, hx, ha⟩ := exists_run isBlank s
  obtain ⟨y, hy, hend⟩ := exists_blanks_trimEnd a
  refine ⟨x, y, hx, hy, ?_⟩
  rw [trim_blanks_append hx, trim, trimStart_eq ha, ← hend]

/-- A part of a text that neither begins nor ends with a blank is not trimmed away. -/
theorem infix_trim_iff (hne : w ≠ []) (hhead : ∀ u ∈ w.head?, isBlank u = false)
    (hlast : ∀ u ∈ w.getLast?, isBlank u = false) : w <:+: trim s ↔ w <:+: s := by
  refine ⟨fun h => h.trans (infix_trim s), fun h => ?_⟩
  obtain ⟨x, y, hx, hy, hs⟩ := exists_trim s
  have hfront : ∀ {z}, z ≠ [] → z <+: w → ¬ z <:+: x := by
    rintro z hz ⟨r, rfl⟩ hin
    rw [List.head?_append_of_ne_nil _ hz, List.head?_eq_some_head hz] at hhead
    simpa [hhead _ rfl] using hx _ (hin.subset (List.head_mem hz))
  have hback : ∀ {z}, z ≠ [] → z <:+ w → ¬ z <:+: y := by
    rintro z hz ⟨r, rfl⟩ hin
    rw [List.getLast?_append_of_ne_nil _ hz, List.getLast?_eq_some_getLast hz] at hlast
    simpa [hlast _ rfl] using hy _ (hin.subset (List.getLast_mem hz))
  rw [hs] at h
  have hinside : w <:+: trim s ++ y := by
    rcases List.infix_append_iff_ne_nil.mp h with hin | hin | ⟨z, z', hz, -, rfl, hsuffix, -⟩
    · exact absurd hin (hfront hne (List.prefix_refl w))
    · exact hin
    · exact absurd hsuffix.isInfix (hfront hz (List.prefix_append z z'))
  rcases List.infix_append_iff_ne_nil.mp hinside with hin | hin | ⟨z, z', -, hz', rfl, -, hprefix⟩
  · exact hin
  · exact absurd hin (hback hne (List.suffix_refl w))
  · exact absurd hprefix.isInfix (hback hz' (List.suffix_append z z'))

theorem words_trim (s : List Char) : words (trim s) = words s := by
  obtain ⟨x, y, hx, hy, hs⟩ := exists_trim s
  rw [hs, words_blanks_append hx, words_append_blanks hy, ← hs]

/-- A character that is no separator lies in a piece. -/
theorem exists_mem_pieces {separates : Char → Bool} (hu : separates u = false) (hmem : u ∈ s) :
    ∃ part ∈ pieces separates s, u ∈ part := by
  induction s with
  | nil => simp at hmem
  | cons v s ih =>
    rw [pieces]
    split_ifs with hv
    · have hne : u ≠ v := by
        rintro rfl
        simp [hu] at hv
      obtain ⟨part, hpart, hin⟩ := ih ((List.mem_cons.mp hmem).resolve_left hne)
      exact ⟨part, .tail _ hpart, hin⟩
    · cases hpieces : pieces separates s with
      | nil => exact absurd hpieces (pieces_ne_nil s)
      | cons first rest =>
        rcases List.mem_cons.mp hmem with rfl | hmem
        · exact ⟨_, .head _, .head _⟩
        · obtain ⟨part, hpart, hin⟩ := ih hmem
          rw [hpieces] at hpart
          rcases List.mem_cons.mp hpart with rfl | hpart
          · exact ⟨_, .head _, .tail _ hin⟩
          · exact ⟨part, .tail _ hpart, hin⟩

theorem words_ne_nil (hu : isBlank u = false) (hmem : u ∈ s) : words s ≠ [] := by
  obtain ⟨part, hpart, hin⟩ := exists_mem_pieces hu hmem
  exact List.ne_nil_of_mem (List.mem_filter.mpr ⟨hpart, by simpa using List.ne_nil_of_mem hin⟩)

/-! ## Squeezing words -/

/-- A word stays, and it parts what comes behind it from what came before it. -/
theorem squeezeFrom_word_append (hne : w ≠ []) (hw : ∀ u ∈ w, isBlank u = false) :
    squeezeFrom behindBlank (w ++ s) = w ++ squeezeFrom false s := by
  induction w generalizing behindBlank with
  | nil => exact absurd rfl hne
  | cons u w ih =>
    have hu : ¬ isBlank u = true := by simp [hw u (.head _)]
    rw [List.cons_append, squeezeFrom, if_neg hu]
    cases w with
    | nil => rfl
    | cons v w =>
      rw [ih (by simp) fun v hv => hw v (.tail _ hv)]
      rfl

/-- Behind a blank, squeezing joins the words of a text that does not end in a blank. -/
theorem squeezeFrom_true_eq (h : ∀ u ∈ s.getLast?, isBlank u = false) :
    squeezeFrom true s = joinWith [' '] (words s) := by
  induction hn : s.length using Nat.strong_induction_on generalizing s with
  | _ n ih =>
    obtain ⟨w, a, rfl, hw, ha⟩ := exists_run (fun u => !isBlank u) s
    have hword : ∀ u ∈ w, isBlank u = false := fun u hu => by simpa using hw u hu
    cases a with
    | nil =>
      rw [List.append_nil]
      by_cases hne : w = []
      · rw [hne]
        rfl
      · have hself : squeezeFrom true (w ++ []) = w ++ squeezeFrom false [] :=
          squeezeFrom_word_append hne hword
        simpa [squeezeFrom, words_eq_singleton hne hword, joinWith] using hself
    | cons v a =>
      have hv : isBlank v = true := by simpa using ha v rfl
      have hane : a ≠ [] := by
        rintro rfl
        simp [hv] at h
      have hlast : ∀ u ∈ a.getLast?, isBlank u = false := by
        intro u hu
        refine h u ?_
        rwa [List.getLast?_append_cons, List.getLast?_cons_of_ne_nil hane]
      have hshort : a.length < n := by
        simp only [List.length_append, List.length_cons] at hn
        omega
      have hrest := ih a.length hshort hlast rfl
      rw [words_append_cons hv]
      by_cases hne : w = []
      · rw [hne, List.nil_append, squeezeFrom, if_pos hv, if_pos rfl, hrest]
        rfl
      · have hlater : words a ≠ [] :=
          words_ne_nil (hlast _ (List.getLast?_eq_some_getLast hane)) (List.getLast_mem hane)
        rw [squeezeFrom_word_append hne hword, squeezeFrom, if_pos hv, if_neg (by decide), hrest,
          words_eq_singleton hne hword]
        obtain ⟨w', ws, hws⟩ := List.exists_cons_of_ne_nil hlater
        simp [hws, joinWith]

/-- A text that does not begin with a blank is squeezed in the same way behind anything. -/
theorem squeezeFrom_eq_squeeze (h : ∀ u ∈ s.head?, isBlank u = false) :
    squeezeFrom behindBlank s = squeeze s := by
  cases s with
  | nil => rfl
  | cons u s => simp [squeeze, squeezeFrom, h u rfl]

/-- The words of a text, joined by single spaces. -/
theorem joinWith_words_eq_squeeze (s : List Char) :
    joinWith [' '] (words s) = squeeze (trim s) := by
  have hlast : ∀ u ∈ (trim s).getLast?, isBlank u = false :=
    not_blank_getLast?_trimEnd (trimStart s)
  rw [← words_trim, ← squeezeFrom_true_eq hlast, squeezeFrom_eq_squeeze (not_blank_head?_trim s)]

/-! ## Squeezing part by part -/

/-- Both sides of a character that is no blank are squeezed by themselves. -/
theorem squeezeFrom_append_cons (hu : isBlank u = false) :
    squeezeFrom behindBlank (x ++ u :: y) = squeezeFrom behindBlank x ++ u :: squeeze y := by
  induction x generalizing behindBlank with
  | nil => simp [squeezeFrom, squeeze, hu]
  | cons v x ih =>
    simp only [List.cons_append, squeezeFrom, ih]
    split_ifs <;> rfl

theorem squeeze_append_cons (hu : isBlank u = false) (x y : List Char) :
    squeeze (x ++ u :: y) = squeeze x ++ u :: squeeze y :=
  squeezeFrom_append_cons hu

/-- What holds of a space and of all characters of a text holds after squeezing. -/
theorem forall_mem_squeezeFrom {P : Char → Prop} (hspace : P ' ') (hs : ∀ u ∈ s, P u) :
    ∀ u ∈ squeezeFrom behindBlank s, P u := by
  induction s generalizing behindBlank with
  | nil => simp [squeezeFrom]
  | cons u s ih =>
    have hrest : ∀ behind, ∀ v ∈ squeezeFrom behind s, P v := fun _ =>
      ih fun v hv => hs v (.tail _ hv)
    rw [squeezeFrom]
    split_ifs
    · exact hrest true
    · exact List.forall_mem_cons.mpr ⟨hspace, hrest true⟩
    · exact List.forall_mem_cons.mpr ⟨hs u (.head _), hrest false⟩

/-- Characters that are no blanks are kept, as many as there are. -/
theorem countP_squeezeFrom {p : Char → Bool} (hp : ∀ u, isBlank u = true → p u = false) :
    (squeezeFrom behindBlank s).countP p = s.countP p := by
  have hspace : p ' ' = false := hp ' ' (by decide)
  induction s generalizing behindBlank with
  | nil => rfl
  | cons u s ih =>
    rw [squeezeFrom]
    split_ifs with hu
    · simp [ih, hp u hu]
    · simp [ih, hp u hu, hspace]
    · simp [List.countP_cons, ih]

theorem length_squeezeFrom_le (behindBlank : Bool) (s : List Char) :
    (squeezeFrom behindBlank s).length ≤ s.length := by
  induction s generalizing behindBlank with
  | nil => exact Nat.le_refl _
  | cons u s ih =>
    rw [squeezeFrom]
    split_ifs
    · exact (ih true).trans (Nat.le_succ _)
    · exact Nat.succ_le_succ (ih true)
    · exact Nat.succ_le_succ (ih false)

theorem spaces_infix_cons_iff :
    [' ', ' '] <:+: u :: s ↔ (u = ' ' ∧ s.head? = some ' ') ∨ [' ', ' '] <:+: s := by
  have hhead : [' '] <+: s ↔ s.head? = some ' ' := by
    cases s <;> simp [List.cons_prefix_cons, eq_comm]
  rw [List.infix_cons_iff, List.cons_prefix_cons, hhead, eq_comm]

/-- Behind a blank, a text stays only if it does not begin with a blank. -/
theorem squeezeFrom_eq_self_iff :
    squeezeFrom behindBlank s = s ↔
      (∀ u ∈ s, isBlank u = true → u = ' ') ∧ ¬ [' ', ' '] <:+: s ∧
        (behindBlank = true → s.head? ≠ some ' ') := by
  induction s generalizing behindBlank with
  | nil => simp [squeezeFrom]
  | cons u s ih =>
    rw [spaces_infix_cons_iff, List.forall_mem_cons, List.head?_cons, squeezeFrom]
    by_cases hu : isBlank u = true
    · cases behindBlank with
      | true =>
        rw [if_pos hu, if_pos rfl]
        constructor
        · intro h
          have hlength := length_squeezeFrom_le true s
          rw [h, List.length_cons] at hlength
          omega
        · rintro ⟨⟨hspace, -⟩, -, hhead⟩
          exact absurd (congrArg some (hspace hu)) (hhead rfl)
      | false =>
        rw [if_pos hu, if_neg (by decide), List.cons.injEq, ih]
        grind
    · have hne : u ≠ ' ' := by
        rintro rfl
        exact hu (by decide)
      rw [if_neg hu, List.cons.injEq, ih]
      simp [hu, hne]

/-- The texts that squeezing leaves as they are. -/
theorem squeeze_eq_self_iff : squeeze s = s ↔ SinglySpaced s := by
  rw [squeeze, squeezeFrom_eq_self_iff]
  constructor
  · rintro ⟨hspace, hsingle, -⟩
    exact ⟨hspace, hsingle⟩
  · rintro ⟨hspace, hsingle⟩
    exact ⟨hspace, hsingle, by simp⟩

end

end AskMetrics.Text
