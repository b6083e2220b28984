import AskMetrics.Proofs.Text.Case
import AskMetrics.Proofs.Text.Division
import AskMetrics.Proofs.Text.Squeeze
import AskMetrics.Request.Intent

/-!
# What sanitizing leaves

A request is divided, once its angle brackets are gone, at the statement fragments that are met from
left to right, and these are left out. Nothing looks at the text again. So a fragment can be there
afterwards: one that is put together from what stood on both sides of another one. There is no other
way, and a request with such a fragment is the only one that a second pass changes. Each fragment
takes a semicolon with it, so after as many passes as there are semicolons, and one more, nothing is
left to do.
-/
namespace AskMetrics.Request

open AskMetrics.Text

/-! ## Fragments -/

/-- The statements that change data. -/
def statements : List String := ["drop", "delete", "update"]

/-- A statement, in any letter case. -/
def IsStatement (v : List Char) : Prop := ∃ name ∈ statements, lowerAscii v = name.toList

/-- A semicolon and a statement, with blanks between them or none. -/
def IsFragment (w : List Char) : Prop :=
  ∃ y v, (∀ u ∈ y, isBlank u = true) ∧ IsStatement v ∧ w = ';' :: (y ++ v)

/-- A text without fragments. -/
def IsClean (s : List Char) : Prop := ∀ w, IsFragment w → ¬ w <:+: s

/-- A text without its angle brackets. -/
def unbracketed (s : List Char) : List Char := s.filter fun c => c != '<' && c != '>'

section
variable {c d : Cursor} {b v v' w s : List Char} {e : Division}

theorem mem_ends_statement :
    d ∈ (Pattern.oneOf [.anyCase "drop", .anyCase "delete", .anyCase "update"]).ends c ↔
      ∃ v, IsStatement v ∧ c.Reads v d := by
  have hname : ∀ name ∈ statements, d ∈ (Pattern.anyCase name).ends c ↔
      ∃ v, lowerAscii v = name.toList ∧ c.Reads v d := by
    have hletters : ∀ name ∈ statements, 's' ∉ name.toList ∧ 'k' ∉ name.toList := by decide
    intro name hmem
    obtain ⟨hs, hk⟩ := hletters name hmem
    simp only [Pattern.mem_ends_anyCase, forall₂_sameLetter_iff hs hk]
  simp only [Pattern.oneOf, Pattern.mem_ends_orElse, hname "drop" (by decide),
    hname "delete" (by decide), hname "update" (by decide)]
  simp [IsStatement, statements, or_and_right, exists_or]

/-- The pattern of a fragment fits the fragments, and nothing else. -/
theorem depicts_statementFragment : Depicts statementFragment fun _ => IsFragment := by
  intro c d
  have hparts : d ∈ statementFragment.ends c ↔ ∃ c₁, c.Reads [';'] c₁ ∧
      ∃ c₂, (∃ y, (∀ u ∈ y, isBlank u = true) ∧ c₁.Reads y c₂) ∧
        ∃ v, IsStatement v ∧ c₂.Reads v d := by
    simp only [statementFragment, Pattern.sequence_cons_cons, Pattern.sequence_singleton,
      Pattern.mem_ends_andThen, Pattern.mem_ends_char, Pattern.mem_ends_blanks,
      mem_ends_statement]
  rw [hparts]
  constructor
  · rintro ⟨c₁, hmark, c₂, ⟨y, hy, hblanks⟩, v, hv, hread⟩
    exact ⟨_, ⟨y, v, hy, hv, rfl⟩, hmark.trans (hblanks.trans hread)⟩
  · rintro ⟨_, ⟨y, v, hy, hv, rfl⟩, hreads⟩
    obtain ⟨c₁, hmark, hrest⟩ := Cursor.reads_cons_iff.mp hreads
    obtain ⟨c₂, hblanks, hread⟩ := Cursor.reads_append_iff.mp hrest
    exact ⟨c₁, hmark, c₂, ⟨y, hy, hblanks⟩, v, hv, hread⟩

namespace IsStatement

theorem isAlpha (h : IsStatement v) : ∀ u ∈ v, u.isAlpha = true := by
  obtain ⟨name, hname, hlower⟩ := h
  have hletters : ∀ name ∈ statements,
      (name.toList.all fun u => 97 ≤ u.toNat ∧ u.toNat ≤ 122) = true := by decide
  exact isAlpha_of_lowerAscii hlower (hletters name hname)

theorem not_isBlank (h : IsStatement v) : ∀ u ∈ v, isBlank u = false :=
  fun u hu => isBlank_of_isNameChar (by simp [isNameChar, Char.isAlphanum, h.isAlpha u hu])

theorem ne_nil (h : IsStatement v) : v ≠ [] := by
  obtain ⟨name, hname, hlower⟩ := h
  have hlong : ∀ name ∈ statements, name.toList ≠ [] := by decide
  exact fun hnil => hlong name hname (by rw [← hlower, hnil]; rfl)

/-- No statement goes on as another one. -/
theorem eq_of_prefix (h : IsStatement v) (h' : IsStatement v') (hpre : v <+: v') : v = v' := by
  obtain ⟨name, hname, hlower⟩ := h
  obtain ⟨name', hname', hlower'⟩ := h'
  have hfree : ∀ name ∈ statements, ∀ name' ∈ statements, name.toList <+: name'.toList →
      name = name' := by decide
  have hnames : name = name' := by
    refine hfree name hname name' hname' ?_
    rw [← hlower, ← hlower']
    exact hpre.map _
  have hlength : v.length = v'.length := by
    have hlowered := congrArg List.length (hlower.trans (hnames ▸ hlower'.symm))
    simpa only [lowerAscii, List.length_map] using hlowered
  exact hpre.eq_of_length hlength

end IsStatement

namespace IsFragment

theorem ne_nil (h : IsFragment w) : w ≠ [] := by
  obtain ⟨y, v, -, -, rfl⟩ := h
  simp

theorem not_isBlank_head? (h : IsFragment w) : ∀ u ∈ w.head?, isBlank u = false := by
  obtain ⟨y, v, -, -, rfl⟩ := h
  simp
  decide

theorem not_isBlank_getLast? (h : IsFragment w) : ∀ u ∈ w.getLast?, isBlank u = false := by
  obtain ⟨y, v, -, hv, rfl⟩ := h
  rw [← List.cons_append, List.getLast?_append_of_ne_nil _ hv.ne_nil]
  exact fun u hu => hv.not_isBlank u (List.mem_of_mem_getLast? hu)

/-- A fragment has one semicolon. -/
theorem count_semicolon (h : IsFragment w) : w.count ';' = 1 := by
  obtain ⟨y, v, hy, hv, rfl⟩ := h
  have hblanks : ';' ∉ y := fun hmem => absurd (hy ';' hmem) (by decide)
  have hletters : ';' ∉ v := fun hmem => absurd (hv.isAlpha ';' hmem) (by decide)
  simp [List.count_eq_zero_of_not_mem, hblanks, hletters]

end IsFragment

/-- A fragment ends with its statement. -/
theorem definite_isFragment : Definite fun _ => IsFragment where
  ne_nil h := h.ne_nil
  eq := by
    rintro _ _ _ a a' ⟨y, v, hy, hv, rfl⟩ ⟨y', v', hy', hv', rfl⟩ heq
    simp only [List.cons_append, List.append_assoc, List.cons.injEq, true_and] at heq
    have hnext : ∀ {v a : List Char}, IsStatement v → ∀ u ∈ (v ++ a).head?, isBlank u = false := by
      intro v a hv u hu
      rw [List.head?_append_of_ne_nil _ hv.ne_nil] at hu
      exact hv.not_isBlank u (List.mem_of_mem_head? hu)
    obtain ⟨rfl, hrest⟩ := eq_of_append_eq_append hy hy' (hnext hv) (hnext hv') heq
    have hpre : v <+: v' ++ a' := ⟨a, hrest⟩
    rcases List.prefix_or_prefix_of_prefix hpre (List.prefix_append v' a') with hpre | hpre
    · rw [hv.eq_of_prefix hv' hpre]
    · rw [hv'.eq_of_prefix hv hpre]

/-- A text is clean when it is not divided at any fragment. -/
theorem isClean_iff_parts_eq_nil (h : Divided (fun _ => IsFragment) b s e) :
    IsClean s ↔ e.parts = [] := by
  constructor
  · intro hclean
    rw [List.eq_nil_iff_forall_not_mem]
    intro w hw
    obtain ⟨-, hfragment⟩ := h.of_mem_parts w hw
    exact hclean w hfragment (h.text_eq ▸ e.infix_text_of_mem_parts hw)
  · intro hnil
    have hfree := h.not_infix_of_mem_pieces IsFragment.ne_nil
    rw [Division.pieces_eq_singleton hnil, h.text_eq] at hfree
    exact hfree s (.head _)

/-! ## One pass -/

/-- A pass leaves out the fragments at which the text divides. -/
theorem sanitizeChars_eq (h : Divided (fun _ => IsFragment) [] (unbracketed s) e) :
    sanitizeChars s = trim (e.put []).text := by
  rw [sanitizeChars, ← h.replaceAll_eq depicts_statementFragment definite_isFragment]
  rfl

theorem sublist_sanitizeChars (s : List Char) : (sanitizeChars s).Sublist (unbracketed s) := by
  obtain ⟨e, he⟩ := exists_divided definite_isFragment [] (unbracketed s)
  rw [sanitizeChars_eq he, ← he.text_eq]
  exact (infix_trim _).sublist.trans e.text_put_nil_sublist

theorem ne_bracket_of_mem (s : List Char) : ∀ u ∈ sanitizeChars s, u ≠ '<' ∧ u ≠ '>' := by
  intro u hu
  simpa [unbracketed] using (List.mem_filter.mp ((sublist_sanitizeChars s).subset hu)).2

theorem trim_sanitizeChars (s : List Char) : trim (sanitizeChars s) = sanitizeChars s :=
  trim_trim _

/-- Fragments are not trimmed away. -/
theorem isClean_trim_iff : IsClean (trim s) ↔ IsClean s := by
  refine forall₂_congr fun w hw => ?_
  rw [infix_trim_iff hw.ne_nil hw.not_isBlank_head? hw.not_isBlank_getLast?]

/-- A fragment is left exactly when one is put together across others that are left out. -/
theorem isClean_sanitizeChars_iff (h : Divided (fun _ => IsFragment) [] (unbracketed s) e) :
    IsClean (sanitizeChars s) ↔ ¬ e.Reassembles IsFragment := by
  rw [sanitizeChars_eq h, isClean_trim_iff, ← h.exists_infix_put_nil_iff IsFragment.ne_nil]
  simp [IsClean]

/-- A pass takes a semicolon away with each fragment. -/
theorem count_semicolon_add_le (h : Divided (fun _ => IsFragment) [] (unbracketed s) e) :
    (sanitizeChars s).count ';' + e.parts.length ≤ s.count ';' := by
  have hparts : e.parts.flatten.count ';' = e.parts.length := by
    have hone : ∀ w ∈ e.parts, w.count ';' = 1 := fun w hw =>
      (h.of_mem_parts w hw).choose_spec.count_semicolon
    rw [List.count_flatten, List.map_congr_left hone]
    simp
  have htrim : (trim (e.put []).text).count ';' ≤ (e.put []).text.count ';' :=
    (infix_trim _).sublist.count_le _
  have hfilter : (unbracketed s).count ';' ≤ s.count ';' := List.filter_sublist.count_le _
  have hall := e.countP_text (· == ';')
  rw [h.text_eq] at hall
  rw [sanitizeChars_eq h]
  simp only [List.count] at *
  omega

/-- The texts that sanitizing leaves as they are. -/
theorem sanitizeChars_eq_self_iff :
    sanitizeChars s = s ↔ (∀ u ∈ s, u ≠ '<' ∧ u ≠ '>') ∧ trim s = s ∧ IsClean s := by
  have hfilter : (∀ u ∈ s, u ≠ '<' ∧ u ≠ '>') → unbracketed s = s := fun h =>
    List.filter_eq_self.mpr (by simpa using h)
  obtain ⟨e, he⟩ := exists_divided definite_isFragment [] (unbracketed s)
  constructor
  · intro hself
    have hbrackets := ne_bracket_of_mem s
    have htrim := trim_sanitizeChars s
    have hcount := count_semicolon_add_le he
    rw [hself] at hbrackets htrim hcount
    refine ⟨hbrackets, htrim, ?_⟩
    rw [hfilter hbrackets] at he
    exact (isClean_iff_parts_eq_nil he).mpr (List.eq_nil_of_length_eq_zero (by omega))
  · rintro ⟨hbrackets, htrim, hclean⟩
    have hput := sanitizeChars_eq he
    rw [hfilter hbrackets] at he
    have hnil := (isClean_iff_parts_eq_nil he).mp hclean
    rw [hput, Division.put_eq_self (by simp [hnil]), he.text_eq, htrim]

/-- Another pass changes nothing exactly when no fragment is left. -/
theorem sanitizeChars_sanitizeChars_iff :
    sanitizeChars (sanitizeChars s) = sanitizeChars s ↔ IsClean (sanitizeChars s) := by
  rw [sanitizeChars_eq_self_iff]
  exact ⟨fun h => h.2.2, fun h => ⟨ne_bracket_of_mem s, trim_sanitizeChars s, h⟩⟩

/-! ## One pass after another -/

/-- A pass that leaves a fragment has taken a semicolon away. -/
theorem count_semicolon_lt (h : ¬ IsClean (sanitizeChars s)) :
    (sanitizeChars s).count ';' < s.count ';' := by
  obtain ⟨e, he⟩ := exists_divided definite_isFragment [] (unbracketed s)
  have hparts : e.parts ≠ [] := by
    intro hnil
    refine h ?_
    rw [sanitizeChars_eq he, Division.put_eq_self (by simp [hnil]), he.text_eq, isClean_trim_iff]
    exact (isClean_iff_parts_eq_nil he).mpr hnil
  have hpos := List.length_pos_of_ne_nil hparts
  have hcount := count_semicolon_add_le he
  omega

/-- After one pass more than there are semicolons no fragment is left. -/
theorem isClean_iterate {n : ℕ} (h : s.count ';' ≤ n) : IsClean (sanitizeChars^[n + 1] s) := by
  induction n generalizing s with
  | zero =>
    by_contra hleft
    have hless := count_semicolon_lt hleft
    omega
  | succ n ih =>
    rw [Function.iterate_succ_apply]
    by_cases hclean : IsClean (sanitizeChars s)
    · rwa [Function.iterate_fixed (sanitizeChars_sanitizeChars_iff.mpr hclean)]
    · have hless := count_semicolon_lt hclean
      exact ih (by omega)

end

/-! ## Requests -/

/-- A sanitized request has no angle brackets and no blanks at its edges. Sanitizing it again changes
it exactly when a fragment is left, and that is so exactly when one is put together, across others
that are left out, from the request without its angle brackets. -/
theorem sanitize_spec (request : String) :
    (∀ u ∈ (sanitize request).toList, u ≠ '<' ∧ u ≠ '>') ∧
    trim (sanitize request).toList = (sanitize request).toList ∧
    (sanitize (sanitize request) = sanitize request ↔ IsClean (sanitize request).toList) ∧
    ∃ d, Divided (fun _ => IsFragment) [] (unbracketed request.toList) d ∧
      (IsClean (sanitize request).toList ↔ ¬ d.Reassembles IsFragment) := by
  obtain ⟨e, he⟩ := exists_divided definite_isFragment [] (unbracketed request.toList)
  simp only [sanitize, String.toList_ofList, String.ofList_inj]
  exact ⟨ne_bracket_of_mem _, trim_sanitizeChars _, sanitizeChars_sanitizeChars_iff, e, he,
    isClean_sanitizeChars_iff he⟩

/-- A fragment with another one inside: the outer one is left. -/
theorem not_isClean_sanitize :
    sanitize "cpu;del;dropete" = "cpu;delete" ∧ ¬ IsClean (sanitize "cpu;del;dropete").toList ∧
      sanitize (sanitize "cpu;del;dropete") = "cpu" := by
  have hfirst : sanitize "cpu;del;dropete" = "cpu;delete" := by decide +kernel
  have hagain : sanitize "cpu;delete" = "cpu" := by decide +kernel
  refine ⟨hfirst, ?_, by rw [hfirst, hagain]⟩
  rw [hfirst]
  intro hclean
  exact hclean ";delete".toList ⟨[], "delete".toList, by simp, ⟨"delete", by decide, by decide⟩, rfl⟩
    ⟨"cpu".toList, [], by decide⟩

end AskMetrics.Request
