import AskMetrics.Proofs.Text.Division

/-!
# Places in a divided text

A place in a text lies inside a part of its division or it divides the division as well. Where a
character is put in place of each part, only places of the second kind are left, and what is next to
them is the same as before, or it is that character where a part was.
-/
namespace AskMetrics.Text

namespace Division
variable {d e f : Division} {u v : Char} {x y w : List Char}

theorem parts_append (d e : Division) : (d.append e).parts = d.parts ++ e.parts := by
  induction d <;> simp_all [append, parts]

theorem append_assoc (d e f : Division) : (d.append e).append f = d.append (e.append f) := by
  induction d <;> simp_all [append]

/-- A place of a divided text divides the division, or it lies inside a part. -/
theorem exists_append_or_inside (h : d.text = x ++ y) :
    (∃ e f : Division, d = e.append f ∧ e.text = x ∧ f.text = y) ∨
      ∃ (e : Division) (w₁ w₂ : List Char) (f : Division), w₁ ≠ [] ∧ w₂ ≠ [] ∧
        d = e.append (.part (w₁ ++ w₂) f) ∧ x = e.text ++ w₁ ∧ y = w₂ ++ f.text := by
  induction d generalizing x with
  | nil =>
    obtain ⟨rfl, rfl⟩ := List.append_eq_nil_iff.mp h.symm
    exact .inl ⟨nil, nil, rfl, rfl, rfl⟩
  | keep u d ih =>
    cases x with
    | nil => exact .inl ⟨nil, _, rfl, rfl, h⟩
    | cons u' x =>
      obtain ⟨rfl, htail⟩ := List.cons.inj h
      rcases ih htail with ⟨e, f, rfl, rfl, rfl⟩ | ⟨e, w₁, w₂, f, h₁, h₂, rfl, rfl, rfl⟩
      · exact .inl ⟨keep u e, f, rfl, rfl, rfl⟩
      · exact .inr ⟨keep u e, w₁, w₂, f, h₁, h₂, rfl, rfl, rfl⟩
  | part w d ih =>
    rcases List.append_eq_append_iff.mp h with ⟨z, rfl, htail⟩ | ⟨z, rfl, rfl⟩
    · rcases ih htail with ⟨e, f, rfl, rfl, rfl⟩ | ⟨e, w₁, w₂, f, h₁, h₂, rfl, rfl, rfl⟩
      · exact .inl ⟨part w e, f, rfl, rfl, rfl⟩
      · exact .inr ⟨part w e, w₁, w₂, f, h₁, h₂, rfl, by simp [text], rfl⟩
    · by_cases hx : x = []
      · exact .inl ⟨nil, _, rfl, hx.symm, by simp [text, hx]⟩
      · by_cases hz : z = []
        · exact .inl ⟨part (x ++ z) nil, d, rfl, by simp [text, hz], by simp [hz]⟩
        · exact .inr ⟨nil, x, z, d, hx, hz, rfl, rfl, rfl⟩

/-- With a character in place of each part, all places divide the division. -/
theorem exists_append_of_put (h : (d.put [v]).text = x ++ y) :
    ∃ e f : Division, d = e.append f ∧ (e.put [v]).text = x ∧ (f.put [v]).text = y := by
  induction d generalizing x with
  | nil =>
    obtain ⟨rfl, rfl⟩ := List.append_eq_nil_iff.mp h.symm
    exact ⟨nil, nil, rfl, rfl, rfl⟩
  | keep u d ih =>
    cases x with
    | nil => exact ⟨nil, _, rfl, rfl, h⟩
    | cons u' x =>
      obtain ⟨rfl, htail⟩ := List.cons.inj h
      obtain ⟨e, f, rfl, rfl, rfl⟩ := ih htail
      exact ⟨keep u e, f, rfl, rfl, rfl⟩
  | part w d ih =>
    cases x with
    | nil => exact ⟨nil, _, rfl, rfl, h⟩
    | cons u' x =>
      obtain ⟨rfl, htail⟩ := List.cons.inj h
      obtain ⟨e, f, rfl, rfl, rfl⟩ := ih htail
      exact ⟨part w e, f, rfl, rfl, rfl⟩

/-- A text without that character is a stretch without parts. -/
theorem exists_keepAll_of_put (hx : v ∉ x) (h : (d.put [v]).text = x ++ y) :
    ∃ f, d = keepAll x f ∧ (f.put [v]).text = y := by
  induction x generalizing d with
  | nil => exact ⟨d, rfl, h⟩
  | cons u x ih =>
    cases d with
    | nil => simp [put, text] at h
    | keep u' d =>
      obtain ⟨rfl, htail⟩ := List.cons.inj h
      obtain ⟨f, rfl, hf⟩ := ih (fun hv => hx (.tail _ hv)) htail
      exact ⟨f, rfl, hf⟩
    | part w d =>
      obtain ⟨rfl, -⟩ := List.cons.inj h
      exact absurd (.head _) hx

/-- A division ends in a character outside the parts or in a part. -/
theorem exists_last (d : Division) :
    d = nil ∨ (∃ (e : Division) (u : Char), d = e.append (keep u nil)) ∨
      ∃ (e : Division) (w : List Char), d = e.append (part w nil) := by
  induction d with
  | nil => exact .inl rfl
  | keep u d ih =>
    right
    rcases ih with rfl | ⟨e, u', rfl⟩ | ⟨e, w, rfl⟩
    · exact .inl ⟨nil, u, rfl⟩
    · exact .inl ⟨keep u e, u', rfl⟩
    · exact .inr ⟨keep u e, w, rfl⟩
  | part w d ih =>
    right
    rcases ih with rfl | ⟨e, u', rfl⟩ | ⟨e, w', rfl⟩
    · exact .inr ⟨nil, w, rfl⟩
    · exact .inl ⟨part w e, u', rfl⟩
    · exact .inr ⟨part w e, w', rfl⟩

/-- The last character stays, unless it is that of a part. -/
theorem getLast?_put (hne : ∀ w ∈ d.parts, w ≠ []) :
    (d.put [v]).text.getLast? = d.text.getLast? ∨
      (d.put [v]).text.getLast? = some v ∧ ∃ w ∈ d.parts, d.text.getLast? = w.getLast? := by
  rcases d.exists_last with rfl | ⟨e, u, rfl⟩ | ⟨e, w, rfl⟩
  · exact .inl rfl
  · exact .inl (by simp [put, text])
  · have hmem : w ∈ (e.append (part w nil)).parts := by simp [parts_append, parts]
    refine .inr ⟨by simp [put, text], w, hmem, ?_⟩
    rw [text_append, text, text, List.append_nil, List.getLast?_append_of_ne_nil _ (hne w hmem)]

/-- The first character stays, unless it is that of a part. -/
theorem head?_put (d : Division) :
    (d.put [v]).text.head? = d.text.head? ∨
      (d.put [v]).text.head? = some v ∧ ∃ w e, d = part w e := by
  cases d with
  | nil => exact .inl rfl
  | keep u d => exact .inl rfl
  | part w d => exact .inr ⟨rfl, w, d, rfl⟩

/-- A text that has nothing that all parts have has no parts. -/
theorem parts_eq_nil {P : Char → Prop} (hparts : ∀ w ∈ d.parts, ∃ u ∈ w, ¬ P u)
    (htext : ∀ u ∈ d.text, P u) : d.parts = [] := by
  rw [List.eq_nil_iff_forall_not_mem]
  intro w hw
  obtain ⟨u, hu, hnot⟩ := hparts w hw
  exact hnot (htext u ((d.infix_text_of_mem_parts hw).subset hu))

theorem eq_keepAll_of_parts_eq_nil (h : d.parts = []) : d = keepAll d.text nil := by
  induction d with
  | nil => rfl
  | keep u d ih =>
    rw [text, keepAll, ← ih h]
  | part w d _ => simp [parts] at h

/-- A text of a class that no part begins in is a stretch without parts. -/
theorem exists_keepAll {p : Char → Bool} (hx : ∀ u ∈ x, p u = true)
    (hparts : ∀ w ∈ d.parts, ∃ u ∈ w.head?, p u = false) (h : d.text = x ++ y) :
    ∃ f : Division, d = keepAll x f ∧ f.text = y := by
  induction x generalizing d with
  | nil => exact ⟨d, rfl, h⟩
  | cons u x ih =>
    cases d with
    | nil => simp [text] at h
    | keep u' d =>
      obtain ⟨rfl, htail⟩ := List.cons.inj h
      obtain ⟨f, rfl, hf⟩ := ih (d := d) (fun v hv => hx v (.tail _ hv)) hparts htail
      exact ⟨f, rfl, hf⟩
    | part w d =>
      obtain ⟨v, hv, hnot⟩ := hparts w (.head _)
      obtain ⟨z, rfl⟩ := List.head?_eq_some_iff.mp hv
      obtain ⟨rfl, -⟩ := List.cons.inj h
      simp [hx v (.head _)] at hnot

/-- A text of a class that no part ends in is a stretch without parts. -/
theorem exists_append_keepAll {p : Char → Bool} (hy : ∀ u ∈ y, p u = true)
    (hparts : ∀ w ∈ d.parts, ∃ u ∈ w.getLast?, p u = false) (h : d.text = x ++ y) :
    ∃ e : Division, d = e.append (keepAll y nil) ∧ e.text = x := by
  rcases exists_append_or_inside h with ⟨e, f, rfl, rfl, rfl⟩ | ⟨e, w₁, w₂, f, -, h₂, rfl, -, rfl⟩
  · refine ⟨e, ?_, rfl⟩
    rw [← eq_keepAll_of_parts_eq_nil]
    refine parts_eq_nil (P := fun u => p u = true) (fun w hw => ?_) hy
    obtain ⟨u, hu, hnot⟩ := hparts w (by simp [parts_append, hw])
    exact ⟨u, List.mem_of_getLast? hu, by simp [hnot]⟩
  · obtain ⟨u, hu, hnot⟩ := hparts (w₁ ++ w₂) (by simp [parts_append, parts])
    rw [List.getLast?_append_of_ne_nil _ h₂] at hu
    simp [hy u (List.mem_append_left _ (List.mem_of_getLast? hu))] at hnot

theorem put_eq_of_parts_eq_nil (h : d.parts = []) (y : List Char) : d.put y = d :=
  put_eq_self (by simp [h])

/-- What of a class stands at the end stays there, if neither the ends of the parts nor what is put
in place of them are of the class. -/
theorem suffix_put_iff {p : Char → Bool} (hx : ∀ u ∈ x, p u = true) (hv : p v = false)
    (hparts : ∀ w ∈ d.parts, ∃ z u, w = z ++ [u] ∧ p u = false) :
    x <:+ (d.put [v]).text ↔ x <:+ d.text := by
  induction d with
  | nil => rfl
  | keep u d ih =>
    have hwhole : x = u :: (d.put [v]).text ↔ x = u :: d.text := by
      -- without a part both texts are the same, and with one neither is of the class
      by_cases hnil : d.parts = []
      · rw [put_eq_of_parts_eq_nil hnil]
      · obtain ⟨w, ws, hws⟩ := List.exists_cons_of_ne_nil hnil
        have hmem : w ∈ d.parts := by simp [hws]
        obtain ⟨z, u', rfl, hu'⟩ := hparts w hmem
        have hold : u' ∈ d.text := (d.infix_text_of_mem_parts hmem).subset (by simp)
        have hnew : v ∈ (d.put [v]).text :=
          ((d.put [v]).infix_text_of_mem_parts (by simp [parts_put, hws])).subset
            (List.mem_singleton.mpr rfl)
        constructor
        · rintro rfl
          simp [hx v (.tail _ hnew)] at hv
        · rintro rfl
          simp [hx u' (.tail _ hold)] at hu'
    rw [put, text, text, List.suffix_cons_iff, List.suffix_cons_iff, hwhole, ih hparts]
  | part w d ih =>
    obtain ⟨⟨z, u, rfl, hu⟩, hlater⟩ := List.forall_mem_cons.mp hparts
    have hbehind : ∀ (u : Char) (s : List Char), p u = false →
        (x <:+ u :: s ↔ x <:+ s) := by
      intro u s hu
      rw [List.suffix_cons_iff]
      refine or_iff_right fun heq => ?_
      simp [hx u (heq ▸ .head _)] at hu
    have hpart : x <:+ z ++ [u] ++ d.text ↔ x <:+ d.text := by
      rw [List.append_assoc, List.singleton_append]
      constructor
      · intro h
        rcases List.suffix_or_suffix_of_suffix h (List.suffix_append z _) with hin | hlong
        · exact (hbehind u _ hu).mp hin
        · simp [hx u (hlong.subset (.head _))] at hu
      · intro h
        exact h.trans ((List.suffix_cons u _).trans (List.suffix_append z _))
    rw [put, text, text, List.singleton_append, hbehind v _ hv, hpart, ih hlater]

end Division

theorem Divided.of_part {K : List Char → List Char → Prop} {b s w : List Char} {d : Division}
    (h : Divided K b s (.part w d)) : K b w := by
  cases h with
  | part hw => exact hw

/-- Where a part of a definite kind stands at the start, the division starts with it. -/
theorem Divided.exists_part {K : List Char → List Char → Prop} (hK : Definite K)
    {b w a : List Char} {d : Division} (h : Divided K b (w ++ a) d) (hw : K b w) :
    ∃ f, d = .part w f := by
  obtain ⟨f, hf⟩ := exists_divided hK (w.reverse ++ b) a
  exact ⟨f, h.unique hK (.part hw hf)⟩

/-- The text behind a place is divided as it is. -/
theorem Divided.of_append {K : List Char → List Char → Prop} {b s : List Char} {e f : Division}
    (h : Divided K b s (e.append f)) : Divided K (e.text.reverse ++ b) f.text f := by
  induction e generalizing b s with
  | nil =>
    have htext := h.text_eq
    rw [Division.append] at h htext
    simpa [Division.text, htext] using h
  | keep u e ih =>
    rw [Division.append] at h
    cases h with
    | keep _ rest => simpa [Division.text] using ih rest
  | part w e ih =>
    rw [Division.append] at h
    cases h with
    | part _ rest => simpa [Division.text] using ih rest

/-- So is the text behind a stretch without parts. -/
theorem Divided.of_keepAll {K : List Char → List Char → Prop} {b s x : List Char} {d : Division}
    (h : Divided K b s (.keepAll x d)) : Divided K (x.reverse ++ b) d.text d := by
  have hsplit : Division.keepAll x d = (Division.keepAll x .nil).append d := by
    clear h
    induction x <;> simp_all [Division.keepAll, Division.append]
  rw [hsplit] at h
  simpa [Division.text] using h.of_append

end AskMetrics.Text
