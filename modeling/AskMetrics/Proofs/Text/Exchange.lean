import AskMetrics.Proofs.Text.Scan

/-!
# Parts exchanged in a text

A text can be changed at many places at once, each time one part for another. `Exchanged` relates
the text before and the text after, for any rule that says which part may stand for which. What is
read in one of the two texts can be read in the other, as long as nobody stops reading inside an
exchanged part; where that can happen is a matter of the two characters around the place.

## Main definitions

* `Exchanged` : a text, and the same text with some parts exchanged.
* `Steady` : an exchange that keeps the first and the last character of each part.
* `Mirrored` : the same exchange in texts read backwards.
* `Homogeneous` : a class of characters that holds of all of a part or not at its start.
-/
namespace AskMetrics.Text

/-- `t` is `s` with some parts exchanged for others, as `B` allows. -/
inductive Exchanged (B : List Char → List Char → Prop) : List Char → List Char → Prop
  | nil : Exchanged B [] []
  /-- A character that stays. -/
  | keep (u : Char) {s t : List Char} (rest : Exchanged B s t) : Exchanged B (u :: s) (u :: t)
  /-- A part that is exchanged. -/
  | swap {x y s t : List Char} (h : B x y) (rest : Exchanged B s t) :
    Exchanged B (x ++ s) (y ++ t)

/-- An exchange that keeps the first and the last character of each part. -/
structure Steady (B : List Char → List Char → Prop) : Prop where
  ne_nil : ∀ {x y}, B x y → x ≠ []
  head? : ∀ {x y}, B x y → x.head? = y.head?
  getLast? : ∀ {x y}, B x y → x.getLast? = y.getLast?

/-- The exchange of the same parts in texts read backwards. -/
def Mirrored (B : List Char → List Char → Prop) (x y : List Char) : Prop :=
  B x.reverse y.reverse

/-- A class of characters that holds of all of a part, before and after the exchange, or not of its
first character. -/
def Homogeneous (B : List Char → List Char → Prop) (f : Char → Bool) : Prop :=
  ∀ x y, B x y → ((∀ u ∈ x, f u = true) ∧ ∀ u ∈ y, f u = true) ∨ ∀ u ∈ x.head?, f u = false

namespace Steady
variable {B : List Char → List Char → Prop} {x y : List Char}

theorem ne_nil' (hB : Steady B) (h : B x y) : y ≠ [] := by
  have hne := hB.ne_nil h
  have hhead := hB.head? h
  rintro rfl
  exact hne (List.head?_eq_none_iff.mp hhead)

theorem mirrored (hB : Steady B) : Steady (Mirrored B) where
  ne_nil h := by simpa using hB.ne_nil h
  head? h := by simpa using hB.getLast? h
  getLast? h := by simpa using hB.head? h

end Steady

namespace Exchanged
variable {B : List Char → List Char → Prop} {f : Char → Bool} {s t s' t' x y a : List Char}

theorem refl (s : List Char) : Exchanged B s s := by
  induction s with
  | nil => exact .nil
  | cons u s ih => exact .keep u ih

theorem single (h : B x y) : Exchanged B x y := by
  simpa using swap h nil

theorem append (h : Exchanged B s t) (h' : Exchanged B s' t') :
    Exchanged B (s ++ s') (t ++ t') := by
  induction h with
  | nil => exact h'
  | keep u _ ih => exact .keep u ih
  | swap hxy _ ih => simpa using swap hxy ih

theorem symm (hB : ∀ x y, B x y → B y x) (h : Exchanged B s t) : Exchanged B t s := by
  induction h with
  | nil => exact .nil
  | keep u _ ih => exact .keep u ih
  | swap hxy _ ih => exact .swap (hB _ _ hxy) ih

theorem reverse (h : Exchanged B s t) : Exchanged (Mirrored B) s.reverse t.reverse := by
  induction h with
  | nil => exact .nil
  | keep u _ ih => simpa using ih.append (refl [u])
  | @swap x y _ _ hxy _ ih =>
    have hback : Mirrored B x.reverse y.reverse := by simpa [Mirrored] using hxy
    simpa using ih.append (single hback)

theorem head?_eq (hB : Steady B) (h : Exchanged B s t) : s.head? = t.head? := by
  cases h with
  | nil | keep => rfl
  | swap hxy _ =>
    obtain ⟨u, x, rfl⟩ := List.exists_cons_of_ne_nil (hB.ne_nil hxy)
    obtain ⟨v, y, rfl⟩ := List.exists_cons_of_ne_nil (hB.ne_nil' hxy)
    simpa using hB.head? hxy

theorem getLast?_eq (hB : Steady B) (h : Exchanged B s t) : s.getLast? = t.getLast? := by
  simpa using h.reverse.head?_eq hB.mirrored

theorem eq_nil_iff (hB : Steady B) (h : Exchanged B s t) : s = [] ↔ t = [] := by
  rw [← List.head?_eq_none_iff, h.head?_eq hB, List.head?_eq_none_iff]

/-- A character that starts no part stays. -/
theorem cons_inv {u : Char} (hB : Steady B) (hu : ∀ x y, B x y → x.head? ≠ some u)
    (h : Exchanged B (u :: s) t) : ∃ t', t = u :: t' ∧ Exchanged B s t' := by
  generalize hw : u :: s = w at h
  cases h with
  | nil => simp at hw
  | keep v rest =>
    obtain ⟨rfl, rfl⟩ := by simpa using hw
    exact ⟨_, rfl, rest⟩
  | swap hxy rest =>
    obtain ⟨v, x, rfl⟩ := List.exists_cons_of_ne_nil (hB.ne_nil hxy)
    obtain ⟨rfl, -⟩ := by simpa using hw
    exact absurd rfl (hu _ _ hxy)

/-- A text without a character that starts a part stays. -/
theorem append_inv (hB : Steady B) (hx : ∀ u ∈ x, ∀ p q, B p q → p.head? ≠ some u)
    (h : Exchanged B (x ++ s) t) : ∃ t', t = x ++ t' ∧ Exchanged B s t' := by
  induction x generalizing t with
  | nil => exact ⟨t, rfl, h⟩
  | cons u x ih =>
    obtain ⟨t', rfl, hrest⟩ := h.cons_inv hB (hx u (.head _))
    obtain ⟨t'', rfl, hafter⟩ := ih (fun v hv => hx v (.tail _ hv)) hrest
    exact ⟨t'', rfl, hafter⟩

/-- What is kept of the parts is kept of the texts. -/
theorem filter_eq (hf : ∀ x y, B x y → x.filter f = y.filter f) (h : Exchanged B s t) :
    s.filter f = t.filter f := by
  induction h with
  | nil => rfl
  | keep u _ ih => simp [List.filter_cons, ih]
  | swap hxy _ ih => simp [hf _ _ hxy, ih]

/-- What holds of all characters, also of those in the parts that come in, holds afterwards. -/
theorem forall_mem {P : Char → Prop} (hP : ∀ x y, B x y → ∀ u ∈ y, P u) (h : Exchanged B s t)
    (hs : ∀ u ∈ s, P u) : ∀ u ∈ t, P u := by
  induction h with
  | nil => exact hs
  | keep u _ ih =>
    exact List.forall_mem_cons.mpr ⟨hs u (.head _), ih fun v hv => hs v (.tail _ hv)⟩
  | swap hxy _ ih =>
    exact List.forall_mem_append.mpr ⟨hP _ _ hxy, ih fun v hv => hs v (List.mem_append_right _ hv)⟩

/-- If the parts bring in no characters but those of `z`, neither does the exchange. -/
theorem subset {z : List Char} (h : Exchanged (fun x y => y ⊆ x ++ z) s t) : t ⊆ s ++ z := by
  induction h with
  | nil => exact List.nil_subset _
  | keep u _ ih => exact List.cons_subset_cons u ih
  | @swap x y s t hxy _ ih =>
    refine List.append_subset.mpr ⟨fun u hu => ?_, fun u hu => ?_⟩
    · have hmem := hxy hu
      simp only [List.mem_append] at hmem ⊢
      tauto
    · have hmem := ih hu
      simp only [List.mem_append] at hmem ⊢
      tauto

/-! ## Runs of a class -/

/-- The run at the start of a text, and what comes after it. -/
theorem takeWhile_dropWhile (hB : Steady B) (hf : Homogeneous B f) (h : Exchanged B s t) :
    Exchanged B (s.takeWhile f) (t.takeWhile f) ∧ Exchanged B (s.dropWhile f) (t.dropWhile f) := by
  induction h with
  | nil => exact ⟨.nil, .nil⟩
  | keep u rest ih =>
    by_cases hu : f u = true
    · simpa [hu] using ⟨keep u ih.1, ih.2⟩
    · simpa [hu] using ⟨nil, keep u rest⟩
  | @swap x y s t hxy rest ih =>
    rcases hf x y hxy with ⟨hx, hy⟩ | hx
    · rw [List.takeWhile_append_of_pos hx, List.takeWhile_append_of_pos hy,
        List.dropWhile_append_of_pos hx, List.dropWhile_append_of_pos hy]
      exact ⟨swap hxy ih.1, ih.2⟩
    · have hall := swap hxy rest
      have hhead := hB.head? hxy
      obtain ⟨u, x, rfl⟩ := List.exists_cons_of_ne_nil (hB.ne_nil hxy)
      obtain ⟨v, y, rfl⟩ := List.exists_cons_of_ne_nil (hB.ne_nil' hxy)
      obtain rfl : u = v := by simpa using hhead
      simpa [hx u rfl] using ⟨nil, hall⟩

theorem takeWhile (hB : Steady B) (hf : Homogeneous B f) (h : Exchanged B s t) :
    Exchanged B (s.takeWhile f) (t.takeWhile f) :=
  (h.takeWhile_dropWhile hB hf).1

theorem dropWhile (hB : Steady B) (hf : Homogeneous B f) (h : Exchanged B s t) :
    Exchanged B (s.dropWhile f) (t.dropWhile f) :=
  (h.takeWhile_dropWhile hB hf).2

/-- A run of a class that no part starts with stays. -/
theorem takeWhile_eq (hB : Steady B) (hf : ∀ x y, B x y → ∀ u ∈ x.head?, f u = false)
    (h : Exchanged B s t) : s.takeWhile f = t.takeWhile f := by
  induction h with
  | nil => rfl
  | keep u _ ih => simp [List.takeWhile_cons, ih]
  | swap hxy _ _ =>
    have hx := hf _ _ hxy
    have hhead := hB.head? hxy
    obtain ⟨u, x, rfl⟩ := List.exists_cons_of_ne_nil (hB.ne_nil hxy)
    obtain ⟨v, y, rfl⟩ := List.exists_cons_of_ne_nil (hB.ne_nil' hxy)
    obtain rfl : u = v := by simpa using hhead
    simp [hx u rfl]

/-! ## Cutting -/

/-- Both texts can be cut at a place whose neighbours are no neighbours inside a part. -/
theorem split {R : Char → Char → Prop} (hB : ∀ x y, B x y → x.IsChain R)
    (h : Exchanged B (x ++ a) t) (hseam : ∀ u ∈ x.getLast?, ∀ v ∈ a.head?, ¬ R u v) :
    ∃ x' a', t = x' ++ a' ∧ Exchanged B x x' ∧ Exchanged B a a' := by
  generalize hw : x ++ a = w at h
  induction h generalizing x with
  | nil =>
    obtain ⟨rfl, rfl⟩ := List.append_eq_nil_iff.mp hw
    exact ⟨[], [], rfl, .nil, .nil⟩
  | @keep u s t rest ih =>
    cases x with
    | nil =>
      obtain rfl : a = u :: s := hw
      exact ⟨[], _, rfl, .nil, .keep u rest⟩
    | cons v x =>
      obtain ⟨rfl, hs⟩ := List.cons.inj hw
      have hlater : ∀ u ∈ x.getLast?, ∀ w ∈ a.head?, ¬ R u w := fun u hu =>
        hseam u (by simp_all [List.getLast?_cons])
      obtain ⟨x', a', rfl, hx, ha⟩ := ih hlater hs
      exact ⟨v :: x', a', rfl, .keep v hx, ha⟩
  | @swap p q s t hpq rest ih =>
    rcases List.append_eq_append_iff.mp hw with ⟨c, hp, rfl⟩ | ⟨c, rfl, rfl⟩
    · -- the place lies inside the part or at one of its edges
      rcases x.eq_nil_or_concat with rfl | ⟨b, u, rfl⟩
      · obtain rfl : p = c := hp
        exact ⟨[], _, rfl, .nil, .swap hpq rest⟩
      · cases c with
        | nil =>
          obtain rfl : p = b.concat u := by simpa using hp
          exact ⟨q, t, rfl, single hpq, rest⟩
        | cons v c =>
          have hchain := hB p q hpq
          rw [hp, List.isChain_append] at hchain
          exact absurd (hchain.2.2 u (by simp) v (by simp)) (hseam u (by simp) v (by simp))
    · obtain ⟨x', a', rfl, hx, ha⟩ := ih (fun u hu => hseam u (by simp_all)) rfl
      exact ⟨q ++ x', a', by simp, .swap hpq hx, ha⟩

end Exchanged

/-! ## Replacing -/

/-- The text that a segment covers. -/
def Segment.text : Segment → List Char
  | plain c => [c]
  | hit m => m.text

/-- The segments of a scan cover the text that is scanned. -/
theorem flatMap_text_scanFrom (parts : List Pattern) (n : Nat) (c : Cursor) :
    (scanFrom parts n c).flatMap Segment.text = c.ahead := by
  induction n generalizing c with
  | zero => simp [scanFrom, List.flatMap_map, Segment.text]
  | succ n ih =>
    obtain ⟨b, a⟩ := c
    cases a with
    | nil => rfl
    | cons u a =>
      have hplain : (Segment.plain u :: scanFrom parts n ⟨u :: b, a⟩).flatMap Segment.text =
          u :: a := by
        simp [List.flatMap_cons, Segment.text, ih]
      rw [scanFrom]
      cases hm : matchAt parts ⟨b, u :: a⟩ with
      | none => simpa [hm] using hplain
      | some m =>
        simp only
        split_ifs
        · rw [List.flatMap_cons, ih, Segment.text]
          exact (reads_of_matchAt hm).2.ahead.symm
        · exact hplain

/-- Replacing all matches exchanges them for what is put in their place. -/
theorem exchanged_replaceAll {B : List Char → List Char → Prop} {parts : List Pattern}
    {replacement : Match → List Char} {s : List Char}
    (hB : ∀ c m, matchAt parts c = some m → B m.text (replacement m)) :
    Exchanged B s (replaceAll parts replacement s) := by
  have hsegments : ∀ segments : List Segment,
      (∀ m, Segment.hit m ∈ segments → B m.text (replacement m)) →
      Exchanged B (segments.flatMap Segment.text) (segments.flatMap fun
        | .plain c => [c]
        | .hit m => replacement m) := by
    intro segments h
    induction segments with
    | nil => exact .nil
    | cons segment segments ih =>
      have hrest := ih fun m hm => h m (.tail _ hm)
      cases segment with
      | plain c => exact .keep c hrest
      | hit m => exact .swap (h m (.head _)) hrest
  have htext := flatMap_text_scanFrom parts s.length (.start s)
  have hall := hsegments (scan parts s) fun m hm => by
    obtain ⟨-, d, -, hmatch⟩ := exists_matchAt_of_hit_mem hm
    exact hB d m hmatch
  rwa [scan, htext] at hall

/-- What replacing all matches by the same text does to the length: what the matches covered goes,
and the text comes in once for each. -/
theorem length_replaceAll (parts : List Pattern) (y s : List Char) :
    (replaceAll parts (fun _ => y) s).length + ((findAll parts s).map Match.text).flatten.length =
      s.length + (findAll parts s).length * y.length := by
  have hsegments : ∀ segments : List Segment,
      (segments.flatMap fun
        | .plain c => [c]
        | .hit _ => y).length +
          ((segments.filterMap Segment.match?).map Match.text).flatten.length =
        (segments.flatMap Segment.text).length +
          (segments.filterMap Segment.match?).length * y.length := by
    intro segments
    induction segments with
    | nil => simp
    | cons segment segments ih =>
      cases segment with
      | plain c =>
        have hnone : (Segment.plain c :: segments).filterMap Segment.match? =
            segments.filterMap Segment.match? := rfl
        simp only [hnone, List.flatMap_cons, Segment.text, List.length_append,
          List.length_singleton]
        omega
      | hit m =>
        have hsome : (Segment.hit m :: segments).filterMap Segment.match? =
            m :: segments.filterMap Segment.match? := rfl
        simp only [hsome, List.flatMap_cons, Segment.text, List.map_cons, List.flatten_cons,
          List.length_append, List.length_cons, Nat.succ_mul]
        omega
  have htext := flatMap_text_scanFrom parts s.length (.start s)
  have hall := hsegments (scan parts s)
  rwa [scan, htext] at hall

end AskMetrics.Text
