import AskMetrics.Proofs.Text.Exchange

/-!
# What a text mentions

A text mentions a marker when the marker is a part of it. When parts of a text are cut short and
something else is put in place of what is cut off, the new text can mention what the old one did
not: inside of what is put in, or by what is put in together with the text around it. It does not
when what is put in is foreign to the marker.
-/
namespace AskMetrics.Text

theorem mentions_iff {m s : List Char} : mentions m s = true ↔ m <:+: s := by
  induction s with
  | nil => simp [mentions]
  | cons u s ih => simp [mentions, ih, List.infix_cons_iff]

/-- A marker does not lie across a place with something next to it that the marker does not have. -/
theorem infix_append_iff_of_not_mem {m x y : List Char}
    (h : (∀ u ∈ x.getLast?, u ∉ m) ∨ ∀ u ∈ y.head?, u ∉ m) :
    m <:+: x ++ y ↔ m <:+: x ∨ m <:+: y := by
  constructor
  · intro hin
    rcases List.infix_append_iff_ne_nil.mp hin with
      hin | hin | ⟨front, back, hfront, hback, rfl, ⟨z, rfl⟩, z', rfl⟩
    · exact .inl hin
    · exact .inr hin
    · rcases h with h | h
      · rw [List.getLast?_append_of_ne_nil _ hfront, List.getLast?_eq_some_getLast hfront] at h
        exact absurd (List.mem_append_left _ (List.getLast_mem hfront)) (h _ rfl)
      · rw [List.head?_append_of_ne_nil _ hback, List.head?_eq_some_head hback] at h
        exact absurd (List.mem_append_right _ (List.head_mem hback)) (h _ rfl)
  · rintro (hin | hin)
    · exact hin.trans List.infix_append_left
    · exact hin.trans List.infix_append_right

/-- A text `z` that the marker `m` has nothing to do with, whatever stands around it. -/
structure Foreign (m z : List Char) : Prop where
  /-- The marker is not inside. -/
  strange : ∃ u ∈ m, u ∉ z
  /-- The marker does not begin inside and go on behind. -/
  closed : ∃ u ∈ z.getLast?, u ∉ m
  /-- The marker does not begin before and go on inside: no rest of it is in front of some character
  that it does not have. -/
  apart : ∃ x u y, z = x ++ u :: y ∧ u ∉ m ∧ ∀ rest, rest <:+ m → rest <+: x → rest = []

/-- `y` is a front of `x` with something foreign to the marker put behind it. -/
def CutShort (m x y : List Char) : Prop := ∃ k r z, x = k ++ r ∧ y = k ++ z ∧ Foreign m z

section
variable {m z y s t : List Char}

/-- No rest of the marker is at the front of a foreign text. -/
theorem Foreign.not_prefix (h : Foreign m z) (hy : y <:+ m) (hne : y ≠ []) (a : List Char) :
    ¬ y <+: z ++ a := by
  obtain ⟨x, u, w, rfl, hu, hnone⟩ := h.apart
  have hshort : ¬ y <+: x := fun hpre => hne (hnone y hy hpre)
  rintro ⟨b, hb⟩
  rw [List.append_assoc, List.append_eq_append_iff] at hb
  rcases hb with ⟨c, rfl, -⟩ | ⟨c, rfl, hc⟩
  · exact hshort ⟨c, rfl⟩
  · cases c with
    | nil => exact hshort (by simp)
    | cons v c =>
      obtain ⟨rfl, -⟩ := List.cons.inj hc
      exact hu (hy.subset (by simp))

/-- Around a foreign text, a marker is before it or behind it. -/
theorem Foreign.infix_append_iff {x : List Char} (h : Foreign m z) :
    m <:+: x ++ (z ++ y) ↔ m <:+: x ∨ m <:+: y := by
  constructor
  · intro hin
    rcases List.infix_append_iff_ne_nil.mp hin with
      hin | hin | ⟨front, back, -, hback, hsplit, -, hpre⟩
    · exact .inl hin
    · rcases List.infix_append_iff_ne_nil.mp hin with
        hin | hin | ⟨front, back, hfront, -, hsplit, ⟨w, rfl⟩, -⟩
      · obtain ⟨u, hu, hnot⟩ := h.strange
        exact absurd (hin.subset hu) hnot
      · exact .inr hin
      · obtain ⟨u, hu, hnot⟩ := h.closed
        rw [List.getLast?_append_of_ne_nil _ hfront] at hu
        exact absurd (by simp [hsplit, List.mem_of_getLast? hu]) hnot
    · exact absurd hpre (h.not_prefix ⟨front, hsplit.symm⟩ hback y)
  · rintro (hin | hin)
    · exact hin.trans List.infix_append_left
    · exact hin.trans (List.infix_append_right.trans List.infix_append_right)

/-- Behind a text that a marker is not inside of and does not begin in. -/
theorem infix_append_iff_of_not_begins {x : List Char} (hin : ¬ m <:+: x)
    (hbegin : ∀ front, front <+: m → front <:+ x → front = []) : m <:+: x ++ y ↔ m <:+: y := by
  refine ⟨fun h => ?_, fun h => h.trans List.infix_append_right⟩
  rcases List.infix_append_iff_ne_nil.mp h with h | h | ⟨front, back, hne, -, hsplit, hsuffix, -⟩
  · exact absurd h hin
  · exact h
  · exact absurd (hbegin front ⟨back, hsplit.symm⟩ hsuffix) hne

namespace Exchanged

/-- What is at the front of the new text and a rest of the marker was at the front before. -/
theorem front_of_front (h : Exchanged (CutShort m) s t) (hy : y <:+ m) (hpre : y <+: t) :
    y <+: s := by
  induction h generalizing y with
  | nil => exact hpre
  | keep u _ ih =>
    cases y with
    | nil => simp
    | cons v y =>
      obtain ⟨rfl, hrest⟩ := List.cons_prefix_cons.mp hpre
      exact List.cons_prefix_cons.mpr ⟨rfl, ih ((List.suffix_cons v y).trans hy) hrest⟩
  | swap hxy _ _ =>
    obtain ⟨k, r, z, rfl, rfl, hforeign⟩ := hxy
    obtain ⟨b, hb⟩ := hpre
    rw [List.append_assoc, List.append_eq_append_iff] at hb
    rcases hb with ⟨c, rfl, -⟩ | ⟨c, rfl, hc⟩
    · simp
    · cases c with
      | nil => simp
      | cons v c =>
        have hrest : v :: c <:+ m := (List.suffix_append k _).trans hy
        exact absurd ⟨b, hc.symm⟩ (hforeign.not_prefix hrest (by simp) _)

/-- A marker in the new text was in the old one: where it begins in a part that was cut short, it
ends before the cut. -/
theorem infix_of_infix (h : Exchanged (CutShort m) s t) (hm : m <:+: t) : m <:+: s := by
  induction h with
  | nil => exact hm
  | @keep u s t rest ih =>
    rcases List.infix_cons_iff.mp hm with hpre | hm
    · exact ((keep u rest).front_of_front (List.suffix_refl m) hpre).isInfix
    · exact List.infix_cons_iff.mpr (.inr (ih hm))
  | @swap x y s t hxy _ ih =>
    obtain ⟨k, r, z, rfl, rfl, hforeign⟩ := hxy
    rw [List.append_assoc, List.infix_append_iff_ne_nil] at hm
    rcases hm with hin | hin | ⟨front, back, -, hback, hsplit, -, hpre⟩
    · exact hin.trans ⟨[], r ++ s, by simp⟩
    · rcases List.infix_append_iff_ne_nil.mp hin with
        hin | hin | ⟨front, back, hfront, -, hsplit, hsuffix, -⟩
      · obtain ⟨u, hu, hnot⟩ := hforeign.strange
        exact absurd (hin.subset hu) hnot
      · exact (ih hin).trans List.infix_append_right
      · obtain ⟨u, hu, hnot⟩ := hforeign.closed
        obtain ⟨w, rfl⟩ := hsuffix
        rw [List.getLast?_append_of_ne_nil _ hfront] at hu
        exact absurd (by simp [hsplit, List.mem_of_getLast? hu]) hnot
    · exact absurd hpre (hforeign.not_prefix ⟨front, hsplit.symm⟩ hback t)

/-- An exchange in a text that is written out character by character. -/
theorem flatMap {B B' : List Char → List Char → Prop} {f : Char → List Char}
    (hB : ∀ x y, B x y → B' (x.flatMap f) (y.flatMap f)) (h : Exchanged B s t) :
    Exchanged B' (s.flatMap f) (t.flatMap f) := by
  induction h with
  | nil => exact .nil
  | keep u _ ih => exact (refl (f u)).append ih
  | swap hxy _ ih => simpa using swap (hB _ _ hxy) ih

end Exchanged

end

end AskMetrics.Text
