import AskMetrics.Proofs.Text.Word
import AskMetrics.Text.Case
import Mathlib.Data.List.Forall2

/-!
# Letters and their case

A letter of a pattern that ignores case stands for its two ASCII forms, and two letters for one more
character each. So which characters such a pattern reads can be decided letter by letter.
-/
namespace AskMetrics.Text

/-- Lowering as arithmetic on code points. -/
theorem toNat_toLower (c : Char) :
    c.toLower.toNat = if 65 ≤ c.toNat ∧ c.toNat ≤ 90 then c.toNat + 32 else c.toNat := by
  unfold Char.toLower
  simp only [UInt32.le_iff_toNat_le, ge_iff_le]
  split_ifs with h h' h'
  · change (c.val + 32).toNat = c.toNat + 32
    have hval : c.toNat = c.val.toNat := rfl
    rw [UInt32.toNat_add, hval]
    change (c.val.toNat + 32) % 4294967296 = c.val.toNat + 32
    omega
  · exact absurd h h'
  · exact absurd h' h
  · rfl

/-- The characters whose lower case is a given lower-case letter: the letter and its capital. -/
theorem toLower_eq_iff {letter capital c : Char} (hlow : 97 ≤ letter.toNat)
    (hhigh : letter.toNat ≤ 122) (hcapital : capital.toNat + 32 = letter.toNat) :
    c.toLower = letter ↔ c = letter ∨ c = capital := by
  rw [← Char.toNat_inj, ← Char.toNat_inj, ← Char.toNat_inj, toNat_toLower]
  split_ifs <;> omega

/-- What lowers to lower-case letters has letters only. -/
theorem isAlpha_of_lowerAscii {x letters : List Char} (h : lowerAscii x = letters)
    (hletters : (letters.all fun u => 97 ≤ u.toNat ∧ u.toNat ≤ 122) = true) :
    ∀ u ∈ x, u.isAlpha = true := by
  intro u hu
  have hrange := List.all_eq_true.mp hletters u.toLower (h ▸ List.mem_map_of_mem hu)
  rw [decide_eq_true_eq, toNat_toLower] at hrange
  rw [isAlpha_iff]
  split_ifs at hrange <;> omega

/-- A character that is read for a letter is of no class without capitals that the letter is not
of. -/
theorem of_sameLetter {f : Char → Bool} {letter u : Char}
    (hf : ∀ v, f v = true → ¬ (65 ≤ v.toNat ∧ v.toNat ≤ 90)) (hs : f '\u017f' = false)
    (hk : f '\u212a' = false) (h : sameLetter letter u = true) (hu : f u = true) :
    f letter = true := by
  have hlower : u.toLower = u := by rw [← Char.toNat_inj, toNat_toLower, if_neg (hf u hu)]
  simp only [sameLetter, Bool.or_eq_true, Bool.and_eq_true, beq_iff_eq, hlower] at h
  rcases h with (rfl | ⟨-, rfl⟩) | ⟨-, rfl⟩
  · exact hu
  · simp [hs] at hu
  · simp [hk] at hu

/-- A character of a class without capitals is its own lower case. -/
theorem lowerChar_eq_self {f : Char → Bool} {u : Char}
    (hf : ∀ v, f v = true → ¬ (65 ≤ v.toNat ∧ v.toNat ≤ 90)) (hk : f '\u212a' = false)
    (hi : f '\u0130' = false) (hu : f u = true) : lowerChar u = [u] := by
  have hne : ∀ v, f v = false → (u == v) = false := by
    intro v hv
    rw [beq_eq_false_iff_ne]
    rintro rfl
    simp [hu] at hv
  have hlower : u.toLower = u := by rw [← Char.toNat_inj, toNat_toLower, if_neg (hf u hu)]
  rw [lowerChar, hne _ hk, hne _ hi, hlower]
  rfl

/-- A text read with case ignored is the lowered one, where the letters that stand for further
characters do not occur. -/
theorem forall₂_sameLetter_iff {letters x : List Char} (hs : 's' ∉ letters) (hk : 'k' ∉ letters) :
    List.Forall₂ (fun letter u => sameLetter letter u = true) letters x ↔
      lowerAscii x = letters := by
  have hsame : ∀ letter ∈ letters, ∀ u, sameLetter letter u = true ↔ u.toLower = letter := by
    intro letter hletter u
    have hne : letter ≠ 's' ∧ letter ≠ 'k' :=
      ⟨fun h => hs (h ▸ hletter), fun h => hk (h ▸ hletter)⟩
    simp [sameLetter, hne.1, hne.2]
  clear hs hk
  induction letters generalizing x with
  | nil => simp [lowerAscii]
  | cons letter letters ih =>
    cases x with
    | nil => simp [lowerAscii]
    | cons u x =>
      have hrest := ih (x := x) fun l hl => hsame l (.tail _ hl)
      simp [hsame letter (.head _) u, hrest, lowerAscii]

end AskMetrics.Text
