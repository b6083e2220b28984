import AskMetrics.Json.Reader
import Mathlib.Data.List.Basic

/-!
# Strings read back

A string written in quotes is read back as the same string, whatever characters it is made of. Each
character is written as one escape or as itself and gives one unit back, which is the character's
code. Codes of characters are never halves of a surrogate pair, so the units are a text again.
-/
namespace AskMetrics.Json

/-! ## Hexadecimal digits -/

theorem hexValue?_hexDigit : ∀ n < 16, hexValue? (hexDigit n) = some n := by
  decide

theorem readHex4_hex4 {n : Nat} (hn : n < 65536) (rest : List Char) :
    readHex4 (hex4 n ++ rest) = some (n, rest) := by
  have hdigit (m : Nat) : hexValue? (hexDigit (m % 16)) = some (m % 16) :=
    hexValue?_hexDigit _ (Nat.mod_lt _ (by decide))
  simp only [hex4, List.cons_append, List.nil_append, readHex4, hdigit, Option.bind_eq_bind,
    Option.bind_some, Option.pure_def, Option.some.injEq, Prod.mk.injEq, and_true]
  omega

/-! ## Units -/

section
variable {fuel : Nat} {units : List Nat} {rest : List Char}

theorem readUnits_of_plain {c : Char} (hquote : c ≠ '"') (hback : c ≠ '\\')
    (hprint : ¬ c.toNat < 0x20) :
    readUnits (fuel + 1) units (c :: rest) = readUnits fuel (c.toNat :: units) rest := by
  have hplain : (c == '\\' || decide (c.toNat < 0x20)) = false := by simp [hback, hprint]
  rw [readUnits, hplain]
  · rfl
  all_goals simp_all

/-- A written character takes one step and adds its code. -/
theorem readUnits_escape (c : Char) :
    readUnits (fuel + 1) units (escape c ++ rest) = readUnits fuel (c.toNat :: units) rest := by
  unfold escape
  split_ifs with hquote hback hline hreturn htab hbell hfeed hcontrol
  -- A control character without a letter of its own is written as four digits.
  on_goal 8 =>
    have hread := readHex4_hex4 (n := c.toNat) (by omega) rest
    simp only [List.cons_append, readUnits, hread]
  on_goal 8 =>
    exact readUnits_of_plain (by simpa using hquote) (by simpa using hback) hcontrol
  all_goals
    simp only [beq_iff_eq] at *
    subst c
    rfl

theorem readUnits_flatMap_escape (cs : List Char) (hfuel : cs.length < fuel) :
    readUnits fuel units (cs.flatMap escape ++ '"' :: rest) =
      some (units.reverse ++ cs.map Char.toNat, rest) := by
  induction cs generalizing fuel units with
  | nil =>
    obtain ⟨fuel, rfl⟩ := Nat.exists_eq_add_one.mpr hfuel
    simp [readUnits]
  | cons c cs ih =>
    obtain ⟨fuel, rfl⟩ := Nat.exists_eq_add_one.mpr (Nat.zero_lt_of_lt hfuel)
    rw [List.flatMap_cons, List.append_assoc, readUnits_escape, ih (by simpa using hfuel)]
    simp

end

/-- A character is no half of a surrogate pair. -/
theorem not_surrogate (c : Char) : isLeading c.toNat = false ∧ isTrailing c.toNat = false := by
  have hvalid : c.toNat < 0xD800 ∨ 0xDFFF < c.toNat ∧ c.toNat < 0x110000 := c.valid
  simp only [isLeading, isTrailing, Bool.and_eq_false_iff, decide_eq_false_iff_not]
  omega

theorem ofUnits_cons (c : Char) (units : List Nat) (text : List Char) :
    ofUnits (c.toNat :: units) text = ofUnits units (c :: text) := by
  obtain ⟨hleading, htrailing⟩ := not_surrogate c
  cases units <;> simp [ofUnits, hleading, htrailing, Char.ofNat_toNat]

theorem ofUnits_map_toNat (cs text : List Char) :
    ofUnits (cs.map Char.toNat) text = some (text.reverse ++ cs) := by
  induction cs generalizing text with
  | nil => simp [ofUnits]
  | cons c cs ih => simp [ofUnits_cons, ih]

/-! ## Strings -/

theorem length_le_length_flatMap_escape (cs : List Char) :
    cs.length ≤ (cs.flatMap escape).length := by
  induction cs with
  | nil => simp
  | cons c cs ih =>
    have hone : 1 ≤ (escape c).length := by
      unfold escape
      split_ifs <;> simp
    simp only [List.flatMap_cons, List.length_append, List.length_cons]
    omega

/-- What is written between quotes is read back. -/
theorem readString_flatMap_escape (s : String) (rest : List Char) :
    readString (s.toList.flatMap escape ++ '"' :: rest) = some (some s, rest) := by
  have hlength := length_le_length_flatMap_escape s.toList
  rw [readString, readUnits_flatMap_escape s.toList (by simp only [List.length_append]; omega)]
  simp [ofUnits_map_toNat, String.ofList_toList]

theorem toList_quoted (s : String) :
    (quoted s).toList = '"' :: (s.toList.flatMap escape ++ ['"']) := by
  simp [quoted]

end AskMetrics.Json
