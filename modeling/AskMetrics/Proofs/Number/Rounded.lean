import AskMetrics.Number.Decimal
import AskMetrics.Proofs.Text.Case
import Mathlib.Algebra.Order.Field.Power
import Mathlib.Data.Rat.Cast.Order
import Mathlib.Tactic.FieldSimp
import Mathlib.Tactic.Linarith
import Mathlib.Tactic.Ring

/-!
# Natural numbers in floating point

A natural number below 2 ^ 53 has a floating point number of its own, so reading it and multiplying
two such numbers is exact as long as the product is one of them. Beyond that numbers are rounded,
but never below a power of two that they have reached. Both follow from where a fraction lies
between two powers of two, which decides about the unit that it is rounded to.
-/
namespace AskMetrics

theorem twoTo_eq (n : Nat) : twoTo n = 2 ^ n := rfl

namespace Double

/-- The magnitude of a finite number. -/
def value (d : Double) : ℚ := d.significand * 2 ^ d.exponent

/-! ## Fractions and powers of two -/

section
variable {num den : Nat}

/-- A power of two that is spread over numerator and denominator. -/
theorem twoTo_div (e : Int) : (twoTo e.toNat : ℚ) / twoTo (-e).toNat = 2 ^ e := by
  obtain ⟨n, rfl | rfl⟩ := e.eq_nat_or_neg <;> simp [twoTo_eq]

theorem cast_twoTo_pos (n : Nat) : (0 : ℚ) < twoTo n := by
  exact_mod_cast twoTo_pos n

/-- Comparing with a power of two without leaving the natural numbers. -/
theorem mul_twoTo_le_iff (e : Int) :
    den * twoTo e.toNat ≤ num * twoTo (-e).toNat ↔ (den : ℚ) * 2 ^ e ≤ num := by
  have hpos := cast_twoTo_pos (-e).toNat
  rw [← twoTo_div e, ← mul_div_assoc, div_le_iff₀ hpos]
  exact_mod_cast Iff.rfl

theorem two_pow_mul_le_iff (e : Int) (k : Nat) :
    2 ^ k * (den * twoTo e.toNat) ≤ num * twoTo (-e).toNat ↔ (den : ℚ) * 2 ^ (e + k) ≤ num := by
  rw [← Nat.mul_assoc, mul_twoTo_le_iff, zpow_add₀ two_ne_zero, zpow_natCast]
  push_cast
  rw [mul_right_comm, mul_comm ((2 : ℚ) ^ k), mul_comm (_ * _) (den : ℚ), mul_comm ((2 : ℚ) ^ e)]

/-- The powers of two around a fraction. -/
theorem floorLog2_spec (hnum : 0 < num) (hden : 0 < den) :
    (den : ℚ) * 2 ^ floorLog2 num den ≤ num ∧ (num : ℚ) < den * 2 ^ (floorLog2 num den + 1) := by
  have hnum' : ((2 : ℚ) ^ num.log2 ≤ num) ∧ (num : ℚ) < 2 ^ (num.log2 + 1) :=
    ⟨by exact_mod_cast Nat.log2_self_le hnum.ne', by exact_mod_cast Nat.lt_log2_self⟩
  have hden' : ((2 : ℚ) ^ den.log2 ≤ den) ∧ (den : ℚ) < 2 ^ (den.log2 + 1) :=
    ⟨by exact_mod_cast Nat.log2_self_le hden.ne', by exact_mod_cast Nat.lt_log2_self⟩
  generalize he : ((num.log2 : Int) - (den.log2 : Int)) = e
  have hsplit : ∀ k : Int, (2 : ℚ) ^ (e + k) * 2 ^ den.log2 = 2 ^ num.log2 * 2 ^ k := by
    intro k
    rw [← zpow_natCast, ← zpow_natCast, ← zpow_add₀ two_ne_zero, ← zpow_add₀ two_ne_zero]
    congr 1
    omega
  have hpos : ∀ k : Int, (0 : ℚ) < 2 ^ k := fun k => zpow_pos two_pos k
  have hupper : (num : ℚ) < den * 2 ^ (e + 1) := by
    have h := hsplit 1
    have hle := mul_le_mul_of_nonneg_left hden'.1 (hpos (e + 1)).le
    have hlt := hnum'.2
    rw [pow_succ] at hlt
    rw [zpow_one] at h
    linarith
  have hlower : (den : ℚ) * 2 ^ (e - 1) ≤ num := by
    have h := hsplit (-1)
    have hle := mul_le_mul_of_nonneg_left hden'.2.le (hpos (e - 1)).le
    rw [pow_succ, ← mul_assoc] at hle
    rw [zpow_neg_one, ← sub_eq_add_neg] at h
    linarith [hnum'.1]
  simp only [floorLog2, he]
  split_ifs with h
  · exact ⟨(mul_twoTo_le_iff e).mp h, hupper⟩
  · refine ⟨hlower, ?_⟩
    rw [sub_add_cancel]
    exact lt_of_not_ge (mt (mul_twoTo_le_iff e).mpr h)

/-! ## Rounding to a natural number -/

/-- Rounding goes down to the whole part or up to the next number. -/
theorem roundEven_bounds (num den : Nat) :
    num / den ≤ roundEven num den ∧ roundEven num den ≤ num / den + 1 := by
  simp only [roundEven]
  split_ifs <;> omega

theorem roundEven_mul {n : Nat} (hden : 0 < den) : roundEven (n * den) den = n := by
  simp [roundEven, Nat.mul_div_cancel n hden, hden]

end

/-! ## The numbers of a code -/

section
variable {code E q : Nat}

theorem toNat_bits_ofCode (h : code ≤ infinityCode) : (ofCode false code).bits.toNat = code := by
  have hsmall : code < 2 ^ 64 := h.trans_lt (by decide)
  rw [ofCode, if_neg Bool.false_ne_true, Nat.add_zero, UInt64.toNat_ofNat', Nat.mod_eq_of_lt hsmall]

theorem negative_ofCode (h : code ≤ infinityCode) : (ofCode false code).negative = false := by
  have hsmall : code < twoTo 63 := h.trans_lt (by decide)
  rw [negative, toNat_bits_ofCode h]
  simpa using hsmall

/-- The number whose code is the exponent field followed by a significand, which may reach the next
power of two. -/
theorem value_ofCode (hlow : 2 ^ 52 ≤ q) (hhigh : q ≤ 2 ^ 53)
    (h : E * twoTo 52 + q < infinityCode) :
    (ofCode false (E * twoTo 52 + q)).isFinite = true ∧
      (ofCode false (E * twoTo 52 + q)).value = q * 2 ^ ((E : Int) - 1074) := by
  have hbits := toNat_bits_ofCode h.le
  have h52 : twoTo 52 = 2 ^ 52 := rfl
  have h11 : twoTo 11 = 2048 := rfl
  rw [infinityCode, h52] at h
  rw [h52] at hbits ⊢
  by_cases hcarry : q = 2 ^ 53
  · -- the significand is carried into the exponent field
    have hfield : (ofCode false (E * 2 ^ 52 + q)).field = E + 2 := by
      rw [field, hbits, h52, h11]
      omega
    have hfraction : (ofCode false (E * 2 ^ 52 + q)).fraction = 0 := by
      rw [fraction, hbits, h52]
      omega
    have hexp : ((max (E + 2 : Nat) 1 : Int) - 1075) = ((E : Int) - 1074) + 1 := by omega
    have hfinite : E + 2 ≠ 2047 := by omega
    refine ⟨by rw [isFinite, hfield]; simpa using hfinite, ?_⟩
    rw [value, significand, exponent, hfield, hfraction, if_neg (by omega), h52, hexp,
      zpow_add₀ two_ne_zero, hcarry]
    push_cast
    ring
  · have hfield : (ofCode false (E * 2 ^ 52 + q)).field = E + 1 := by
      rw [field, hbits, h52, h11]
      omega
    have hfraction : (ofCode false (E * 2 ^ 52 + q)).fraction = q - 2 ^ 52 := by
      rw [fraction, hbits, h52]
      omega
    have hexp : ((max (E + 1 : Nat) 1 : Int) - 1075) = (E : Int) - 1074 := by omega
    have hfinite : E + 1 ≠ 2047 := by omega
    refine ⟨by rw [isFinite, hfield]; simpa using hfinite, ?_⟩
    rw [value, significand, exponent, hfield, hfraction, if_neg (by omega), h52, hexp,
      Nat.add_sub_cancel' hlow]

end

/-! ## Rounding a fraction -/

section
variable {num den : Nat}

/-- What a fraction that is at least one is rounded to: a significand of 53 bits, in a unit that
follows from the powers of two around the fraction, or infinity. -/
theorem ofRatio_eq (hden : 0 < den) (h : den ≤ num) :
    ∃ L q : Nat, floorLog2 num den = L ∧
      q = roundEven (num * twoTo (52 - L : Int).toNat) (den * twoTo (L - 52 : Int).toNat) ∧
      2 ^ 52 ≤ q ∧ q ≤ 2 ^ 53 ∧
      ofRatio false num den = ofCode false (min infinityCode ((L + 1022) * twoTo 52 + q)) := by
  have hnum : 0 < num := hden.trans_le h
  obtain ⟨hlow, hhigh⟩ := floorLog2_spec hnum hden
  have hpos : (0 : ℚ) < den := by exact_mod_cast hden
  -- a fraction that is at least one has a logarithm
  obtain ⟨L, hL⟩ : ∃ L : Nat, floorLog2 num den = L := by
    have hone : (1 : ℚ) < 2 ^ (floorLog2 num den + 1) := by
      have hle : (den : ℚ) ≤ num := by exact_mod_cast h
      nlinarith
    have hnonneg := (one_lt_zpow_iff_right₀ one_lt_two).mp hone
    exact ⟨(floorLog2 num den).toNat, by omega⟩
  rw [hL] at hlow hhigh
  have hneg : -((L : Int) - 52) = 52 - L := by omega
  have hunit : 0 < den * twoTo (L - 52 : Int).toNat := Nat.mul_pos hden (twoTo_pos _)
  have hwhole : 2 ^ 52 ≤ num * twoTo (52 - L : Int).toNat / (den * twoTo (L - 52 : Int).toNat) := by
    have hlow' : (den : ℚ) * 2 ^ ((L : Int) - 52 + (52 : Nat)) ≤ num := by
      rwa [Nat.cast_ofNat, sub_add_cancel]
    rw [Nat.le_div_iff_mul_le hunit, ← hneg]
    exact (two_pow_mul_le_iff _ 52).mpr hlow'
  have hbelow : num * twoTo (52 - L : Int).toNat / (den * twoTo (L - 52 : Int).toNat) < 2 ^ 53 := by
    have hhigh' : (num : ℚ) < den * 2 ^ ((L : Int) - 52 + (53 : Nat)) := by
      have hexp : (L : Int) - 52 + (53 : Nat) = L + 1 := by omega
      rwa [hexp]
    rw [Nat.div_lt_iff_lt_mul hunit, ← hneg]
    exact not_le.mp (mt (two_pow_mul_le_iff _ 53).mp (not_le.mpr hhigh'))
  obtain ⟨hfloor, hceil⟩ := roundEven_bounds (num * twoTo (52 - L : Int).toNat)
    (den * twoTo (L - 52 : Int).toNat)
  refine ⟨L, _, hL, rfl, hwhole.trans hfloor, by omega, ?_⟩
  have hmax : max (-1074) ((L : Int) - 52) = L - 52 := by omega
  have hfield : ((L : Int) - 52 + 1074).toNat = L + 1022 := by omega
  simp only [ofRatio, hnum.ne', if_false, hL, hmax, hneg, hfield]

end

/-! ## Exact numbers and lower bounds -/

/-- A number that is `x`, exactly. -/
structure Is (d : Double) (x : ℚ) : Prop where
  not_negative : d.negative = false
  finite : d.isFinite = true
  value_eq : d.value = x

/-- A number that is at least `x`, or infinite, or the outcome of multiplying with infinity. -/
structure AtLeast (d : Double) (x : ℚ) : Prop where
  not_negative : d.negative = false
  le_value : d.isFinite = true → x ≤ d.value

section
variable {num den n m k : Nat} {a b d : Double} {x : ℚ}

theorem Is.atLeast (h : Is d x) : AtLeast d x where
  not_negative := h.not_negative
  le_value _ := h.value_eq.ge

theorem is_zero : Is (zero false) 0 where
  not_negative := by decide +kernel
  finite := by decide +kernel
  value_eq := by
    have hsignificand : (zero false).significand = 0 := by decide +kernel
    rw [value, hsignificand]
    simp

theorem atLeast_infinity : AtLeast (infinity false) x where
  not_negative := by decide +kernel
  le_value h := absurd h (by decide +kernel)

/-- A natural number that fits in a significand is not rounded. -/
theorem is_ofRatio (hn : n < 2 ^ 53) (hden : 0 < den) : Is (ofRatio false (n * den) den) n := by
  by_cases hzero : n = 0
  · subst hzero
    simpa [ofRatio] using is_zero
  have hle : den ≤ n * den := Nat.le_mul_of_pos_left den (Nat.pos_of_ne_zero hzero)
  obtain ⟨L, q, hL, hq, hlow, hhigh, heq⟩ := ofRatio_eq hden hle
  have hsmall : L ≤ 52 := by
    have hspec := (floorLog2_spec (hden.trans_le hle) hden).1
    have hpos : (0 : ℚ) < den := by exact_mod_cast hden
    have hpow : (2 : ℚ) ^ L ≤ n := by
      rw [hL, zpow_natCast] at hspec
      push_cast at hspec
      nlinarith
    have hlt : 2 ^ L < 2 ^ 53 := lt_of_le_of_lt (by exact_mod_cast hpow) hn
    have := (Nat.pow_lt_pow_iff_right one_lt_two).mp hlt
    omega
  have hdown : ((L : Int) - 52).toNat = 0 := by omega
  have hup : (52 - (L : Int)).toNat = 52 - L := by omega
  have hexact : q = n * 2 ^ (52 - L) := by
    rw [hq, hdown, hup, twoTo_zero, Nat.mul_one, Nat.mul_right_comm, roundEven_mul hden, twoTo_eq]
  have hcode : (L + 1022) * twoTo 52 + q < infinityCode := by
    have h52 : twoTo 52 = 2 ^ 52 := rfl
    rw [infinityCode, h52]
    omega
  obtain ⟨hfinite, hvalue⟩ := value_ofCode hlow hhigh hcode
  rw [heq, min_eq_right hcode.le]
  refine ⟨negative_ofCode hcode.le, hfinite, ?_⟩
  have hexp : ((L + 1022 : Nat) : Int) - 1074 = -((52 - L : Nat) : Int) := by omega
  rw [hvalue, hexact, hexp, zpow_neg, zpow_natCast]
  push_cast
  exact mul_inv_cancel_right₀ (pow_ne_zero _ two_ne_zero) (n : ℚ)

/-- Rounding does not go below a power of two that is reached. -/
theorem atLeast_ofRatio (hden : 0 < den) (h : 2 ^ k * den ≤ num) :
    AtLeast (ofRatio false num den) (2 ^ k) := by
  have hle : den ≤ num := (Nat.le_mul_of_pos_left den (Nat.two_pow_pos k)).trans h
  obtain ⟨L, q, hL, -, hlow, hhigh, heq⟩ := ofRatio_eq hden hle
  rw [heq]
  by_cases hcode : (L + 1022) * twoTo 52 + q < infinityCode
  · obtain ⟨-, hvalue⟩ := value_ofCode hlow hhigh hcode
    rw [min_eq_right hcode.le]
    refine ⟨negative_ofCode hcode.le, fun _ => ?_⟩
    have hspec := (floorLog2_spec (hden.trans_le hle) hden).2
    have hpos : (0 : ℚ) < den := by exact_mod_cast hden
    have hlog : k ≤ L := by
      have hcast : (2 : ℚ) ^ k * den ≤ num := by exact_mod_cast h
      have hlt : (2 : ℚ) ^ (k : Int) < 2 ^ ((L : Int) + 1) := by
        rw [hL] at hspec
        rw [zpow_natCast]
        nlinarith
      have := (zpow_lt_zpow_iff_right₀ one_lt_two).mp hlt
      omega
    have hsplit : ∀ i : Nat, (2 : ℚ) ^ L = 2 ^ i * 2 ^ ((L : Int) - i) := by
      intro i
      rw [← zpow_natCast, ← zpow_natCast, ← zpow_add₀ two_ne_zero, add_sub_cancel]
    have hexp : ((L + 1022 : Nat) : Int) - 1074 = L - (52 : Nat) := by omega
    calc (2 : ℚ) ^ k ≤ 2 ^ L := pow_le_pow_right₀ one_le_two hlog
      _ = 2 ^ 52 * 2 ^ (((L + 1022 : Nat) : Int) - 1074) := by rw [hexp, ← hsplit 52]
      _ ≤ q * 2 ^ (((L + 1022 : Nat) : Int) - 1074) := by
        refine mul_le_mul_of_nonneg_right ?_ (zpow_pos two_pos _).le
        exact_mod_cast hlow
      _ = _ := hvalue.symm
  · rw [min_eq_left (not_lt.mp hcode)]
    exact atLeast_infinity

/-! ## Multiplying and rounding to a natural number -/

/-- A finite number as the fraction that calculations go through. -/
theorem exists_ratio (h : d.isFinite = true) :
    ∃ num den, d.ratio? = some (num, den) ∧ 0 < den ∧ (num : ℚ) = d.value * den := by
  refine ⟨_, _, by rw [ratio?, if_pos h]; rfl, twoTo_pos _, ?_⟩
  have hpos := cast_twoTo_pos (-d.exponent).toNat
  rw [value, ← twoTo_div d.exponent]
  push_cast
  field_simp

theorem ratio?_of_not_isFinite (h : d.isFinite = false) : d.ratio? = none := by
  rw [ratio?, h]
  rfl

theorem Is.mul (ha : Is a n) (hb : Is b m) (h : n * m < 2 ^ 53) :
    Is (a.mul b) ((n * m : Nat) : ℚ) := by
  obtain ⟨p, q, hp, hq, hpq⟩ := exists_ratio ha.finite
  obtain ⟨p', q', hp', hq', hpq'⟩ := exists_ratio hb.finite
  have hprod : p * p' = n * m * (q * q') := by
    rw [ha.value_eq] at hpq
    rw [hb.value_eq] at hpq'
    have hcast : (p * p' : ℚ) = n * m * (q * q') := by rw [hpq, hpq']; ring
    exact_mod_cast hcast
  rw [Double.mul, ha.not_negative, hb.not_negative, hp, hp']
  simpa only [hprod, bne_self_eq_false] using is_ofRatio h (Nat.mul_pos hq hq')

theorem AtLeast.mul (ha : AtLeast a x) (hb : Is b m) (h : 2 ^ k ≤ x * m) :
    AtLeast (a.mul b) (2 ^ k) := by
  obtain ⟨p', q', hp', hq', hpq'⟩ := exists_ratio hb.finite
  by_cases hfinite : a.isFinite = true
  · obtain ⟨p, q, hp, hq, hpq⟩ := exists_ratio hfinite
    have hle : 2 ^ k * (q * q') ≤ p * p' := by
      rw [hb.value_eq] at hpq'
      have hvalue : (2 : ℚ) ^ k ≤ a.value * m :=
        h.trans (mul_le_mul_of_nonneg_right (ha.le_value hfinite) m.cast_nonneg)
      have hcast : (2 : ℚ) ^ k * (q * q') ≤ p * p' := by
        calc (2 : ℚ) ^ k * (q * q') ≤ a.value * m * (q * q') :=
              mul_le_mul_of_nonneg_right hvalue (by positivity)
          _ = p * p' := by rw [hpq, hpq']; ring
      exact_mod_cast hcast
    rw [Double.mul, ha.not_negative, hb.not_negative, hp, hp']
    simpa only [bne_self_eq_false] using atLeast_ofRatio (Nat.mul_pos hq hq') hle
  · rw [Double.mul, ha.not_negative, hb.not_negative,
      ratio?_of_not_isFinite (by simpa using hfinite)]
    dsimp only
    split_ifs
    · exact ⟨by decide +kernel, fun h => absurd h (by decide +kernel)⟩
    · exact atLeast_infinity

theorem Is.roundNat?_eq (h : Is d n) : d.roundNat? = some n := by
  obtain ⟨p, q, hp, hq, hpq⟩ := exists_ratio h.finite
  rw [h.value_eq] at hpq
  have hp' : p = n * q := by exact_mod_cast hpq
  have hround : (2 * (n * q) + q) / (2 * q) = n := by
    have hswap : 2 * (n * q) + q = q + n * (2 * q) := by ring
    rw [hswap, Nat.add_mul_div_right _ _ (by omega), Nat.div_eq_of_lt (by omega), Nat.zero_add]
  rw [roundNat?, h.not_negative, if_neg Bool.false_ne_true, hp, Option.map_some, hp']
  exact congrArg some hround

theorem AtLeast.le_of_mem_roundNat? (h : AtLeast d n) : ∀ r ∈ d.roundNat?, n ≤ r := by
  intro r hr
  rw [roundNat?, h.not_negative, if_neg Bool.false_ne_true] at hr
  by_cases hfinite : d.isFinite = true
  · obtain ⟨p, q, hp, hq, hpq⟩ := exists_ratio hfinite
    rw [hp, Option.map_some, Option.mem_some_iff] at hr
    have hle : n * q ≤ p := by
      have hcast : (n * q : ℚ) ≤ p := by
        rw [hpq]
        exact mul_le_mul_of_nonneg_right (h.le_value hfinite) q.cast_nonneg
      exact_mod_cast hcast
    rw [← hr, Nat.le_div_iff_mul_le (by omega)]
    nlinarith
  · simp [ratio?_of_not_isFinite (by simpa using hfinite)] at hr

end

/-! ## Reading digits -/

section
variable {ds : List Char} {n : Nat}

/-- The value of digits is the number that they stand for. -/
theorem ofDigits_eq (ds : List Char) : ofDigits ds = Nat.ofDigitChars 10 ds 0 := by
  simp only [ofDigits, Nat.ofDigitChars, Nat.mul_comm]

/-- Digits are read as a number without sign, point or exponent. -/
theorem read?_digits (hne : ds ≠ []) (hds : ∀ u ∈ ds, u.isDigit = true) :
    read? ds = some (ofScientific false (ofDigits ds) 0) := by
  obtain ⟨u, us, rfl⟩ := List.exists_cons_of_ne_nil hne
  have hu := hds u (.head _)
  have hwhole : (u :: us).takeWhile Char.isDigit = u :: us := List.takeWhile_eq_self_iff.mpr hds
  have hrest : (u :: us).dropWhile Char.isDigit = [] := List.dropWhile_eq_nil_iff.mpr hds
  have hfirst : ∀ v : Char, v.isDigit = false → u ≠ v := by
    rintro v hv rfl
    simp [hu] at hv
  have hlower : u.toLower = u := by
    rw [Text.isDigit_iff] at hu
    rw [← Char.toNat_inj, Text.toNat_toLower, if_neg (by omega)]
  have hword : ∀ (w : String) (v : Char) (vs : List Char), w.toList = v :: vs →
      v.isDigit = false → ((u :: us).map Char.toLower == w.toList) = false := by
    intro w v vs hw hv
    simp [hw, hlower, hfirst v hv]
  have hunsigned : readUnsigned? false (u :: us) =
      some (ofScientific false (ofDigits (u :: us)) 0) := by
    simp only [readUnsigned?, hwhole, hrest]
    simp
  have hminus := hfirst '-' (by decide)
  have hplus := hfirst '+' (by decide)
  simp only [read?]
  split
  · simp_all
  · simp_all
  · rw [hword "inf" 'i' _ rfl (by decide), hword "infinity" 'i' _ rfl (by decide),
      hword "nan" 'n' _ rfl (by decide)]
    simpa using hunsigned

/-- Without a power of ten the nearest number to a natural number is looked for. -/
theorem ofScientific_zero (hn : n ≠ 0) (hsmall : n.log2 * 3 / 10 ≤ 400) :
    ofScientific false n 0 = ofRatio false (n * 1) 1 := by
  have hten : tenTo (0 : Int).toNat = 1 := rfl
  have hlarge : ¬ (0 + ((n.log2 * 3 / 10 : Nat) : Int) > 400) := by omega
  have hnegligible : ¬ (0 + ((n.log2 * 3 / 10 : Nat) : Int) < -800 - (n.log2 : Int)) := by omega
  simp only [ofScientific, if_neg hn, if_neg hlarge, if_neg hnegligible, Int.neg_zero, hten]

theorem is_ofScientific (hn : n < 2 ^ 53) : Is (ofScientific false n 0) n := by
  by_cases hzero : n = 0
  · subst hzero
    simpa [ofScientific] using is_zero
  · have hlog : n.log2 < 53 := (Nat.log2_lt hzero).mpr hn
    rw [ofScientific_zero hzero (by omega)]
    exact is_ofRatio hn Nat.one_pos

theorem atLeast_ofScientific (hn : 2 ^ k ≤ n) : AtLeast (ofScientific false n 0) (2 ^ k) := by
  have hzero : n ≠ 0 := by
    have := Nat.two_pow_pos k
    omega
  by_cases hlog : n.log2 * 3 / 10 ≤ 400
  · rw [ofScientific_zero hzero hlog]
    exact atLeast_ofRatio Nat.one_pos (by simpa using hn)
  · have hlarge : 0 + ((n.log2 * 3 / 10 : Nat) : Int) > 400 := by omega
    simp only [ofScientific, if_neg hzero, if_pos hlarge]
    exact atLeast_infinity

/-! ## A number times a factor -/

theorem is_ofNat (hm : m < 2 ^ 53) : Is (ofNat m) m := by
  simpa [ofNat] using is_ofRatio hm Nat.one_pos

/-- A product that fits in a significand is exact. -/
theorem roundNat?_mul (hn : n < 2 ^ 53) (hm : m < 2 ^ 53) (h : n * m < 2 ^ 53) :
    ((ofScientific false n 0).mul (ofNat m)).roundNat? = some (n * m) :=
  ((is_ofScientific hn).mul (is_ofNat hm) h).roundNat?_eq

/-- A product that reaches a power of two does not fall below it. -/
theorem le_of_mem_roundNat?_mul (hpos : 0 < m) (hm : m < 2 ^ 53) (hk : k ≤ 53)
    (h : 2 ^ k ≤ n * m) : ∀ r ∈ ((ofScientific false n 0).mul (ofNat m)).roundNat?, 2 ^ k ≤ r := by
  have hcast : ∀ d : Double, AtLeast d (2 ^ k) → ∀ r ∈ d.roundNat?, 2 ^ k ≤ r := fun d hd =>
    AtLeast.le_of_mem_roundNat? (n := 2 ^ k) (by exact_mod_cast hd)
  refine hcast _ ?_
  by_cases hn : n < 2 ^ 53
  · exact (is_ofScientific hn).atLeast.mul (is_ofNat hm) (by exact_mod_cast h)
  · refine (atLeast_ofScientific (not_lt.mp hn)).mul (is_ofNat hm) ?_
    have hone : (1 : ℚ) ≤ m := by exact_mod_cast hpos
    have hpow : (2 : ℚ) ^ k ≤ 2 ^ 53 := pow_le_pow_right₀ one_le_two hk
    nlinarith

end

end Double

end AskMetrics
