import Mathlib.Algebra.Order.Field.Power
import Mathlib.Data.Rat.Cast.Order
import Mathlib.Tactic.FieldSimp
import Mathlib.Tactic.Linarith
import Mathlib.Tactic.NormNum
import Mathlib.Tactic.Positivity
import Mathlib.Tactic.Ring
import PhpArray.Number.Binary64

/-!
Rounding to doubles. A quotient of natural numbers is rounded by its value alone, and a value that
is close to a double is rounded to it. Close means that the distance is to the number at most as one
to 2 * 10 ^ 16, which is less than half of what lies between doubles, also where they get denser.
-/

namespace PhpArray.Binary64

theorem posPow_pos {base : Nat} (hbase : 0 < base) (exponent : Int) : 0 < posPow base exponent :=
  Nat.pow_pos hbase

/-- The two powers make a power with an exponent of any sign. -/
theorem posPow_div_posPow_neg {base : Nat} (hbase : 0 < base) (exponent : Int) :
    (posPow base exponent : ℚ) / posPow base (-exponent) = (base : ℚ) ^ exponent := by
  have hne : (base : ℚ) ≠ 0 := by positivity
  unfold posPow
  rcases Int.le_total 0 exponent with hpos | hneg
  · obtain ⟨n, rfl⟩ := Int.eq_ofNat_of_zero_le hpos
    simp
  · obtain ⟨n, hn⟩ := Int.eq_ofNat_of_zero_le (Int.neg_nonneg_of_nonpos hneg)
    obtain rfl : exponent = -n := by omega
    simp

theorem posPow_neg_div_posPow {base : Nat} (hbase : 0 < base) (exponent : Int) :
    (posPow base (-exponent) : ℚ) / posPow base exponent = ((base : ℚ) ^ exponent)⁻¹ := by
  rw [← posPow_div_posPow_neg hbase, inv_div]

/-- Rounding moves a quotient by a half at most. -/
theorem abs_roundDiv_sub_le (num : Nat) {den : Nat} (hden : 0 < den) :
    |(roundDiv num den : ℚ) - num / den| ≤ 1 / 2 := by
  have hden' : (0 : ℚ) < den := Nat.cast_pos.2 hden
  have hsplit : (num : ℚ) / den = (num / den : ℕ) + ((num % den : ℕ) : ℚ) / den := by
    have hdiv : (num : ℚ) = den * (num / den : ℕ) + (num % den : ℕ) := by
      exact_mod_cast (Nat.div_add_mod num den).symm
    field_simp
    linarith
  have hrest : (0 : ℚ) ≤ ((num % den : ℕ) : ℚ) / den := by positivity
  have hlt : ((num % den : ℕ) : ℚ) / den < 1 := by
    rw [div_lt_one hden']
    exact_mod_cast Nat.mod_lt num hden
  -- Where the rest is half the divisor at most, rounding down is as near, and else rounding up.
  have hdown : 2 * (num % den) ≤ den → |((num / den : ℕ) : ℚ) - num / den| ≤ 1 / 2 := by
    intro hle
    have hhalf : ((num % den : ℕ) : ℚ) / den ≤ 1 / 2 := by
      rw [div_le_div_iff₀ hden' two_pos]
      exact_mod_cast (by omega : num % den * 2 ≤ 1 * den)
    rw [hsplit, abs_le]
    constructor <;> linarith
  have hup : den ≤ 2 * (num % den) → |((num / den + 1 : ℕ) : ℚ) - num / den| ≤ 1 / 2 := by
    intro hle
    have hhalf : 1 / 2 ≤ ((num % den : ℕ) : ℚ) / den := by
      rw [div_le_div_iff₀ two_pos hden']
      exact_mod_cast (by omega : 1 * den ≤ num % den * 2)
    rw [hsplit, abs_le]
    push_cast
    constructor <;> linarith
  unfold roundDiv
  dsimp only
  split_ifs with hless hmore heven
  · exact hdown hless.le
  · exact hup hmore.le
  · exact hdown (not_lt.1 hmore)
  · exact hup (not_lt.1 hless)

/-- A quotient that is less than a half away from a whole number is rounded to it. -/
theorem roundDiv_of_near {num den n : Nat} (hden : 0 < den)
    (h : |(num : ℚ) / den - n| < 1 / 2) : roundDiv num den = n := by
  have hround := abs_roundDiv_sub_le num hden
  have hclose : |((roundDiv num den : ℤ) : ℚ) - ((n : ℤ) : ℚ)| < 1 := by
    rw [abs_lt] at h ⊢
    rw [abs_le] at hround
    push_cast
    constructor <;> linarith
  have heq : (roundDiv num den : ℤ) = n := by
    have hcast : |(roundDiv num den : ℤ) - n| < 1 := by exact_mod_cast hclose
    have hzero := Int.abs_lt_one_iff.1 hcast
    omega
  exact_mod_cast heq

theorem roundDiv_mul_right (num den : Nat) {factor : Nat} (hfactor : 0 < factor) :
    roundDiv (num * factor) (den * factor) = roundDiv num den := by
  have hrest : 2 * (num * factor % (den * factor)) = 2 * (num % den) * factor := by
    rw [Nat.mul_mod_mul_right, Nat.mul_assoc]
  simp only [roundDiv, hrest, Nat.mul_div_mul_right _ _ hfactor, Nat.mul_lt_mul_right hfactor]

theorem cross_of_div_eq {num den num' den' : Nat} (hden : 0 < den) (hden' : 0 < den')
    (h : (num : ℚ) / den = num' / den') : num * den' = num' * den := by
  rw [div_eq_div_iff (by positivity) (by positivity)] at h
  exact_mod_cast h

/-- Equal quotients are rounded to the same number. -/
theorem roundDiv_congr {num den num' den' : Nat} (hden : 0 < den) (hden' : 0 < den')
    (h : (num : ℚ) / den = num' / den') : roundDiv num den = roundDiv num' den' := by
  have hcross := cross_of_div_eq hden hden' h
  rw [← roundDiv_mul_right num den hden', ← roundDiv_mul_right num' den' hden, hcross,
    Nat.mul_comm den den']

/-- Rounding keeps bounds that are whole numbers. -/
theorem le_roundDiv {num den n : Nat} (hden : 0 < den) (h : n * den ≤ num) :
    n ≤ roundDiv num den := by
  have hdiv : n ≤ num / den := (Nat.le_div_iff_mul_le hden).2 h
  unfold roundDiv
  dsimp only
  split_ifs <;> omega

theorem roundDiv_le {num den n : Nat} (hden : 0 < den) (h : num < n * den) :
    roundDiv num den ≤ n := by
  have hdiv : num / den < n := (Nat.div_lt_iff_lt_mul hden).2 h
  unfold roundDiv
  dsimp only
  split_ifs <;> omega

/-! ### The exponent of a quotient -/

/-- The exponent of the doubles around a positive number. -/
structure Fits (q : ℚ) (exponent : Int) : Prop where
  min_le : minExponent ≤ exponent
  lt : q < 2 ^ (exponent + 53)
  le : exponent = minExponent ∨ 2 ^ (exponent + 52) ≤ q

theorem Fits.le_of_fits {q : ℚ} {e e' : Int} (h : Fits q e) (h' : Fits q e') : e ≤ e' := by
  rcases h.le with rfl | hle
  · exact h'.min_le
  · have hpow : (2 : ℚ) ^ (e + 52) < 2 ^ (e' + 53) := hle.trans_lt h'.lt
    have hlt := (zpow_lt_zpow_iff_right₀ (by norm_num)).1 hpow
    omega

theorem Fits.unique {q : ℚ} {e e' : Int} (h : Fits q e) (h' : Fits q e') : e = e' :=
  le_antisymm (h.le_of_fits h') (h'.le_of_fits h)

theorem mantissaBound_mul (exponent : Int) :
    (mantissaBound : ℚ) * 2 ^ exponent = 2 ^ (exponent + 53) := by
  rw [zpow_add₀ two_ne_zero, mul_comm]
  norm_num [mantissaBound]

theorem half_mantissaBound_mul (exponent : Int) :
    ((mantissaBound / 2 : ℕ) : ℚ) * 2 ^ exponent = 2 ^ (exponent + 52) := by
  rw [zpow_add₀ two_ne_zero, mul_comm]
  norm_num [mantissaBound]

section

variable {num den : Nat}

theorem scaled_eq (exponent : Int) :
    ((num * posPow 2 (-exponent) : ℕ) : ℚ) / (den * posPow 2 exponent : ℕ) =
      num / den / 2 ^ exponent := by
  have hpow := posPow_neg_div_posPow two_pos exponent
  push_cast at hpow ⊢
  rw [mul_div_mul_comm, hpow, div_eq_mul_inv _ ((2 : ℚ) ^ exponent)]

variable (hden : 0 < den)

include hden

theorem scaled_lt_iff (exponent : Int) (n : Nat) :
    num * posPow 2 (-exponent) < n * (den * posPow 2 exponent) ↔
      (num : ℚ) / den < n * 2 ^ exponent := by
  have hpos : 0 < den * posPow 2 exponent := Nat.mul_pos hden (posPow_pos two_pos exponent)
  have hpos' : (0 : ℚ) < (den * posPow 2 exponent : ℕ) := Nat.cast_pos.2 hpos
  rw [← div_lt_iff₀ (zpow_pos two_pos exponent), ← scaled_eq, div_lt_iff₀ hpos']
  exact_mod_cast Iff.rfl

/-- The difference of the binary logarithms is the logarithm of the quotient or one more. -/
theorem log2_bounds (hnum : 0 < num) :
    2 ^ ((num.log2 : Int) - den.log2 - 1) < (num : ℚ) / den ∧
      (num : ℚ) / den < 2 ^ ((num.log2 : Int) - den.log2 + 1) := by
  have hnum₁ : (2 : ℚ) ^ num.log2 ≤ num := by exact_mod_cast Nat.log2_self_le hnum.ne'
  have hnum₂ : (num : ℚ) < 2 ^ (num.log2 + 1) := by exact_mod_cast Nat.lt_log2_self
  have hden₁ : (2 : ℚ) ^ den.log2 ≤ den := by exact_mod_cast Nat.log2_self_le hden.ne'
  have hden₂ : (den : ℚ) < 2 ^ (den.log2 + 1) := by exact_mod_cast Nat.lt_log2_self
  have hnum' : (0 : ℚ) < num := Nat.cast_pos.2 hnum
  have hden' : (0 : ℚ) < den := Nat.cast_pos.2 hden
  have hlow : (2 : ℚ) ^ ((num.log2 : Int) - den.log2 - 1) = 2 ^ num.log2 / 2 ^ (den.log2 + 1) := by
    rw [sub_sub, zpow_sub₀ two_ne_zero]
    norm_cast
  have hhigh : (2 : ℚ) ^ ((num.log2 : Int) - den.log2 + 1) = 2 ^ (num.log2 + 1) / 2 ^ den.log2 := by
    rw [sub_add_eq_add_sub, zpow_sub₀ two_ne_zero]
    norm_cast
  rw [hlow, hhigh, div_lt_div_iff₀ (by positivity) hden', div_lt_div_iff₀ hden' (by positivity)]
  constructor
  · exact mul_lt_mul' hnum₁ hden₂ hden'.le hnum'
  · exact mul_lt_mul hnum₂ hden₁ (by positivity) (by positivity)

theorem exponentFor_fits (hnum : 0 < num) : Fits (num / den) (exponentFor num den) := by
  obtain ⟨hlow, hhigh⟩ := log2_bounds hden hnum
  unfold exponentFor
  extract_lets guess fits
  have hfits : fits ↔ (num : ℚ) / den < 2 ^ (guess + 53) := by
    have hscaled : fits ↔ (num : ℚ) / den < mantissaBound * 2 ^ guess :=
      scaled_lt_iff hden guess mantissaBound
    rwa [mantissaBound_mul] at hscaled
  have hguess₁ : (2 : ℚ) ^ (guess + 52) < num / den := by
    rwa [show guess + 52 = (num.log2 : Int) - den.log2 - 1 by omega]
  have hguess₂ : (num : ℚ) / den < 2 ^ (guess + 1 + 53) := by
    rwa [show guess + 1 + 53 = (num.log2 : Int) - den.log2 + 1 by omega]
  -- Without the least exponent, the guess or its successor is the one that fits.
  obtain ⟨e, he, hlt, hle⟩ : ∃ e, (if fits then guess else guess + 1) = e ∧
      (num : ℚ) / den < 2 ^ (e + 53) ∧ 2 ^ (e + 52) ≤ (num : ℚ) / den := by
    split_ifs with hcase
    · exact ⟨guess, rfl, hfits.1 hcase, hguess₁.le⟩
    · refine ⟨guess + 1, rfl, hguess₂, ?_⟩
      rw [show guess + 1 + 52 = guess + 53 by omega]
      exact not_lt.1 (mt hfits.2 hcase)
  rw [he]
  refine ⟨le_max_left .., hlt.trans_le ?_, ?_⟩
  · exact zpow_le_zpow_right₀ (by norm_num) (by omega)
  · rcases le_total e minExponent with hmin | hmin
    · exact .inl (max_eq_left hmin)
    · rw [max_eq_right hmin]
      exact .inr hle

theorem exponentFor_eq (hnum : 0 < num) {exponent : Int} (h : Fits (num / den) exponent) :
    exponentFor num den = exponent :=
  (exponentFor_fits hden hnum).unique h

theorem mantissaAt_of_near {n : Nat} {exponent : Int}
    (h : |(num : ℚ) / den - n * 2 ^ exponent| < 1 / 2 * 2 ^ exponent) :
    mantissaAt num den exponent = n := by
  have hpow : (0 : ℚ) < 2 ^ exponent := by positivity
  apply roundDiv_of_near (Nat.mul_pos hden (posPow_pos two_pos exponent))
  rw [scaled_eq, div_sub' hpow.ne', abs_div, abs_of_pos hpow, div_lt_iff₀ hpow,
    mul_comm _ (n : ℚ)]
  linarith

end

/-- Equal quotients are rounded to the same double. -/
theorem ofQuotient_congr (negative : Bool) {num den num' den' : Nat} (hden : 0 < den)
    (hden' : 0 < den') (h : (num : ℚ) / den = num' / den') :
    ofQuotient negative num den = ofQuotient negative num' den' := by
  have hcross := cross_of_div_eq hden hden' h
  by_cases hnum : num = 0
  · have hnum' : num' = 0 := by simpa [hnum, hden.ne'] using hcross
    rw [hnum, hnum', ofQuotient, ofQuotient, if_pos rfl, if_pos rfl]
  · have hnum' : num' ≠ 0 := by
      rintro rfl
      simp [hnum, hden'.ne'] at hcross
    have hexponent : exponentFor num den = exponentFor num' den' := by
      have hfits := exponentFor_fits hden' (Nat.pos_of_ne_zero hnum')
      exact exponentFor_eq hden (Nat.pos_of_ne_zero hnum) (h ▸ hfits)
    have hmantissa (exponent : Int) :
        mantissaAt num den exponent = mantissaAt num' den' exponent := by
      refine roundDiv_congr (Nat.mul_pos hden (posPow_pos two_pos exponent))
        (Nat.mul_pos hden' (posPow_pos two_pos exponent)) ?_
      rw [scaled_eq, scaled_eq, h]
    simp only [ofQuotient, if_neg hnum, if_neg hnum', hexponent, hmantissa]

/-! ### Doubles -/

/-- The finite doubles, each in its own form: all 53 digits of the mantissa are used except where
the exponent is the least one. -/
structure IsFinite (mantissa : Nat) (exponent : Int) : Prop where
  lt : mantissa < mantissaBound
  min_le : minExponent ≤ exponent
  le_max : exponent ≤ maxExponent
  normal : mantissaBound / 2 ≤ mantissa ∨ exponent = minExponent

theorem IsFinite.value_lt {mantissa : Nat} {exponent : Int} (h : IsFinite mantissa exponent) :
    (mantissa : ℚ) * 2 ^ exponent < 2 ^ (1024 : Int) := by
  have hlt : (mantissa : ℚ) < mantissaBound := by exact_mod_cast h.lt
  have hmul := mul_lt_mul_of_pos_right hlt (show (0 : ℚ) < 2 ^ exponent by positivity)
  rw [mantissaBound_mul] at hmul
  have hmax : exponent + 53 ≤ 1024 := Int.add_le_add_right h.le_max 53
  exact hmul.trans_le (zpow_le_zpow_right₀ (by norm_num) hmax)

theorem IsFinite.le_value {mantissa : Nat} {exponent : Int} (h : IsFinite mantissa exponent)
    (hmantissa : 0 < mantissa) : 2 ^ (-1074 : Int) ≤ (mantissa : ℚ) * 2 ^ exponent := by
  have hone : (1 : ℚ) ≤ mantissa := by exact_mod_cast hmantissa
  have hmul := mul_le_mul_of_nonneg_right hone (show (0 : ℚ) ≤ 2 ^ exponent by positivity)
  have hmin : (2 : ℚ) ^ (-1074 : Int) ≤ 2 ^ exponent := zpow_le_zpow_right₀ (by norm_num) h.min_le
  linarith

def IsDouble : Binary64 → Prop
  | .finite _ mantissa exponent => IsFinite mantissa exponent
  | _ => True

theorem isDouble_zero (negative : Bool) : IsDouble (zero negative) :=
  ⟨by decide, le_rfl, by decide, .inr rfl⟩

/-- The mantissa is in its range, or next to it where the exponent is about to grow. -/
theorem mantissaAt_bounds {num den : Nat} {exponent : Int} (hden : 0 < den)
    (hfits : Fits (num / den) exponent) :
    mantissaAt num den exponent ≤ mantissaBound ∧
      (mantissaBound / 2 ≤ mantissaAt num den exponent ∨ exponent = minExponent) := by
  have hpos := Nat.mul_pos hden (posPow_pos two_pos exponent)
  constructor
  · have hlt := hfits.lt
    rw [← mantissaBound_mul, ← scaled_lt_iff hden] at hlt
    exact roundDiv_le hpos hlt
  · rcases hfits.le with hmin | hle
    · exact .inr hmin
    · rw [← half_mantissaBound_mul, ← not_lt, ← scaled_lt_iff hden, not_lt] at hle
      exact .inl (le_roundDiv hpos hle)

/-- Rounding gives doubles. -/
theorem isDouble_ofQuotient (negative : Bool) (num : Nat) {den : Nat} (hden : 0 < den) :
    IsDouble (ofQuotient negative num den) := by
  unfold ofQuotient
  split_ifs with hnum
  · exact isDouble_zero negative
  · have hfits := exponentFor_fits hden (Nat.pos_of_ne_zero hnum)
    obtain ⟨hle, hnormal⟩ := mantissaAt_bounds hden hfits
    have hmin := hfits.min_le
    by_cases hbound : mantissaAt num den (exponentFor num den) = mantissaBound
    · simp only [if_pos hbound]
      split_ifs with hmax
      · trivial
      · exact ⟨by decide, by omega, not_lt.1 hmax, .inl le_rfl⟩
    · simp only [if_neg hbound]
      split_ifs with hmax
      · trivial
      · exact ⟨lt_of_le_of_ne hle hbound, hmin, not_lt.1 hmax, hnormal⟩

theorem isDouble_ofDecimal (negative : Bool) (n : Nat) (power : Int) :
    IsDouble (ofDecimal negative n power) := by
  unfold ofDecimal
  extract_lets digits
  split_ifs
  · exact isDouble_zero negative
  · trivial
  · exact isDouble_zero negative
  · exact isDouble_ofQuotient _ _ (posPow_pos Nat.ofNat_pos _)

theorem isDouble_ofScaled (zeroSign : Bool) (n : Int) (exponent : Int) :
    IsDouble (ofScaled zeroSign n exponent) := by
  unfold ofScaled
  split_ifs
  · exact isDouble_zero zeroSign
  · exact isDouble_ofQuotient _ _ (posPow_pos two_pos _)

theorem isDouble_negate {x : Binary64} (hx : IsDouble x) : IsDouble x.negate := by
  cases x <;> exact hx

theorem isDouble_add (x y : Binary64) : IsDouble (x.add y) := by
  unfold add
  split
  · trivial
  · trivial
  · split_ifs <;> trivial
  · trivial
  · trivial
  · exact isDouble_ofScaled ..

/-- The last digit of the mantissa is worth more than the distance to a number this close. -/
theorem abs_sub_lt_of_close {q : ℚ} {mantissa : Nat} {exponent : Int} {bound : ℚ}
    (hmantissa : (mantissa : ℚ) < bound * (2 * 10 ^ 16))
    (h : |q - mantissa * 2 ^ exponent| * (2 * 10 ^ 16) ≤ mantissa * 2 ^ exponent) :
    |q - mantissa * 2 ^ exponent| < bound * 2 ^ exponent := by
  have hpow : (0 : ℚ) < 2 ^ exponent := by positivity
  have hlt := mul_lt_mul_of_pos_right hmantissa hpow
  linarith

section

variable (negative : Bool) {mantissa num den : Nat} {exponent : Int}

/-- A number between doubles of one exponent is rounded to the one that is less than half a step
away. -/
theorem ofQuotient_of_fits (hfinite : IsFinite mantissa exponent) (hnum : 0 < num) (hden : 0 < den)
    (hfits : Fits (num / den) exponent)
    (hnear : |(num : ℚ) / den - mantissa * 2 ^ exponent| < 1 / 2 * 2 ^ exponent) :
    ofQuotient negative num den = .finite negative mantissa exponent := by
  rw [ofQuotient, if_neg hnum.ne']
  simp only [exponentFor_eq hden hnum hfits, mantissaAt_of_near hden hnear,
    if_neg hfinite.lt.ne, if_neg (not_lt.2 hfinite.le_max)]

/-- Below a power of two doubles are denser, so half a step is half of what it is above. -/
theorem ofQuotient_of_below (hmin : minExponent < exponent) (hmax : exponent ≤ maxExponent)
    (hnum : 0 < num) (hden : 0 < den) (hless : (num : ℚ) / den < 2 ^ (exponent + 52))
    (hnear : |(num : ℚ) / den - mantissaBound * 2 ^ (exponent - 1)| <
      1 / 2 * 2 ^ (exponent - 1)) :
    ofQuotient negative num den = .finite negative (mantissaBound / 2) exponent := by
  have hfits : Fits (num / den) (exponent - 1) := by
    refine ⟨by omega, ?_, .inr ?_⟩
    · rwa [show exponent - 1 + 53 = exponent + 52 by omega]
    · have hpow : (0 : ℚ) < 2 ^ (exponent - 1) := by positivity
      have hbounds := abs_lt.1 hnear
      rw [← half_mantissaBound_mul]
      norm_num [mantissaBound] at hbounds ⊢
      linarith
  rw [ofQuotient, if_neg hnum.ne']
  simp only [exponentFor_eq hden hnum hfits, mantissaAt_of_near hden hnear, if_true,
    sub_add_cancel, if_neg (not_lt.2 hmax)]

/-- A double with a number below its power of two less than half a step away is that power. -/
theorem IsFinite.eq_half_of_lt {q : ℚ} (hfinite : IsFinite mantissa exponent)
    (hmin : exponent ≠ minExponent) (hless : q < 2 ^ (exponent + 52))
    (hnear : |q - mantissa * 2 ^ exponent| < 1 / 2 * 2 ^ exponent) :
    mantissa = mantissaBound / 2 := by
  have hpow : (0 : ℚ) < 2 ^ exponent := by positivity
  have hbounds := abs_lt.1 hnear
  have hle := hfinite.normal.resolve_right hmin
  rw [← half_mantissaBound_mul] at hless
  by_contra hne
  have hsucc : ((mantissaBound / 2 : ℕ) : ℚ) + 1 ≤ mantissa := by
    exact_mod_cast (by omega : mantissaBound / 2 + 1 ≤ mantissa)
  have hmul := mul_le_mul_of_nonneg_right hsucc hpow.le
  linarith

/-- A number this close to a double is rounded to it. -/
theorem ofQuotient_of_close (hfinite : IsFinite mantissa exponent) (hmantissa : 0 < mantissa)
    (hden : 0 < den)
    (h : |(num : ℚ) / den - mantissa * 2 ^ exponent| * (2 * 10 ^ 16) ≤ mantissa * 2 ^ exponent) :
    ofQuotient negative num den = .finite negative mantissa exponent := by
  have hpow : (0 : ℚ) < 2 ^ exponent := by positivity
  have hvalue : (0 : ℚ) < mantissa * 2 ^ exponent := mul_pos (Nat.cast_pos.2 hmantissa) hpow
  have hlt : (mantissa : ℚ) + 1 ≤ 2 ^ 53 := by exact_mod_cast hfinite.lt
  have hnear : |(num : ℚ) / den - mantissa * 2 ^ exponent| < 1 / 2 * 2 ^ exponent :=
    abs_sub_lt_of_close (by linarith) h
  have hupper : (num : ℚ) / den < 2 ^ (exponent + 53) := by
    have hbounds := abs_lt.1 hnear
    have hmul := mul_le_mul_of_nonneg_right hlt hpow.le
    rw [← mantissaBound_mul]
    norm_num [mantissaBound] at hmul ⊢
    linarith
  have hnum : 0 < num := by
    rcases Nat.eq_zero_or_pos num with rfl | hpos
    · simp only [Nat.cast_zero, zero_div, zero_sub, abs_neg, abs_of_pos hvalue] at h
      linarith
    · exact hpos
  by_cases hfits : Fits (num / den) exponent
  · exact ofQuotient_of_fits negative hfinite hnum hden hfits hnear
  · -- The double is a power of two and the number is below it, where doubles are denser.
    have hmin : exponent ≠ minExponent := fun hmin => hfits ⟨hfinite.min_le, hupper, .inl hmin⟩
    have hless : (num : ℚ) / den < 2 ^ (exponent + 52) :=
      not_le.1 fun hle => hfits ⟨hfinite.min_le, hupper, .inr hle⟩
    obtain rfl : mantissa = mantissaBound / 2 := hfinite.eq_half_of_lt hmin hless hnear
    have hquarter : ((mantissaBound / 2 : ℕ) : ℚ) < 1 / 4 * (2 * 10 ^ 16) := by
      norm_num [mantissaBound]
    have hclose := abs_sub_lt_of_close hquarter h
    have hstep : (2 : ℚ) ^ exponent = 2 * 2 ^ (exponent - 1) := by
      rw [← zpow_one_add₀ two_ne_zero, add_sub_cancel]
    have hvalue' : ((mantissaBound / 2 : ℕ) : ℚ) * 2 ^ exponent =
        mantissaBound * 2 ^ (exponent - 1) := by
      rw [hstep]
      norm_num [mantissaBound]
      ring
    rw [hvalue', hstep] at hclose
    have hmin' : minExponent < exponent := lt_of_le_of_ne hfinite.min_le (Ne.symm hmin)
    apply ofQuotient_of_below negative hmin' hfinite.le_max hnum hden hless
    linarith

end

end PhpArray.Binary64
