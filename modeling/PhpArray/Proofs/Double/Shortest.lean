import PhpArray.Number.Decimal
import PhpArray.Proofs.Double.Rounding

/-!
The fewest digits of a double. Decimal numbers of one value are read as one double, and the digits
that are written for a double are read as it: with seventeen digits the nearest decimal number is
always close enough, so the search for fewer ends.
-/

namespace PhpArray

open Binary64

theorem Binary64.decimal_eq (n : Nat) (power : Int) :
    ((n * posPow 10 power : ℕ) : ℚ) / posPow 10 (-power) = n * 10 ^ power := by
  have hpow := posPow_div_posPow_neg (Nat.ofNat_pos : 0 < 10) power
  push_cast at hpow ⊢
  rw [mul_div_assoc, hpow]

namespace Decimal

theorem lt_pow_length_toDigits (n : Nat) : n < 10 ^ (Nat.toDigits 10 n).length :=
  (Nat.length_toDigits_le_iff (by omega) Nat.length_toDigits_pos).1 le_rfl

theorem pow_length_toDigits_le {n : Nat} (hn : 0 < n) :
    10 ^ ((Nat.toDigits 10 n).length - 1) ≤ n := by
  rcases Nat.eq_zero_or_pos ((Nat.toDigits 10 n).length - 1) with hzero | hpos
  · rw [hzero]
    exact hn
  · apply not_lt.1
    intro hlt
    have hle := (Nat.length_toDigits_le_iff (by omega) hpos).2 hlt
    omega

/-- The decimal digits of a number before its power of ten. -/
theorem digits_bounds {n : Nat} (hn : 0 < n) (power : Int) :
    (10 : ℚ) ^ ((Nat.toDigits 10 n).length + power - 1) ≤ n * 10 ^ power ∧
      (n : ℚ) * 10 ^ power < 10 ^ ((Nat.toDigits 10 n).length + power) := by
  have hpos : 0 < (Nat.toDigits 10 n).length := Nat.length_toDigits_pos
  have hlow : ((10 ^ ((Nat.toDigits 10 n).length - 1) : ℕ) : ℚ) ≤ n := by
    exact_mod_cast pow_length_toDigits_le hn
  have hhigh : (n : ℚ) < (10 ^ (Nat.toDigits 10 n).length : ℕ) := by
    exact_mod_cast lt_pow_length_toDigits n
  generalize (Nat.toDigits 10 n).length = length at hpos hlow hhigh ⊢
  push_cast at hlow hhigh
  have hpow : (0 : ℚ) < 10 ^ power := by positivity
  constructor
  · rw [show (length : Int) + power - 1 = ((length - 1 : ℕ) : Int) + power by omega,
      zpow_add₀ (by norm_num), zpow_natCast]
    exact mul_le_mul_of_nonneg_right hlow hpow.le
  · rw [zpow_add₀ (by norm_num), zpow_natCast]
    exact mul_lt_mul_of_pos_right hhigh hpow

/-- Decimal numbers of one value are read as the same double. -/
theorem ofDecimal_congr (negative : Bool) {n n' : Nat} {power power' : Int}
    (h : (n : ℚ) * 10 ^ power = n' * 10 ^ power') :
    ofDecimal negative n power = ofDecimal negative n' power' := by
  have hpow : (10 : ℚ) ^ power ≠ 0 := by positivity
  have hpow' : (10 : ℚ) ^ power' ≠ 0 := by positivity
  by_cases hn : n = 0
  · have hn' : n' = 0 := by simpa [hn, hpow'] using h.symm
    rw [ofDecimal, ofDecimal, if_pos hn, if_pos hn']
  · have hn' : n' ≠ 0 := by
      rintro rfl
      simp [hn, hpow] at h
    obtain ⟨hlow, hhigh⟩ := digits_bounds (Nat.pos_of_ne_zero hn) power
    obtain ⟨hlow', hhigh'⟩ := digits_bounds (Nat.pos_of_ne_zero hn') power'
    have hlength : ((Nat.toDigits 10 n).length : Int) + power =
        (Nat.toDigits 10 n').length + power' := by
      rw [h] at hlow hhigh
      have hle := (zpow_lt_zpow_iff_right₀ (by norm_num)).1 (hlow.trans_lt hhigh')
      have hle' := (zpow_lt_zpow_iff_right₀ (by norm_num)).1 (hlow'.trans_lt hhigh)
      omega
    have hquotient := ofQuotient_congr negative (posPow_pos Nat.ofNat_pos (-power))
      (posPow_pos Nat.ofNat_pos (-power')) (by rw [decimal_eq, decimal_eq, h])
    simp only [ofDecimal, if_neg hn, if_neg hn', hlength, hquotient]

/-- A decimal number this close to a double is read as it. -/
theorem ofDecimal_of_close (negative : Bool) {mantissa n : Nat} {exponent power : Int}
    (hfinite : IsFinite mantissa exponent) (hmantissa : 0 < mantissa)
    (h : |(n : ℚ) * 10 ^ power - mantissa * 2 ^ exponent| * (2 * 10 ^ 16) ≤
      mantissa * 2 ^ exponent) :
    ofDecimal negative n power = .finite negative mantissa exponent := by
  have hquotient := ofQuotient_of_close negative hfinite hmantissa
    (posPow_pos Nat.ofNat_pos (-power)) (by rwa [decimal_eq])
  have hlow := hfinite.le_value hmantissa
  have hhigh := hfinite.value_lt
  have hvalue : (0 : ℚ) < mantissa * 2 ^ exponent := lt_of_lt_of_le (by positivity) hlow
  have hmin : (10 : ℚ) ^ (-324 : Int) * 2 < 2 ^ (-1074 : Int) := by
    rw [zpow_neg, zpow_neg, inv_mul_lt_iff₀ (by positivity), ← div_eq_mul_inv,
      lt_div_iff₀ (by positivity)]
    exact_mod_cast (by decide +kernel : 2 * 2 ^ 1074 < 10 ^ 324)
  have hmax : (2 : ℚ) ^ (1024 : Int) * 2 < 10 ^ (309 : Int) := by
    exact_mod_cast (by decide +kernel : 2 ^ 1024 * 2 < 10 ^ 309)
  have hnear : |(n : ℚ) * 10 ^ power - mantissa * 2 ^ exponent| * 2 ≤ mantissa * 2 ^ exponent := by
    have habs := abs_nonneg ((n : ℚ) * 10 ^ power - mantissa * 2 ^ exponent)
    linarith only [habs, h]
  have hbelow := neg_abs_le ((n : ℚ) * 10 ^ power - mantissa * 2 ^ exponent)
  have habove := le_abs_self ((n : ℚ) * 10 ^ power - mantissa * 2 ^ exponent)
  have hn : n ≠ 0 := by
    rintro rfl
    rw [Nat.cast_zero, zero_mul] at hbelow hnear
    linarith only [hbelow, hnear, hvalue]
  obtain ⟨hdigits, hdigits'⟩ := digits_bounds (Nat.pos_of_ne_zero hn) power
  have hdouble : (n : ℚ) * 10 ^ power < mantissa * 2 ^ exponent * 2 := by
    linarith only [hnear, habove, hvalue]
  have hhalf : (mantissa : ℚ) * 2 ^ exponent ≤ n * 10 ^ power * 2 := by
    linarith only [hnear, hbelow]
  have hlarge := hdigits.trans_lt
    (hdouble.trans ((mul_lt_mul_of_pos_right hhigh two_pos).trans hmax))
  have hsmall := (lt_of_mul_lt_mul_right (hmin.trans_le (hlow.trans hhalf)) two_pos.le).trans
    hdigits'
  have hlt := (zpow_lt_zpow_iff_right₀ (by norm_num)).1 hlarge
  have hgt := (zpow_lt_zpow_iff_right₀ (by norm_num)).1 hsmall
  rw [ofDecimal, if_neg hn, if_neg (by omega), if_neg (by omega), hquotient]

/-- The power of the leading digit is not above the number. -/
theorem leadingPower_le {num den : Nat} (hnum : 0 < num) (hden : 0 < den) :
    (10 : ℚ) ^ leadingPower num den ≤ (num : ℚ) / den := by
  have hden' : (0 : ℚ) < den := Nat.cast_pos.2 hden
  have hnum' : (0 : ℚ) < num := Nat.cast_pos.2 hnum
  unfold leadingPower
  split_ifs with hle
  · have hpos : 0 < num / den := Nat.div_pos hle hden
    have hlength : 0 < (Nat.toDigits 10 (num / den)).length := Nat.length_toDigits_pos
    have hpow : 10 ^ ((Nat.toDigits 10 (num / den)).length - 1) * den ≤ num :=
      (Nat.le_div_iff_mul_le hden).1 (pow_length_toDigits_le hpos)
    rw [le_div_iff₀ hden', show ((Nat.toDigits 10 (num / den)).length : Int) - 1 =
      ((Nat.toDigits 10 (num / den)).length - 1 : ℕ) by omega, zpow_natCast]
    exact_mod_cast hpow
  · -- The denominator is at most the numerator times the quotient that is rounded up.
    have hceil : den ≤ num * ((den + num - 1) / num) := by
      have hmod := Nat.div_add_mod (den + num - 1) num
      have hlt := Nat.mod_lt (den + num - 1) hnum
      omega
    have hlt := lt_pow_length_toDigits ((den + num - 1) / num - 1)
    have hpow : den ≤ num * 10 ^ (Nat.toDigits 10 ((den + num - 1) / num - 1)).length :=
      hceil.trans (Nat.mul_le_mul_left num (by omega))
    rw [zpow_neg, zpow_natCast, le_div_iff₀ hden', inv_mul_le_iff₀ (by positivity), mul_comm]
    exact_mod_cast hpow

/-! ### The search for the fewest digits -/

section

variable {mantissa : Nat} {exponent power : Int}

theorem readsBack_of_neighbour? {n : Nat} (h : neighbour? mantissa exponent power = some n) :
    readsBack mantissa exponent n power = true := by
  unfold neighbour? at h
  extract_lets num den low rest at h
  split at h
  next hlow hhigh =>
    split_ifs at h
    · exact Option.some.inj h ▸ hlow
    · exact Option.some.inj h ▸ hhigh
    · exact Option.some.inj h ▸ hlow
    · exact Option.some.inj h ▸ hhigh
  next hlow _ => exact Option.some.inj h ▸ hlow
  next _ hhigh => exact Option.some.inj h ▸ hhigh
  next => cases h

theorem roundDiv_eq_or (num den : Nat) :
    roundDiv num den = num / den ∨ roundDiv num den = num / den + 1 := by
  unfold roundDiv
  dsimp only
  split_ifs
  · exact .inl rfl
  · exact .inr rfl
  · exact .inl rfl
  · exact .inr rfl

theorem neighbour?_ne_none (hfinite : IsFinite mantissa exponent) (hmantissa : 0 < mantissa)
    (h : (10 : ℚ) ^ (power + 16) ≤ mantissa * 2 ^ exponent) :
    neighbour? mantissa exponent power ≠ none := by
  unfold neighbour?
  extract_lets num den low rest
  have hden : 0 < den :=
    Nat.mul_pos (posPow_pos two_pos (-exponent)) (posPow_pos Nat.ofNat_pos power)
  have hpow : (0 : ℚ) < 10 ^ power := by positivity
  have hquotient : (num : ℚ) / den = mantissa * 2 ^ exponent / 10 ^ power := by
    have htwo := posPow_div_posPow_neg two_pos exponent
    have hten := posPow_neg_div_posPow (Nat.ofNat_pos : 0 < 10) power
    push_cast [num, den] at htwo hten ⊢
    rw [mul_div_mul_comm, mul_div_assoc, htwo, hten, ← div_eq_mul_inv]
  have hread : readsBack mantissa exponent (roundDiv num den) power = true := by
    refine beq_iff_eq.2 (ofDecimal_of_close false hfinite hmantissa ?_)
    have hround := mul_le_mul_of_nonneg_right (abs_roundDiv_sub_le num hden) hpow.le
    rw [← abs_of_pos hpow, ← abs_mul, sub_mul, hquotient, abs_of_pos hpow,
      div_mul_cancel₀ _ hpow.ne'] at hround
    rw [zpow_add₀ (by norm_num)] at h
    norm_num at h hround ⊢
    linarith
  rcases roundDiv_eq_or num den with hlow | hhigh
  · rw [hlow] at hread
    rw [hread]
    cases readsBack mantissa exponent (low + 1) power with
    | true =>
        dsimp only
        split_ifs <;> simp
    | false => simp
  · rw [hhigh] at hread
    rw [hread]
    cases readsBack mantissa exponent low power with
    | true =>
        dsimp only
        split_ifs <;> simp
    | false => simp

/-- The digits that are written are read as the number. -/
theorem ofDecimal_shortest (hfinite : IsFinite mantissa exponent) (hmantissa : 0 < mantissa) :
    ofDecimal false (shortest mantissa exponent).1 (shortest mantissa exponent).2 =
      .finite false mantissa exponent := by
  unfold shortest
  extract_lets lead found
  have hlead : (10 : ℚ) ^ lead ≤ mantissa * 2 ^ exponent := by
    have hle := leadingPower_le (Nat.mul_pos hmantissa (posPow_pos two_pos exponent))
      (posPow_pos two_pos (-exponent))
    have hpow := posPow_div_posPow_neg two_pos exponent
    push_cast at hle hpow
    rwa [mul_div_assoc, hpow] at hle
  cases hfound : found with
  | none =>
      have hlast := List.findSome?_eq_none_iff.1 hfound 16 (by decide)
      rw [Option.map_eq_none_iff] at hlast
      exact absurd hlast (neighbour?_ne_none hfinite hmantissa (by simpa using hlead))
  | some digits =>
      obtain ⟨more, -, hmore⟩ := List.exists_of_findSome?_eq_some hfound
      obtain ⟨n, hn, rfl⟩ := Option.map_eq_some_iff.1 hmore
      exact beq_iff_eq.1 (readsBack_of_neighbour? hn)

theorem shortest_ne_zero (hfinite : IsFinite mantissa exponent) (hmantissa : 0 < mantissa) :
    (shortest mantissa exponent).1 ≠ 0 := by
  have hread := ofDecimal_shortest hfinite hmantissa
  intro hzero
  rw [hzero, Binary64.ofDecimal] at hread
  cases hread
  exact absurd hmantissa (lt_irrefl 0)

end

end Decimal

end PhpArray
