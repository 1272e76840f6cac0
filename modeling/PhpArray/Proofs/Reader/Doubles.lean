import PhpArray.Proofs.Double.Shortest
import PhpArray.Proofs.Reader.Atoms

/-!
Doubles that are written are read as themselves. The text of a number is made of its significant
digits and the power of ten of the first of them; where the point stands changes nothing.
-/

namespace PhpArray.Php

open Binary64

/-- A number with a point or an exponent is read as the double next to its decimal value. -/
theorem readNumeral_float {whole : List Char} (fraction? : Option (List Char)) {power : Int}
    {rest rest' : List Char} (hne : whole ≠ []) (hwhole : ∀ c ∈ whole, c.isDigit = true)
    (hfraction : ∀ fraction ∈ fraction?, ∀ c ∈ fraction, c.isDigit = true)
    (hrest : ∀ c ∈ rest.head?, c.isDigit = false ∧ c ≠ '.')
    (hpower : readPower? rest = some (power, rest') ∨
      fraction? ≠ none ∧ readPower? rest = none ∧ power = 0 ∧ rest' = rest) :
    readNumeral (whole ++ (pointText fraction? ++ rest)) =
      some (.float (.ofDecimal false (Nat.ofDigitChars 10 (whole ++ fraction?.getD []) 0)
        (power - (fraction?.getD []).length)), rest') := by
  unfold readNumeral
  rw [splitPoint_eq hwhole hfraction hrest]
  dsimp only
  rw [if_neg fun h => hne h.1]
  rcases hpower with hsome | ⟨hpoint, hnone, rfl, rfl⟩
  · rw [hsome]
    cases fraction? <;> rfl
  · rw [hnone]
    cases fraction? with
    | none => exact absurd rfl hpoint
    | some fraction => simp

theorem readPower?_digits (negative : Bool) {digits rest : List Char}
    (hdigits : ∀ c ∈ digits, c.isDigit = true) (hne : digits ≠ [])
    (hrest : ∀ c ∈ rest.head?, c.isDigit = false) :
    readPower? ('e' :: (if negative then '-' else '+') :: (digits ++ rest)) =
      some (Numeral.signed negative (Nat.ofDigitChars 10 digits 0), rest) := by
  have hsign : Numeral.splitSign ((if negative then '-' else '+') :: (digits ++ rest)) =
      (negative, digits ++ rest) := by
    cases negative <;> rfl
  rw [readPower?, hsign]
  dsimp only
  rw [takeWhile_boundary hdigits hrest, dropWhile_boundary hdigits hrest,
    if_pos ⟨.inl rfl, hne⟩]

/-- The exponent is read whatever its number of digits. -/
theorem readPower?_powerText (layout : Decimal.Layout) (power : Int) {rest : List Char}
    (hrest : ∀ c ∈ rest.head?, c.isDigit = false) :
    readPower? (layout.powerText power ++ rest) = some (power, rest) := by
  unfold Decimal.Layout.powerText
  extract_lets digits
  have hdigits : ∀ c ∈ List.replicate (layout.powerWidth - digits.length) '0' ++ digits,
      c.isDigit = true := by
    intro c hc
    rcases List.mem_append.1 hc with hzero | hdigit
    · rw [List.eq_of_mem_replicate hzero]
      rfl
    · exact isDigit_of_mem_toDigits c hdigit
  have hne : List.replicate (layout.powerWidth - digits.length) '0' ++ digits ≠ [] := by
    simp [digits, Nat.toDigits_ne_nil]
  have hvalue : Nat.ofDigitChars 10
      (List.replicate (layout.powerWidth - digits.length) '0' ++ digits) 0 = power.natAbs := by
    rw [Nat.ofDigitChars_append, Nat.ofDigitChars_replicate_zero, Nat.mul_zero,
      Nat.ofDigitChars_ten_toDigits]
  have hread := readPower?_digits (decide (power < 0)) hdigits hne hrest
  rw [hvalue] at hread
  simp only [decide_eq_true_eq] at hread
  rw [List.cons_append, List.cons_append, hread]
  congr 2
  unfold Numeral.signed
  split_ifs with hneg <;> simp at hneg <;> omega

section

variable (layout : Decimal.Layout) {digits rest : List Char} (lead : Int)

theorem readNumeral_scientific (hne : digits ≠ []) (hdigits : ∀ c ∈ digits, c.isDigit = true)
    (hlead : lead < layout.leastPositional ∨ layout.firstScientific ≤ lead) (hrest : Ends rest) :
    readNumeral (layout.write digits lead ++ rest) =
      some (.float (.ofDecimal false (Nat.ofDigitChars 10 digits 0)
        (lead + 1 - digits.length)), rest) := by
  have hmark : ∀ c ∈ (layout.powerText lead ++ rest).head?, c.isDigit = false ∧ c ≠ '.' := by
    intro c hc
    cases hc
    decide
  have hpower := readPower?_powerText layout lead hrest.not_digit
  unfold Decimal.Layout.write
  rw [if_pos hlead]
  cases digits with
  | nil => exact absurd rfl hne
  | cons digit more =>
      have hdigit : ∀ c ∈ [digit], c.isDigit = true := by simpa using hdigits digit
      have hmore : ∀ c ∈ more, c.isDigit = true := fun c hc => hdigits c (by simp [hc])
      cases more with
      | nil =>
          have hread := readNumeral_float none (by simp) hdigit (by simp) hmark (.inl hpower)
          simpa [pointText] using hread
      | cons second more =>
          have hread := readNumeral_float (some (second :: more)) (by simp) hdigit
            (by simpa using hmore) hmark (.inl hpower)
          have hpoint : lead - (more.length + 1 : Nat) =
              lead + 1 - (more.length + 1 + 1 : Nat) := by
            omega
          simpa [pointText, hpoint] using hread

theorem readNumeral_point {whole : List Char} (fraction : List Char) (hne : whole ≠ [])
    (hwhole : ∀ c ∈ whole, c.isDigit = true) (hfraction : ∀ c ∈ fraction, c.isDigit = true)
    (hrest : Ends rest) :
    readNumeral (whole ++ '.' :: fraction ++ rest) =
      some (.float (.ofDecimal false (Nat.ofDigitChars 10 (whole ++ fraction) 0)
        (-fraction.length)), rest) := by
  have hends : ∀ c ∈ rest.head?, c.isDigit = false ∧ c ≠ '.' :=
    fun c hc => ⟨hrest.not_digit c hc, (hrest c hc).2⟩
  have hread := readNumeral_float (some fraction) hne hwhole (by simpa using hfraction) hends
    (.inr ⟨by simp, hrest.readPower?, rfl, rfl⟩)
  simpa [pointText] using hread

theorem isDigit_of_mem_zeros {count : Nat} : ∀ c ∈ List.replicate count '0', c.isDigit = true := by
  intro c hc
  rw [List.eq_of_mem_replicate hc]
  rfl

/-- Whatever the layout, what is written is read as the number of its digits, the first of which
stands for the given power of ten. -/
theorem readNumeral_write (hne : digits ≠ []) (hdigits : ∀ c ∈ digits, c.isDigit = true)
    (hrest : Ends rest) :
    readNumeral (layout.write digits lead ++ rest) =
      some (.float (.ofDecimal false (Nat.ofDigitChars 10 digits 0)
        (lead + 1 - digits.length)), rest) := by
  by_cases hscientific : lead < layout.leastPositional ∨ layout.firstScientific ≤ lead
  · exact readNumeral_scientific layout lead hne hdigits hscientific hrest
  unfold Decimal.Layout.write
  rw [if_neg hscientific]
  split_ifs with hsmall
  · have hfraction : ∀ c ∈ List.replicate (-lead - 1).toNat '0' ++ digits, c.isDigit = true :=
      List.forall_mem_append.2 ⟨isDigit_of_mem_zeros, hdigits⟩
    have hvalue : Nat.ofDigitChars 10
        (['0'] ++ (List.replicate (-lead - 1).toNat '0' ++ digits)) 0 =
          Nat.ofDigitChars 10 digits 0 := by
      simp [Nat.ofDigitChars_append, Nat.ofDigitChars_cons]
    have hpower : -((List.replicate (-lead - 1).toNat '0' ++ digits).length : Int) =
        lead + 1 - digits.length := by
      simp only [List.length_append, List.length_replicate]
      omega
    have hread := readNumeral_point _ (List.cons_ne_nil '0' []) (@isDigit_of_mem_zeros 1)
      hfraction hrest
    rw [hvalue, hpower] at hread
    simpa using hread
  · extract_lets before whole fraction
    have hbefore : (before : Int) = lead + 1 := by omega
    rcases Nat.lt_or_ge before digits.length with hlong | hshort
    · have hwhole : whole = digits.take before := by
        simp [whole, Nat.sub_eq_zero_of_le hlong.le]
      have hfraction : fraction.isEmpty = false := by simpa [fraction] using hlong
      have hnePrefix : digits.take before ≠ [] := by
        simp [hne, before]
      have hpower : -((digits.drop before).length : Int) = lead + 1 - digits.length := by
        rw [List.length_drop]
        omega
      have hread := readNumeral_point (digits.drop before) hnePrefix
        (fun c hc => hdigits c (List.mem_of_mem_take hc))
        (fun c hc => hdigits c (List.mem_of_mem_drop hc)) hrest
      rw [List.take_append_drop, hpower] at hread
      rw [hwhole, hfraction]
      exact hread
    · have hwhole : whole = digits ++ List.replicate (before - digits.length) '0' := by
        simp [whole, List.take_of_length_le hshort]
      have hfraction : fraction.isEmpty = true := by simpa [fraction] using hshort
      have hread := readNumeral_point ['0'] (by simp [hne])
        (List.forall_mem_append.2 ⟨hdigits, @isDigit_of_mem_zeros (before - digits.length)⟩)
        (@isDigit_of_mem_zeros 1) hrest
      have hvalue : ((Nat.ofDigitChars 10
          (digits ++ List.replicate (before - digits.length) '0' ++ ['0']) 0 : ℕ) : ℚ) *
            10 ^ (-(['0'].length : Int)) =
          Nat.ofDigitChars 10 digits 0 * 10 ^ (lead + 1 - digits.length) := by
        rw [Nat.ofDigitChars_append, Nat.ofDigitChars_append, Nat.ofDigitChars_replicate_zero,
          show lead + 1 - digits.length = ((before - digits.length : ℕ) : Int) by omega]
        simp [Nat.ofDigitChars_cons]
        ring
      rw [Decimal.ofDecimal_congr false hvalue] at hread
      rw [hwhole, hfraction]
      exact hread

end

/-- The zeros at the end of digits can be taken off. -/
theorem exists_zeros (digits : List Char) : ∃ count,
    digits = (digits.reverse.dropWhile (· == '0')).reverse ++ List.replicate count '0' := by
  refine ⟨(digits.reverse.takeWhile (· == '0')).length, ?_⟩
  have hzeros : digits.reverse.takeWhile (· == '0') =
      List.replicate (digits.reverse.takeWhile (· == '0')).length '0' := by
    refine List.eq_replicate_iff.2 ⟨rfl, fun c hc => ?_⟩
    have hzero := List.mem_takeWhile_imp hc
    exact eq_of_beq hzero
  rw [← List.reverse_replicate, ← hzeros, ← List.reverse_append, List.takeWhile_append_dropWhile,
    List.reverse_reverse]

/-- The digits of a number up to the last one that is no zero, and the zeros behind it. -/
theorem significant_digits {n : Nat} (hn : n ≠ 0) :
    ∃ significant count, ((Nat.toDigits 10 n).reverse.dropWhile (· == '0')).reverse = significant ∧
      Nat.toDigits 10 n = significant ++ List.replicate count '0' ∧ significant ≠ [] ∧
      ∀ c ∈ significant, c.isDigit = true := by
  obtain ⟨count, hcount⟩ := exists_zeros (Nat.toDigits 10 n)
  refine ⟨_, count, rfl, hcount, fun hnil => hn ?_, fun c hc => ?_⟩
  · have hvalue := @Nat.ofDigitChars_ten_toDigits n
    rw [hcount, hnil, List.nil_append, Nat.ofDigitChars_replicate_zero, Nat.mul_zero] at hvalue
    exact hvalue.symm
  · exact isDigit_of_mem_toDigits c (by rw [hcount]; exact List.mem_append_left _ hc)

theorem readNumeral_writePositive {mantissa : Nat} {exponent : Int}
    (hfinite : IsFinite mantissa exponent) (hmantissa : 0 < mantissa) {rest : List Char}
    (hrest : Ends rest) :
    readNumeral (Decimal.writePositive mantissa exponent ++ rest) =
      some (.float (.finite false mantissa exponent), rest) := by
  have hshortest := Decimal.ofDecimal_shortest hfinite hmantissa
  have hn := Decimal.shortest_ne_zero hfinite hmantissa
  unfold Decimal.writePositive
  generalize Decimal.shortest mantissa exponent = found at hshortest hn ⊢
  obtain ⟨n, power⟩ := found
  dsimp only at hshortest hn ⊢
  obtain ⟨significant, count, hsignificant, hcount, hne, hdigits⟩ := significant_digits hn
  rw [hsignificant]
  have hvalue : Nat.ofDigitChars 10 significant 0 * 10 ^ count = n := by
    have hall := @Nat.ofDigitChars_ten_toDigits n
    rw [hcount, Nat.ofDigitChars_append, Nat.ofDigitChars_replicate_zero] at hall
    rw [Nat.mul_comm, hall]
  have hlength : (Nat.toDigits 10 n).length = significant.length + count := by
    rw [hcount, List.length_append, List.length_replicate]
  rw [readNumeral_write Decimal.layout _ hne hdigits hrest, ← hshortest]
  congr 3
  apply Decimal.ofDecimal_congr false
  rw [hlength, ← hvalue,
    show power + (significant.length + count : ℕ) - 1 + 1 - significant.length =
      (count : Int) + power by omega, zpow_add₀ (by norm_num), zpow_natCast]
  push_cast
  ring

theorem readNumeral_writeFinite {mantissa : Nat} {exponent : Int}
    (hfinite : IsFinite mantissa exponent) {rest : List Char} (hrest : Ends rest) :
    readNumeral ((if mantissa = 0 then ['0', '.', '0'] else Decimal.writePositive mantissa exponent)
      ++ rest) = some (.float (.finite false mantissa exponent), rest) := by
  split_ifs with hzero
  · subst hzero
    obtain rfl : exponent = minExponent := hfinite.normal.resolve_left (by decide)
    have hzeros := @isDigit_of_mem_zeros 1
    exact readNumeral_point ['0'] (List.cons_ne_nil '0' []) hzeros hzeros hrest
  · exact readNumeral_writePositive hfinite (Nat.pos_of_ne_zero hzero) hrest

/-- A double that is written is read as itself. -/
theorem readAtom_ofFloat {x : Binary64} (hx : x.IsDouble) {rest : List Char} (hrest : Ends rest) :
    readAtom ((Literal.ofFloat x).toList ++ rest) = some (.float x, rest) := by
  cases x with
  | nan => exact readAtom_constant "NAN".toList rfl rfl rfl rfl hrest
  | infinite negative =>
      cases negative with
      | false => exact readAtom_constant "INF".toList rfl rfl rfl rfl hrest
      | true =>
          have hread := readUnsigned_name "INF".toList rfl rfl rfl hrest
          exact readAtom_minus rfl rfl hread rfl
  | finite negative mantissa exponent =>
      have hread := readNumeral_writeFinite hx hrest
      simp only [Literal.ofFloat, Decimal.writeFinite, String.toList_ofList]
      cases negative with
      | false => exact readAtom_of_readNumeral hread
      | true => exact readAtom_minus_of_readNumeral hread rfl

/-! ### The doubles of scalars -/

theorem isDouble_readUnsigned? {negative : Bool} {text : List Char} {x : Binary64}
    (h : Decimal.readUnsigned? negative text = some x) : x.IsDouble := by
  unfold Decimal.readUnsigned? at h
  extract_lets name at h
  split_ifs at h
  · cases h
    trivial
  · cases h
    trivial
  · obtain ⟨parts, -, hparts⟩ := Option.bind_eq_some_iff.1 h
    cases hparts
    exact isDouble_ofDecimal ..

theorem isDouble_sexagesimalFrom {power : Nat} {sum x : Binary64} {parts : List Binary64}
    (hsum : sum.IsDouble) (h : Yaml.sexagesimalFrom power sum parts = .ok x) : x.IsDouble := by
  induction parts generalizing power sum with
  | nil =>
      cases h
      exact hsum
  | cons part higher ih =>
      rw [Yaml.sexagesimalFrom] at h
      split at h
      next => cases h
      next => exact ih (isDouble_add ..) h

theorem isDouble_readUnsignedFloat {text : List Char} {x : Binary64}
    (h : Yaml.readUnsignedFloat text = .ok x) : x.IsDouble := by
  unfold Yaml.readUnsignedFloat at h
  split_ifs at h
  · cases h
    trivial
  · cases h
    trivial
  · split at h
    next => cases h
    next => exact isDouble_sexagesimalFrom (isDouble_zero false) h
  · split at h
    next => cases h
    next hread =>
      cases h
      exact isDouble_readUnsigned? hread

/-- Whatever the text of a number, it stands for a double. -/
theorem isDouble_readFloat {text : List Char} {x : Binary64} (h : Yaml.readFloat text = .ok x) :
    x.IsDouble := by
  unfold Yaml.readFloat at h
  split at h
  next negative unsigned _ =>
    cases hread : Yaml.readUnsignedFloat unsigned with
    | error fault =>
        rw [hread] at h
        cases h
    | ok y =>
        rw [hread] at h
        cases h
        split_ifs
        · exact isDouble_negate (isDouble_readUnsignedFloat hread)
        · exact isDouble_readUnsignedFloat hread

end PhpArray.Php
