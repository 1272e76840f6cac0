import PhpArray.Proofs.NumberTexts

/-!
Integers as PHP evaluates them with 64 bits. A literal has no sign; one of more than 63 bits is a
double, and a minus in front is applied to that. So the least integer of 64 bits has no literal in
base ten. The main statement is that an integer of a scalar is written in base ten and evaluates to
itself if it is above the least integer of 64 bits and not above the greatest, and to a double
otherwise.
-/

namespace PhpArray

open Yaml

theorem Binary64.negate_ofQuotient (negative : Bool) (num den : Nat) :
    (ofQuotient negative num den).negate = ofQuotient (!negative) num den := by
  unfold ofQuotient
  dsimp only
  split
  · rfl
  · split <;> split <;> rfl

namespace Php

/-- The value of a literal without a sign, where integers have 64 bits. -/
def narrow : Atom → Atom
  | .int n => if n < 0x8000000000000000 then .int n else .float (.ofQuotient false n.natAbs 1)
  | atom => atom

/-- Evaluates a number or a constant, where integers have 64 bits. A sign is applied to the value of
the literal behind it. -/
def evaluate (text : List Char) : Option (Atom × List Char) :=
  let (negative, unsigned) := Numeral.splitSign text
  (readUnsigned (skipBlanks unsigned)).bind fun (atom, rest) =>
    (if negative then negate? (narrow atom) else some (narrow atom)).map fun value => (value, rest)

/-- What the text of an integer in base ten evaluates to. -/
def ofDecimalText (n : Int) : Atom :=
  if n.natAbs < 0x8000000000000000 then .int n
  else .float (.ofQuotient (decide (n < 0)) n.natAbs 1)

variable {text rest : List Char} {atom : Atom}

/-- What begins with neither blanks nor a sign is evaluated as it is read. -/
theorem evaluate_of_readUnsigned {c : Char} (hhead : text.head? = some c)
    (hplain : isBlank c = false ∧ c ≠ '-' ∧ c ≠ '+')
    (hread : readUnsigned text = some (atom, rest)) :
    evaluate text = some (narrow atom, rest) := by
  obtain ⟨more, rfl⟩ := List.head?_eq_some_iff.1 hhead
  obtain ⟨hblank, hminus, hplus⟩ := hplain
  have hsign := Numeral.splitSign_of_ne hminus hplus more
  have hskip : skipBlanks (c :: more) = c :: more := by simp [skipBlanks, hblank]
  simp only [evaluate, hsign, hskip, hread, Option.bind_some, Bool.false_eq_true, if_false,
    Option.map_some]

/-- The sign is applied to the value of the numeral. -/
theorem evaluate_minus_of_readNumeral (h : readNumeral text = some (atom, rest)) :
    evaluate ('-' :: text) = (negate? (narrow atom)).map fun value => (value, rest) := by
  obtain ⟨c, hhead, -, hblank, -⟩ := head_of_readNumeral h
  obtain ⟨more, rfl⟩ := List.head?_eq_some_iff.1 hhead
  have hskip : skipBlanks (c :: more) = c :: more := by simp [skipBlanks, hblank]
  simp only [evaluate, Numeral.splitSign, hskip, readUnsigned_of_readNumeral h, Option.bind_some,
    if_true]

theorem evaluate_of_readNumeral (h : readNumeral text = some (atom, rest)) :
    evaluate text = some (narrow atom, rest) := by
  obtain ⟨c, hhead, -, hblank, hplain⟩ := head_of_readNumeral h
  simp only [List.mem_cons, List.not_mem_nil, or_false, not_or] at hplain
  exact evaluate_of_readUnsigned hhead ⟨hblank, hplain.1, hplain.2.1⟩
    (readUnsigned_of_readNumeral h)

theorem evaluate_decimal (n : Int) (hrest : Ends rest) :
    evaluate (decimal n ++ rest) = some (ofDecimalText n, rest) := by
  have hread := readNumeral_toDigits n.natAbs hrest
  have hnarrow : narrow (.int n.natAbs) =
      if n.natAbs < 0x8000000000000000 then .int n.natAbs
      else .float (.ofQuotient false n.natAbs 1) := by
    simp only [narrow, Int.natAbs_natCast]
    exact if_congr (by omega) rfl rfl
  unfold decimal ofDecimalText
  by_cases hneg : n < 0
  · have hvalue : -(n.natAbs : Int) = n := by omega
    rw [if_pos hneg, List.cons_append, evaluate_minus_of_readNumeral hread, hnarrow]
    split
    · rw [negate?, hvalue, Option.map_some]
    · rw [negate?, Binary64.negate_ofQuotient, decide_eq_true hneg, Option.map_some]
      rfl
  · have hvalue : (n.natAbs : Int) = n := by omega
    rw [if_neg hneg, evaluate_of_readNumeral hread, hnarrow, hvalue, decide_eq_false hneg]

theorem evaluate_null (hrest : Ends rest) :
    evaluate ("null".toList ++ rest) = some (.null, rest) :=
  evaluate_of_readUnsigned rfl (by decide) (readUnsigned_name "null".toList rfl rfl rfl hrest)

theorem ofDecimalText_eq_int_iff {n : Int} :
    ofDecimalText n = .int n ↔ -0x8000000000000000 < n ∧ n < 0x8000000000000000 := by
  unfold ofDecimalText
  split
  next hless =>
    simp only [true_iff]
    omega
  next hmore =>
    simp only [reduceCtorEq, false_iff]
    omega

end Php

/-- An integer that a scalar denotes is kept as far as PHP can. The scalar is written as the integer
in base ten if that has 4300 digits or fewer, and the text, whatever stands behind it, evaluates to
the integer if and only if it is above the least integer of 64 bits and not above the greatest. The
text of any other integer evaluates to the double nearest to it. -/
theorem integer_kept_iff (s : Scalar) (n : Int) (hkind : Literal.kindOf s.tag = .int)
    (hvalue : readInt? s.value.toList = some n) :
    ∃ text, (renderScalar s).outcome = .ok text ∧
      (n.natAbs < 10 ^ Numeral.maxDecimalDigits → text.toList = Php.decimal n) ∧
      ∀ rest, Php.Ends rest → ∃ atom, Php.evaluate (text.toList ++ rest) = some (atom, rest) ∧
        (atom = .int n ↔ -0x8000000000000000 < n ∧ n < 0x8000000000000000) ∧
        (n.natAbs < 10 ^ Numeral.maxDecimalDigits →
          n ≤ -0x8000000000000000 ∨ 0x8000000000000000 ≤ n →
          atom = .float (.ofQuotient (decide (n < 0)) n.natAbs 1)) := by
  rw [outcome_renderScalar, hkind, Literal.ofText, hvalue, Option.bind_some,
    Numeral.write?_decimal]
  by_cases hlimit : n.natAbs < 10 ^ Numeral.maxDecimalDigits
  · refine ⟨String.ofList (Php.decimal n), by rw [if_pos hlimit]; rfl, ?_⟩
    rw [String.toList_ofList]
    refine ⟨fun _ => rfl, fun rest hrest => ⟨_, Php.evaluate_decimal n hrest,
      Php.ofDecimalText_eq_int_iff, fun _ hfar => ?_⟩⟩
    rw [Php.ofDecimalText, if_neg (by omega)]
  · refine ⟨"null", by rw [if_neg hlimit]; rfl, fun h => absurd h hlimit, fun rest hrest =>
      ⟨_, Php.evaluate_null hrest, ?_, fun h => absurd h hlimit⟩⟩
    have hdigits : 0x8000000000000000 ≤ 10 ^ Numeral.maxDecimalDigits :=
      (by norm_num : 0x8000000000000000 ≤ 10 ^ 19).trans
        (Nat.pow_le_pow_right (by omega) (by decide))
    simp only [reduceCtorEq, false_iff]
    omega

theorem integer_kept_iff_greatest :
    let s : Scalar := ⟨coreTag "int", "0x7FFF_FFFF_FFFF_FFFF"⟩
    let n : Int := 0x7FFFFFFFFFFFFFFF
    Literal.kindOf s.tag = .int ∧ readInt? s.value.toList = some n ∧
      ∃ text, (renderScalar s).outcome = .ok text ∧
        Php.evaluate (text.toList ++ [',']) = some (.int n, [',']) := by
  intro s n
  have hkind : Literal.kindOf s.tag = .int := by decide
  have hvalue : readInt? s.value.toList = some n := by decide +kernel
  obtain ⟨text, htext, -, hevaluate⟩ := integer_kept_iff s n hkind hvalue
  obtain ⟨atom, hatom, hint, -⟩ := hevaluate [','] (Php.ends_cons rfl (by decide) [])
  obtain rfl := hint.2 (by decide)
  exact ⟨hkind, hvalue, text, htext, hatom⟩

/-- The integer behind the greatest one of 64 bits evaluates to a double, and so does the least one,
which has 64 bits. -/
theorem integer_bounds_not_kept :
    let above : Scalar := ⟨coreTag "int", "9223372036854775808"⟩
    let least : Scalar := ⟨coreTag "int", "-0x8000000000000000"⟩
    readInt? above.value.toList = some 0x8000000000000000 ∧
      (renderScalar above).outcome = .ok "9223372036854775808" ∧
      Php.evaluate "9223372036854775808;".toList =
        some (.float (.finite false 0x10000000000000 11), [';']) ∧
      readInt? least.value.toList = some (-0x8000000000000000) ∧
      Php.IsInt64 (-0x8000000000000000) ∧
      (renderScalar least).outcome = .ok "-9223372036854775808" ∧
      Php.evaluate "-9223372036854775808;".toList =
        some (.float (.finite true 0x10000000000000 11), [';']) :=
  ⟨by decide +kernel, by decide +kernel, by decide +kernel, by decide +kernel, by decide,
    by decide +kernel, by decide +kernel⟩

end PhpArray
