import Mathlib.Data.List.TakeDrop
import PhpArray.Proofs.Numerals

/-!
Texts that are read as numbers for sure: digits of a base, and decimal digits with a point or a
power of ten. Reading them fails only for decimal digits that are too many, and then the number has
as many digits.
-/

namespace PhpArray

/-- The first characters can be checked one after the other by their numbers. -/
theorem exists_eq_ofNat {c : Char} {bound : Nat} (h : c.toNat < bound) :
    ∃ n < bound, c = Char.ofNat n :=
  ⟨c.toNat, h, (Char.ofNat_toNat c).symm⟩

theorem le_nine_of_isDigit {c : Char} (hc : c.isDigit = true) : c ≤ '9' := by
  simp only [Char.isDigit, Bool.and_eq_true, decide_eq_true_eq] at hc
  exact hc.2

theorem Text.lt_of_latinDigit? {c : Char} {d : Nat} (h : latinDigit? c = some d) :
    c.toNat < 128 := by
  have hle (top : Char) (htop : top.toNat < 128) (hc : c ≤ top) : c.toNat < 128 :=
    lt_of_le_of_lt (UInt32.le_iff_toNat_le.1 hc) htop
  unfold latinDigit? at h
  split_ifs at h with hdigit hlower hupper
  · exact hle '9' (by decide) hdigit.2
  · exact hle 'z' (by decide) hlower.2
  · exact hle 'Z' (by decide) hupper.2

theorem Text.trim_of_plain {text : List Char} (h : ∀ c ∈ text, isBlank c = false) :
    trim text = text := by
  have hdrop : ∀ text : List Char, (∀ c ∈ text, isBlank c = false) →
      text.dropWhile isBlank = text := by
    intro text h
    cases text with
    | nil => rfl
    | cons c rest => simp [h c List.mem_cons_self]
  have hback : ∀ c ∈ text.reverse, isBlank c = false := fun c hc => h c (List.mem_reverse.1 hc)
  rw [trim, hdrop text h, hdrop text.reverse hback, List.reverse_reverse]

namespace Numeral

/-- The bases that whole numbers are written in. -/
def bases : List Nat := [2, 8, 10, 16]

variable {base : Nat} {c : Char} {text : List Char}

theorem splitSign_of_ne (hminus : c ≠ '-') (hplus : c ≠ '+') (rest : List Char) :
    splitSign (c :: rest) = (false, c :: rest) := by
  unfold splitSign
  split
  next h => exact absurd (List.cons.inj h).1 hminus
  next h => exact absurd (List.cons.inj h).1 hplus
  next => rfl

/-- A digit is neither a blank, a sign nor a bar, stands for itself and marks no base of which it is
a digit. -/
theorem plain_of_digit? (hbase : base ∈ bases) (hc : (digit? base c).isSome = true) :
    Text.isBlank c = false ∧ Text.latinForm c = c ∧ c ∉ ['-', '+', '_', ':'] ∧
      some c.toLower ≠ baseMark? base := by
  obtain ⟨d, hd⟩ := Option.isSome_iff_exists.1 hc
  have hlatin : c.toNat < 128 := Text.lt_of_latinDigit? (Option.filter_eq_some_iff.1 hd).1
  obtain ⟨n, hn, rfl⟩ := exists_eq_ofNat hlatin
  have hall : ∀ base ∈ bases, ∀ n < 128, (digit? base (Char.ofNat n)).isSome = true →
      Text.isBlank (Char.ofNat n) = false ∧ Text.latinForm (Char.ofNat n) = Char.ofNat n ∧
        Char.ofNat n ∉ ['-', '+', '_', ':'] ∧ some (Char.ofNat n).toLower ≠ baseMark? base := by
    decide +kernel
  exact hall base hbase n hn hc

/-- A digit has a value, which is zero for one of them only. -/
theorem digit?_of_isDigit (hc : c.isDigit = true) :
    ∃ d, digit? 10 c = some d ∧ (c ≠ '0' → 0 < d) := by
  have hlow : c.toNat ≤ 57 := UInt32.le_iff_toNat_le.1 (le_nine_of_isDigit hc)
  obtain ⟨n, hn, rfl⟩ := exists_eq_ofNat (Nat.lt_succ_of_le hlow)
  have hall : ∀ n < 58, (Char.ofNat n).isDigit = true →
      ∃ d < 10, digit? 10 (Char.ofNat n) = some d ∧ (Char.ofNat n ≠ '0' → 0 < d) := by
    decide +kernel
  obtain ⟨d, -, hd⟩ := hall n hn hc
  exact ⟨d, hd⟩

theorem isSome_digit? (hc : c.isDigit = true) : (digit? 10 c).isSome = true := by
  obtain ⟨d, hd, -⟩ := digit?_of_isDigit hc
  rw [hd, Option.isSome_some]

theorem digit?_bar (hbase : base ∈ bases) : digit? base '_' = none := by
  cases h : digit? base '_' with
  | none => rfl
  | some d =>
      have hplain := (plain_of_digit? hbase (Option.isSome_iff_exists.2 ⟨d, h⟩)).2.2.1
      exact absurd (by decide) hplain

/-- The number that the digits of a text denote, whatever stands between them. -/
def digitsIn (base : Nat) (text : List Char) : Nat :=
  Text.digitsValue base (text.filterMap (digit? base))

theorem digitsIn_dropBars (hbase : base ∈ bases) (text : List Char) :
    digitsIn base (Yaml.dropBars text) = digitsIn base text := by
  have hfilter : (Yaml.dropBars text).filterMap (digit? base) =
      text.filterMap (digit? base) := by
    rw [Yaml.dropBars, List.filterMap_filter]
    congr 1
    funext c
    split
    next => rfl
    next hbar =>
      obtain rfl : c = '_' := by simpa using hbar
      exact (digit?_bar hbase).symm
  rw [digitsIn, hfilter, digitsIn]

/-- Digits one after the other, without bars, are all read. -/
theorem digits?_of_digits (hbase : base ∈ bases) (hne : text ≠ [])
    (hdigits : ∀ c ∈ text, (digit? base c).isSome = true) :
    digits? base text = some (text.filterMap (digit? base)) := by
  fun_induction digits? base text with
  | case1 => exact absurd rfl hne
  | case2 c =>
      obtain ⟨d, hd⟩ := Option.isSome_iff_exists.1 (hdigits c List.mem_cons_self)
      simp [hd]
  | case3 c rest =>
      have hbar := hdigits '_' (List.mem_cons_of_mem _ List.mem_cons_self)
      rw [digit?_bar hbase] at hbar
      cases hbar
  | case4 c rest hrest _ ih =>
      obtain ⟨hc, hdigits⟩ := List.forall_mem_cons.1 hdigits
      obtain ⟨d, hd⟩ := Option.isSome_iff_exists.1 hc
      rw [ih hrest hdigits]
      simp [hd]

theorem dropBaseMark_of_digits (hbase : base ∈ bases)
    (hdigits : ∀ c ∈ text, (digit? base c).isSome = true) : dropBaseMark base text = text := by
  unfold dropBaseMark
  split
  next mark rest =>
    have hmark := hdigits mark (List.mem_cons_of_mem _ List.mem_cons_self)
    rw [if_neg (plain_of_digit? hbase hmark).2.2.2]
  next => rfl

/-- A numeral of nothing but digits is read as the number that they denote, unless it is too long in
base ten. -/
theorem read?_of_digits (hbase : base ∈ bases) (hne : text ≠ [])
    (hdigits : ∀ c ∈ text, (digit? base c).isSome = true) :
    read? base text =
      if base ≠ 10 ∨ text.length ≤ maxDecimalDigits then some (digitsIn base text : Int)
      else none := by
  have hplain := fun c hc => plain_of_digit? hbase (hdigits c hc)
  have hform : text.map Text.latinForm = text :=
    (List.map_congr_left fun c hc => (hplain c hc).2.1).trans (List.map_id text)
  have hsign : splitSign text = (false, text) := by
    obtain ⟨c, rest, rfl⟩ := List.exists_cons_of_ne_nil hne
    have hc := (hplain c List.mem_cons_self).2.2.1
    simp only [List.mem_cons, not_or] at hc
    exact splitSign_of_ne hc.1 hc.2.1 rest
  simp only [read?, Text.trim_of_plain fun c hc => (hplain c hc).1, hform, hsign,
    dropBaseMark_of_digits hbase hdigits, digits?_of_digits hbase hne hdigits,
    List.filterMap_length_eq_length.2 hdigits, Option.bind_eq_bind, Option.bind_some, signed,
    digitsIn, Bool.false_eq_true, if_false]
  split
  next h => simp [guard, h]
  next h => simp [guard, h]

theorem write?_decimal (n : Int) : write? n =
    if n.natAbs < 10 ^ maxDecimalDigits then some (String.ofList (Php.decimal n)) else none :=
  write?_eq n

/-- Every digit behind a number multiplies it by the base at least. -/
theorem le_foldl_digits (base n : Nat) (digits : List Nat) :
    n * base ^ digits.length ≤ digits.foldl (fun n d => n * base + d) n := by
  induction digits generalizing n with
  | nil => simp
  | cons d digits ih =>
      rw [List.length_cons, List.foldl_cons, Nat.pow_succ', ← Nat.mul_assoc]
      exact (Nat.mul_le_mul_right _ (Nat.le_add_right _ d)).trans (ih _)

end Numeral

/-! ### Parts of a text -/

section

variable {α β : Type} [BEq α] [LawfulBEq α] [BEq β] [LawfulBEq β]

/-- Where every separator and nothing else becomes a separator, the parts change one by one. -/
theorem splitOn_filterMap {f : α → Option β} {a : α} {b : β} (hf : ∀ c, f c = some b ↔ c = a)
    (text : List α) : (text.filterMap f).splitOn b = (text.splitOn a).map (List.filterMap f) := by
  induction text with
  | nil => rfl
  | cons c rest ih =>
      obtain ⟨first, more, hparts⟩ := List.exists_cons_of_ne_nil (List.splitOn_ne_nil a rest)
      rw [hparts, List.map_cons] at ih
      rw [List.splitOn_cons_eq_if_modifyHead c, hparts]
      by_cases hc : c = a
      · rw [List.filterMap_cons_some ((hf c).2 hc), List.splitOn_cons_eq_if_modifyHead, ih]
        simp [hc]
      · rw [if_neg (by simpa using hc)]
        cases hd : f c with
        | none => simp [hd, ih]
        | some d =>
            have hdb : d ≠ b := by
              rintro rfl
              exact hc ((hf c).1 hd)
            rw [List.filterMap_cons_some hd, List.splitOn_cons_eq_if_modifyHead, ih,
              if_neg (by simpa using hdb)]
            simp [hd]

/-- What stands behind the last separator belongs to the last part. -/
theorem splitOn_append {a : α} {back : List α} (hback : a ∉ back) (front : List α) :
    ∃ parts last, front.splitOn a = parts ++ [last] ∧
      (front ++ back).splitOn a = parts ++ [last ++ back] := by
  induction front with
  | nil => exact ⟨[], [], by simp, by simpa using List.splitOn_eq_singleton hback⟩
  | cons c front ih =>
      obtain ⟨parts, last, hfront, hboth⟩ := ih
      rw [List.cons_append, List.splitOn_cons_eq_if_modifyHead, hfront,
        List.splitOn_cons_eq_if_modifyHead, hboth]
      by_cases hc : (c == a) = true
      · rw [if_pos hc, if_pos hc]
        exact ⟨[] :: parts, last, rfl, rfl⟩
      · rw [if_neg hc, if_neg hc]
        cases parts with
        | nil => exact ⟨[], c :: last, rfl, rfl⟩
        | cons first more => exact ⟨(c :: first) :: more, last, rfl, rfl⟩

end

/-! ### Decimal fractions -/

namespace Decimal

open Literal

variable {digits rest power : List Char}

theorem spanDigits_append (hdigits : ∀ c ∈ digits, c.isDigit = true)
    (hrest : ∀ c ∈ rest.head?, c.isDigit = false) :
    spanDigits (digits ++ rest) = (digits.map fun c => c.toNat - 48, rest) := by
  simp only [spanDigits, List.span_eq_takeWhile_dropWhile, Php.takeWhile_boundary hdigits hrest,
    Php.dropWhile_boundary hdigits hrest]

/-- A power of ten that need not be there. -/
def IsPowerOrNone (power : List Char) : Prop :=
  power = [] ∨ IsPower power

namespace IsPowerOrNone

theorem isSome_power? (h : IsPowerOrNone power) : (power? power).isSome = true := by
  rcases h with rfl | @⟨sign, digits, hsign, hne, hdigits⟩
  · rfl
  · have hsplit : ∃ negative, Numeral.splitSign (sign :: digits) = (negative, digits) := by
      rcases hsign with rfl | rfl
      · exact ⟨false, rfl⟩
      · exact ⟨true, rfl⟩
    obtain ⟨negative, hsplit⟩ := hsplit
    have hspan : spanDigits (digits ++ []) = (digits.map fun c => c.toNat - 48, []) :=
      spanDigits_append hdigits (by simp)
    rw [List.append_nil] at hspan
    simp [power?, hsplit, hspan, hne]

theorem chars (h : IsPowerOrNone power) :
    ∀ c ∈ power, c.isDigit = true ∨ c ∈ ['.', 'e', '+', '-'] := by
  rcases h with rfl | @⟨sign, digits, hsign, -, hdigits⟩
  · simp
  · refine List.forall_mem_cons.2 ⟨.inr (by decide), List.forall_mem_cons.2 ⟨.inr ?_, ?_⟩⟩
    · rcases hsign with rfl | rfl <;> decide
    · exact fun c hc => .inl (hdigits c hc)

theorem head (h : IsPowerOrNone power) : ∀ c ∈ power.head?, c = 'e' := by
  rcases h with rfl | ⟨_, _⟩ <;> simp

end IsPowerOrNone

theorem isSome_readUnsigned? {negative : Bool} {text : List Char}
    (h : (parts? text).isSome = true) : (readUnsigned? negative text).isSome = true := by
  obtain ⟨parts, hparts⟩ := Option.isSome_iff_exists.1 h
  unfold readUnsigned?
  dsimp only
  split
  · rfl
  split
  · rfl
  · simp [hparts]

section

variable {whole : List Char} {fraction? : Option (List Char)}
  (hwhole : ∀ c ∈ whole, c.isDigit = true)
  (hfraction : ∀ fraction ∈ fraction?, ∀ c ∈ fraction, c.isDigit = true)
  (hne : whole ≠ [] ∨ fraction?.getD [] ≠ []) (hpower : IsPowerOrNone power)

include hwhole hfraction hpower

theorem chars_of_fraction : ∀ c ∈ whole ++ (Php.pointText fraction? ++ power),
    c.isDigit = true ∨ c ∈ ['.', 'e', '+', '-'] := by
  simp only [List.forall_mem_append]
  refine ⟨fun c hc => .inl (hwhole c hc), ?_, hpower.chars⟩
  cases fraction? with
  | none => simp [Php.pointText]
  | some fraction =>
      exact List.forall_mem_cons.2 ⟨by decide, fun c hc => .inl (hfraction fraction rfl c hc)⟩

include hne

theorem isSome_parts? : (parts? (whole ++ (Php.pointText fraction? ++ power))).isSome = true := by
  have hletter : ∀ c ∈ power.head?, c.isDigit = false := by
    intro c hc
    rw [hpower.head c hc]
    rfl
  obtain ⟨n, hn⟩ := Option.isSome_iff_exists.1 hpower.isSome_power?
  cases fraction? with
  | none =>
      have hspan := spanDigits_append hwhole hletter
      have hnopoint : ∀ behind, power ≠ '.' :: behind := by
        rintro behind rfl
        cases hpower.head _ rfl
      have hne := hne.resolve_right (by simp)
      rw [Php.pointText, List.nil_append]
      simp [parts?, hspan, hn, hne]
  | some fraction =>
      have hpoint : ∀ c ∈ (Php.pointText (some fraction) ++ power).head?, c.isDigit = false := by
        simp [Php.pointText]
      have hspan := spanDigits_append hwhole hpoint
      simp only [parts?, hspan]
      simp only [Php.pointText, List.cons_append,
        spanDigits_append (hfraction fraction rfl) hletter]
      have hguard : ¬ whole = [] ∨ ¬ fraction = [] := by simpa using hne
      simp [hn, guard, hguard]

/-- The digits of a whole number or of a fraction, and a power of ten, are read as a number. -/
theorem isSome_read? : (read? (whole ++ (Php.pointText fraction? ++ power))).isSome = true := by
  have hparts := isSome_parts? hwhole hfraction hne hpower
  have hchars := chars_of_fraction hwhole hfraction hpower
  generalize htext : whole ++ (Php.pointText fraction? ++ power) = text at hparts hchars ⊢
  have hplain : ∀ c ∈ text, Text.isBlank c = false ∧ Text.latinForm c = c := by
    intro c hc
    rcases hchars c hc with hdigit | hother
    · have hplain := Numeral.plain_of_digit? (by decide) (Numeral.isSome_digit? hdigit)
      exact ⟨hplain.1, hplain.2.1⟩
    · simp only [List.mem_cons, List.not_mem_nil, or_false] at hother
      rcases hother with rfl | rfl | rfl | rfl <;> exact ⟨by decide, by decide +kernel⟩
  have hsign : Numeral.splitSign text = (false, text) := by
    have hhead : ∃ c rest, text = c :: rest ∧ (c.isDigit = true ∨ c = '.') := by
      rw [← htext]
      cases whole with
      | cons c whole => exact ⟨c, _, rfl, .inl (hwhole c List.mem_cons_self)⟩
      | nil =>
          cases fraction? with
          | none => simp at hne
          | some fraction => exact ⟨'.', _, rfl, .inr rfl⟩
    obtain ⟨c, rest, rfl, hc⟩ := hhead
    refine Numeral.splitSign_of_ne ?_ ?_ rest
    · rintro rfl
      revert hc
      decide
    · rintro rfl
      revert hc
      decide
  have hform := (List.map_congr_left fun c hc => (hplain c hc).2).trans (List.map_id text)
  rw [read?, Text.trim_of_plain fun c hc => (hplain c hc).1, hform, hsign]
  exact isSome_readUnsigned? hparts

/-- There is no colon in it, so it is a part of its own. -/
theorem isSome_read?_of_mem_splitOn {part : List Char}
    (hpart : part ∈ (whole ++ (Php.pointText fraction? ++ power)).splitOn ':') :
    (read? part).isSome = true := by
  have hcolon : ':' ∉ whole ++ (Php.pointText fraction? ++ power) := by
    intro hmem
    rcases chars_of_fraction hwhole hfraction hpower ':' hmem with hdigit | hother
    · cases hdigit
    · exact absurd hother (by decide)
  rw [List.splitOn_eq_singleton hcolon, List.mem_singleton] at hpart
  exact hpart ▸ isSome_read? hwhole hfraction hne hpower

end

end Decimal

end PhpArray
