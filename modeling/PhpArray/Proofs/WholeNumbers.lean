import PhpArray.Proofs.NumberTexts
import PhpArray.Proofs.PlainScalars

/-!
Whole numbers as they look and as they are read. A plain scalar looks like a whole number by one
definition and is read as one by another. Between the two stands the number that the digits of the
text denote: it is what is read, unless there are no digits behind the mark of a base or more
decimal digits than are read and written.
-/

namespace PhpArray.Yaml

open Numeral (bases digit? digitsIn maxDecimalDigits splitSign)

/-! ### Signs and bars -/

theorem dropSign_eq (text : List Char) : ImplicitTag.dropSign text = (splitSign text).2 := by
  unfold ImplicitTag.dropSign splitSign
  split <;> simp_all

theorem dropBars_cons {c : Char} (hc : c ≠ '_') (text : List Char) :
    dropBars (c :: text) = c :: dropBars text :=
  List.filter_cons_of_pos (by simpa using hc)

section

/-- A change of characters that keeps signs and colons apart from others. -/
def KeepsMarks (f : Char → Char) : Prop :=
  ∀ mark ∈ ['-', '+', ':'], ∀ c, f c = mark ↔ c = mark

theorem keepsMarks_id : KeepsMarks id := fun _ _ _ => Iff.rfl

theorem keepsMarks_toLower : KeepsMarks Char.toLower := by
  intro mark hmark c
  by_cases hlow : c.toNat < 128
  · obtain ⟨n, hn, rfl⟩ := exists_eq_ofNat hlow
    simp only [List.mem_cons, List.not_mem_nil, or_false] at hmark
    revert n
    rcases hmark with rfl | rfl | rfl <;> decide +kernel
  · have hsame : c.toLower = c := by
      unfold Char.toLower
      rw [dif_neg]
      rintro ⟨-, hupper⟩
      have hle : c.toNat ≤ 90 := UInt32.le_iff_toNat_le.1 hupper
      omega
    rw [hsame]

variable {f : Char → Char} (hf : KeepsMarks f) {text : List Char}

include hf

/-- The sign is split off before or after bars are dropped, if no bar follows it. -/
theorem splitSign_map_dropBars (h : (splitSign text).2.head? ≠ some '_') :
    splitSign ((dropBars text).map f) =
      ((splitSign text).1, (dropBars (splitSign text).2).map f) := by
  cases text with
  | nil => rfl
  | cons c rest =>
      by_cases hminus : c = '-'
      · subst hminus
        rw [dropBars_cons (by decide), List.map_cons, (hf '-' (by decide) '-').2 rfl]
        rfl
      by_cases hplus : c = '+'
      · subst hplus
        rw [dropBars_cons (by decide), List.map_cons, (hf '+' (by decide) '+').2 rfl]
        rfl
      rw [Numeral.splitSign_of_ne hminus hplus] at h ⊢
      have hbar : c ≠ '_' := by simpa using h
      rw [dropBars_cons hbar, List.map_cons]
      exact Numeral.splitSign_of_ne (mt (hf '-' (by decide) c).1 hminus)
        (mt (hf '+' (by decide) c).1 hplus) _

theorem splitOn_map_dropBars (text : List Char) : ((dropBars text).map f).splitOn ':' =
    (text.splitOn ':').map fun part => (dropBars part).map f := by
  have hform : ∀ text : List Char, (dropBars text).map f =
      text.filterMap fun c => if c = '_' then none else some (f c) := by
    intro text
    induction text with
    | nil => rfl
    | cons c rest ih =>
        by_cases hc : c = '_'
        · simpa [hc, dropBars] using ih
        · rw [dropBars_cons hc, List.map_cons, ih]
          simp [hc]
  simp only [hform]
  refine splitOn_filterMap (fun c => ?_) text
  by_cases hc : c = '_'
  · simp [hc]
  · simpa [hc] using hf ':' (by decide) c

end

/-- A digit of a base or an underscore. -/
def MayBeDigit (base : Nat) (c : Char) : Prop :=
  c = '_' ∨ (digit? base c).isSome = true

/-- The classes of characters in numbers have none behind the letter f. -/
theorem mayBeDigit_of_class {p : Char → Bool} {base : Nat} (hlow : ∀ c, p c = true → c ≤ 'f')
    (hall : ∀ n < 103, p (Char.ofNat n) = true →
      Char.ofNat n = '_' ∨ (digit? base (Char.ofNat n)).isSome = true)
    {text : List Char} (htext : text.all p = true) : ∀ c ∈ text, MayBeDigit base c := by
  intro c hc
  have hp := List.all_eq_true.1 htext c hc
  have hbound : c.toNat ≤ 102 := UInt32.le_iff_toNat_le.1 (hlow c hp)
  obtain ⟨n, hn, rfl⟩ := exists_eq_ofNat (Nat.lt_succ_of_le hbound)
  exact hall n hn hp

theorem mayBeDigit_of_isDigitOrBar {text : List Char}
    (h : text.all ImplicitTag.isDigitOrBar = true) : ∀ c ∈ text, MayBeDigit 10 c := by
  intro c hc
  have hclass := List.all_eq_true.1 h c hc
  rw [ImplicitTag.isDigitOrBar, Bool.or_eq_true, beq_iff_eq] at hclass
  exact hclass.symm.imp_right Numeral.isSome_digit?

theorem ne_bar_of_isDigit {c : Char} (hc : c.isDigit = true) : c ≠ '_' := by
  rintro rfl
  cases hc

theorem exists_cons_of_isDigits {text : List Char} (h : ImplicitTag.isDigits text = true) :
    ∃ c rest, text = c :: rest ∧ c.isDigit = true ∧
      rest.all ImplicitTag.isDigitOrBar = true := by
  cases text with
  | nil => cases h
  | cons c rest => exact ⟨c, rest, rfl, Bool.and_eq_true_iff.1 h⟩

theorem mayBeDigit_of_isDigits {part : List Char} (h : ImplicitTag.isDigits part = true) :
    dropBars part ≠ [] ∧ ∀ c ∈ part, MayBeDigit 10 c := by
  obtain ⟨c, rest, rfl, hc, hrest⟩ := exists_cons_of_isDigits h
  refine ⟨by simp [dropBars_cons (ne_bar_of_isDigit hc)], List.forall_mem_cons.2 ⟨.inr ?_, ?_⟩⟩
  · exact Numeral.isSome_digit? hc
  · exact mayBeDigit_of_isDigitOrBar hrest

theorem isDigits_of_isSixtieth {part : List Char} (h : ImplicitTag.isSixtieth part = true) :
    ImplicitTag.isDigits part = true ∧ part.length ≤ 2 := by
  unfold ImplicitTag.isSixtieth at h
  split at h
  next c => simpa [ImplicitTag.isDigits] using h
  next c d =>
    simp only [Bool.and_eq_true, decide_eq_true_eq] at h
    obtain ⟨⟨hlow, hhigh⟩, hd⟩ := h
    have hc : c.isDigit = true := by
      simp only [Char.isDigit, Bool.and_eq_true, decide_eq_true_eq]
      exact ⟨hlow, UInt32.le_trans hhigh (by decide)⟩
    simp [ImplicitTag.isDigits, ImplicitTag.isDigitOrBar, hc, hd]
  next => cases h

theorem isSome_of_mem_dropBars {base : Nat} {text : List Char}
    (h : ∀ c ∈ text, MayBeDigit base c) : ∀ c ∈ dropBars text, (digit? base c).isSome = true := by
  intro c hc
  obtain ⟨hmem, hbar⟩ := List.mem_filter.1 hc
  exact (h c hmem).resolve_left (by simpa using hbar)

/-- What whole numbers look like without a sign: digits and bars, behind a zero in base two, sixteen
or eight, else in base ten or sixty. -/
inductive IsWhole : List Char → Prop
  | marked {mark : Char} {base : Nat} {digits : List Char} :
      (mark, base) ∈ [('b', 2), ('x', 16)] → (∀ c ∈ digits, MayBeDigit base c) →
      IsWhole ('0' :: mark :: digits)
  | octal {digits : List Char} : (∀ c ∈ digits, MayBeDigit 8 c) → IsWhole ('0' :: digits)
  | parts {c : Char} {text first : List Char} {more : List (List Char)} :
      c ≠ '0' → c.isDigit = true → (c :: text).splitOn ':' = (c :: first) :: more →
      first.all ImplicitTag.isDigitOrBar = true →
      (∀ part ∈ more, ImplicitTag.isSixtieth part = true) → IsWhole (c :: text)

theorem exists_cons_of_splitOn {c sep : Char} {text first : List Char} {more : List (List Char)}
    (h : text.splitOn sep = (c :: first) :: more) : ∃ rest, text = c :: rest := by
  cases text with
  | nil => simp at h
  | cons d rest =>
      rw [List.splitOn_cons_eq_if_modifyHead] at h
      split at h
      · cases h
      · obtain ⟨part, parts, hparts⟩ := List.exists_cons_of_ne_nil (List.splitOn_ne_nil sep rest)
        rw [hparts, List.modifyHead_cons] at h
        obtain rfl := (List.cons.inj (List.cons.inj h).1).1
        exact ⟨rest, rfl⟩

theorem isWhole_of_isUnsignedInt {text : List Char} (h : ImplicitTag.isUnsignedInt text = true) :
    IsWhole text := by
  unfold ImplicitTag.isUnsignedInt at h
  rw [Bool.or_eq_true] at h
  rcases h with hzero | hparts
  · split at hzero
    next digits =>
      rw [ImplicitTag.isRun, Bool.and_eq_true] at hzero
      have hmark : ('b', 2) ∈ [('b', 2), ('x', 16)] := by decide
      refine .marked hmark (mayBeDigit_of_class ?_ (by decide +kernel) hzero.2)
      intro c hc
      simp only [Bool.or_eq_true, beq_iff_eq] at hc
      rcases hc with (rfl | rfl) | rfl <;> decide
    next digits =>
      rw [ImplicitTag.isRun, Bool.and_eq_true] at hzero
      have hmark : ('x', 16) ∈ [('b', 2), ('x', 16)] := by decide
      refine .marked hmark (mayBeDigit_of_class ?_ (by decide +kernel) hzero.2)
      intro c hc
      simp only [Bool.or_eq_true, Bool.and_eq_true, decide_eq_true_eq, beq_iff_eq] at hc
      rcases hc with ((hdigit | hlower) | hupper) | rfl
      · exact UInt32.le_trans (le_nine_of_isDigit hdigit) (by decide)
      · exact hlower.2
      · exact UInt32.le_trans hupper.2 (by decide)
      · decide
    next digits _ _ =>
      refine .octal (mayBeDigit_of_class ?_ (by decide +kernel) hzero)
      intro c hc
      simp only [Bool.or_eq_true, Bool.and_eq_true, decide_eq_true_eq, beq_iff_eq] at hc
      rcases hc with hdigit | rfl
      · exact UInt32.le_trans hdigit.2 (by decide)
      · decide
    next => cases hzero
  · have hfirst : ∃ first more, text.splitOn ':' = first :: more ∧
        ImplicitTag.isNonzeroDigits first = true ∧
        ∀ part ∈ more, ImplicitTag.isSixtieth part = true := by
      split at hparts
      next digits hsplit => exact ⟨digits, [], hsplit, hparts, by simp⟩
      next first more _ hsplit =>
        rw [ImplicitTag.areSixtieths, Bool.and_eq_true, Bool.and_eq_true] at hparts
        exact ⟨first, more, hsplit, hparts.1, List.all_eq_true.1 hparts.2.2⟩
      next => cases hparts
    obtain ⟨first, more, hsplit, hnonzero, hmore⟩ := hfirst
    cases first with
    | nil => cases hnonzero
    | cons c first =>
        simp only [ImplicitTag.isNonzeroDigits, Bool.and_eq_true, bne_iff_ne] at hnonzero
        obtain ⟨⟨hc, hne⟩, hfirst⟩ := hnonzero
        obtain ⟨rest, rfl⟩ := exists_cons_of_splitOn hsplit
        exact .parts hne hc hsplit hfirst hmore

/-! ### Whole numbers -/

/-- The number that the digits of an unsigned text denote. -/
def magnitude : List Char → Nat
  | '0' :: 'b' :: digits => digitsIn 2 digits
  | '0' :: 'x' :: digits => digitsIn 16 digits
  | '0' :: digits => digitsIn 8 digits
  | text => (text.splitOn ':').foldl (fun n part => n * 60 + digitsIn 10 part) 0

/-- A zero and the mark of a base, with no digit behind them. -/
def IsBareMark (text : List Char) : Prop :=
  ∃ mark ∈ ['b', 'x'], ∃ bars, text = '0' :: mark :: bars ∧ ∀ c ∈ bars, c = '_'

theorem readUnsignedInt?_parts {c : Char} (hc : c ≠ '0') (text : List Char) :
    readUnsignedInt? (c :: text) =
      (((c :: text).splitOn ':').mapM (Numeral.read? 10)).map Numeral.sexagesimal := by
  have hunfold : readUnsignedInt? (c :: text) =
      if ':' ∈ c :: text then
        (((c :: text).splitOn ':').mapM (Numeral.read? 10)).map Numeral.sexagesimal
      else Numeral.read? 10 (c :: text) := by
    rw [readUnsignedInt?] <;> simp [hc]
  rw [hunfold]
  split
  next => rfl
  next hcolon =>
    rw [List.splitOn_eq_singleton hcolon]
    cases h : Numeral.read? 10 (c :: text) <;> simp [h, Numeral.sexagesimal]

theorem magnitude_parts {c : Char} (hc : c ≠ '0') (text : List Char) :
    magnitude (c :: text) =
      ((c :: text).splitOn ':').foldl (fun n part => n * 60 + digitsIn 10 part) 0 := by
  rw [magnitude] <;> simp [hc]

theorem dropBars_eq_nil_iff {text : List Char} : dropBars text = [] ↔ ∀ c ∈ text, c = '_' := by
  simp [dropBars, List.filter_eq_nil_iff]

section

variable {mark c : Char} {base : Nat} {digits text : List Char}

theorem readUnsignedInt?_bareMark (h : IsBareMark text) :
    readUnsignedInt? (dropBars text) = none := by
  obtain ⟨mark, hmark, bars, rfl, hbars⟩ := h
  have hdrop : dropBars ('0' :: mark :: bars) = ['0', mark] := by
    have hbar : mark ≠ '_' := by
      rintro rfl
      exact absurd hmark (by decide)
    rw [dropBars_cons (by decide), dropBars_cons hbar, dropBars_eq_nil_iff.2 hbars]
  rw [hdrop]
  simp only [List.mem_cons, List.not_mem_nil, or_false] at hmark
  rcases hmark with rfl | rfl <;> rfl

theorem readUnsignedInt?_marked (hmark : (mark, base) ∈ [('b', 2), ('x', 16)])
    (hdigits : ∀ c ∈ digits, MayBeDigit base c) (hne : ¬ ∀ c ∈ digits, c = '_') :
    readUnsignedInt? (dropBars ('0' :: mark :: digits)) =
      some (magnitude ('0' :: mark :: digits) : Int) := by
  have hread : base ∈ bases ∧ base ≠ 10 ∧
      readUnsignedInt? (dropBars ('0' :: mark :: digits)) = Numeral.read? base (dropBars digits) ∧
      magnitude ('0' :: mark :: digits) = digitsIn base digits := by
    simp only [List.mem_cons, Prod.mk.injEq, List.not_mem_nil, or_false] at hmark
    rcases hmark with ⟨rfl, rfl⟩ | ⟨rfl, rfl⟩
    · exact ⟨by decide, by decide, rfl, rfl⟩
    · exact ⟨by decide, by decide, rfl, rfl⟩
  obtain ⟨hbase, hten, hread, hmagnitude⟩ := hread
  rw [hread, hmagnitude, Numeral.read?_of_digits hbase (mt dropBars_eq_nil_iff.1 hne)
    (isSome_of_mem_dropBars hdigits), if_pos (.inl hten), Numeral.digitsIn_dropBars hbase]

theorem digitsIn_zero_cons (text : List Char) : digitsIn 8 ('0' :: text) = digitsIn 8 text :=
  rfl

theorem readUnsignedInt?_octal (hdigits : ∀ c ∈ digits, MayBeDigit 8 c) :
    readUnsignedInt? (dropBars ('0' :: digits)) = some (magnitude ('0' :: digits) : Int) := by
  have hmagnitude : magnitude ('0' :: digits) = digitsIn 8 digits := by
    rw [magnitude]
    · rintro rest rfl
      exact absurd (hdigits 'b' List.mem_cons_self) (by unfold MayBeDigit; decide)
    · rintro rest rfl
      exact absurd (hdigits 'x' List.mem_cons_self) (by unfold MayBeDigit; decide)
  have hplain := isSome_of_mem_dropBars hdigits
  rw [hmagnitude, dropBars_cons (by decide), ← Numeral.digitsIn_dropBars (by decide)]
  generalize dropBars digits = digits at hplain ⊢
  cases digits with
  | nil => rfl
  | cons d digits =>
      have hread : readUnsignedInt? ('0' :: d :: digits) =
          Numeral.read? 8 ('0' :: d :: digits) := by
        rw [readUnsignedInt?]
        · simp
        · rintro rest hrest
          obtain rfl := (List.cons.inj hrest).1
          exact absurd (hplain 'b' List.mem_cons_self) (by decide)
        · rintro rest hrest
          obtain rfl := (List.cons.inj hrest).1
          exact absurd (hplain 'x' List.mem_cons_self) (by decide)
      rw [hread, Numeral.read?_of_digits (by decide) (by simp)
        (List.forall_mem_cons.2 ⟨by decide, hplain⟩), if_pos (.inl (by decide)),
        digitsIn_zero_cons]

/-- A number is as large as its digits behind the first one make it, if that is not zero. -/
theorem pow_le_digitsIn (hzero : c ≠ '0') (hc : c.isDigit = true)
    (hdigits : ∀ c ∈ digits, MayBeDigit 10 c) :
    10 ^ (dropBars digits).length ≤ digitsIn 10 (c :: digits) := by
  have hbar : c ≠ '_' := ne_bar_of_isDigit hc
  obtain ⟨d, hd, hpositive⟩ := Numeral.digit?_of_isDigit hc
  have hpositive := hpositive hzero
  have hlength := List.filterMap_length_eq_length.2 (isSome_of_mem_dropBars hdigits)
  calc 10 ^ (dropBars digits).length
      = 10 ^ ((dropBars digits).filterMap (digit? 10)).length := by rw [hlength]
    _ ≤ (0 * 10 + d) * 10 ^ ((dropBars digits).filterMap (digit? 10)).length :=
        Nat.le_mul_of_pos_left _ (by omega)
    _ ≤ ((dropBars digits).filterMap (digit? 10)).foldl (fun n d => n * 10 + d) (0 * 10 + d) :=
        Numeral.le_foldl_digits _ _ _
    _ = digitsIn 10 (c :: dropBars digits) := by
        rw [digitsIn, List.filterMap_cons_some hd]
        rfl
    _ = digitsIn 10 (c :: digits) := by
        rw [← dropBars_cons hbar, Numeral.digitsIn_dropBars (by decide)]

/-- A part of a number in base sixty, as it is read and as it is meant. -/
theorem read?_part {part : List Char} (h : ImplicitTag.isDigits part = true) :
    Numeral.read? 10 (dropBars part) =
      if (dropBars part).length ≤ maxDecimalDigits then some (digitsIn 10 part : Int)
      else none := by
  obtain ⟨hne, hdigits⟩ := mayBeDigit_of_isDigits h
  rw [Numeral.read?_of_digits (by decide) hne (isSome_of_mem_dropBars hdigits),
    Numeral.digitsIn_dropBars (by decide)]
  simp

section

variable {first : List Char} {more : List (List Char)}

/-- Only the first part can be too long, since the others have two digits at most. -/
theorem mapM_read?_parts (hfirst : ImplicitTag.isDigits first = true)
    (hmore : ∀ part ∈ more, ImplicitTag.isSixtieth part = true)
    (hshort : (dropBars first).length ≤ maxDecimalDigits) :
    ((first :: more).map dropBars).mapM (Numeral.read? 10) =
      some ((first :: more).map fun part => (digitsIn 10 part : Int)) := by
  rw [mapM_eq_some_iff, List.map_map, List.map_map]
  refine List.map_congr_left fun part hpart => ?_
  rw [Function.comp_apply, Function.comp_apply]
  rcases List.mem_cons.1 hpart with rfl | hpart
  · rw [read?_part hfirst, if_pos hshort]
  · obtain ⟨hpart, hlength⟩ := isDigits_of_isSixtieth (hmore part hpart)
    have hbars : (dropBars part).length ≤ part.length := List.length_filter_le _ _
    have hlimit : 2 ≤ maxDecimalDigits := by decide
    rw [read?_part hpart, if_pos (by omega)]

theorem digitsIn_le_parts (first : List Char) (more : List (List Char)) :
    digitsIn 10 first ≤ (first :: more).foldl (fun n part => n * 60 + digitsIn 10 part) 0 := by
  calc digitsIn 10 first
      ≤ digitsIn 10 first * 60 ^ (more.map (digitsIn 10)).length :=
        Nat.le_mul_of_pos_right _ (Nat.pow_pos (by omega))
    _ ≤ (more.map (digitsIn 10)).foldl (fun n d => n * 60 + d) (digitsIn 10 first) :=
        Numeral.le_foldl_digits _ _ _
    _ = (first :: more).foldl (fun n part => n * 60 + digitsIn 10 part) 0 := by
        rw [List.foldl_map, List.foldl_cons, Nat.zero_mul, Nat.zero_add]

theorem readUnsignedInt?_sexagesimal (hzero : c ≠ '0') (hc : c.isDigit = true)
    (hsplit : (c :: text).splitOn ':' = (c :: first) :: more)
    (hfirst : first.all ImplicitTag.isDigitOrBar = true)
    (hmore : ∀ part ∈ more, ImplicitTag.isSixtieth part = true) :
    readUnsignedInt? (dropBars (c :: text)) = some (magnitude (c :: text) : Int) ∨
      readUnsignedInt? (dropBars (c :: text)) = none ∧
        10 ^ maxDecimalDigits ≤ magnitude (c :: text) := by
  have hbar : c ≠ '_' := ne_bar_of_isDigit hc
  have hread : readUnsignedInt? (dropBars (c :: text)) =
      ((((c :: first) :: more).map dropBars).mapM (Numeral.read? 10)).map
        Numeral.sexagesimal := by
    have hparts := splitOn_map_dropBars keepsMarks_id (c :: text)
    simp only [List.map_id] at hparts
    rw [← hsplit, ← hparts, dropBars_cons hbar, readUnsignedInt?_parts hzero]
  have hdigits : ImplicitTag.isDigits (c :: first) = true := by
    rw [ImplicitTag.isDigits, hc, hfirst, Bool.and_self]
  rw [hread, magnitude_parts hzero, hsplit]
  by_cases hshort : (dropBars (c :: first)).length ≤ maxDecimalDigits
  · left
    rw [mapM_read?_parts hdigits hmore hshort, Option.map_some, Numeral.sexagesimal,
      List.foldl_map]
    refine congrArg some (List.foldl_hom Nat.cast fun n part => ?_)
    push_cast
    rfl
  · right
    constructor
    · rw [List.map_cons, List.mapM_cons, read?_part hdigits, if_neg hshort]
      rfl
    · have hlength : maxDecimalDigits ≤ (dropBars first).length := by
        rw [dropBars_cons hbar, List.length_cons] at hshort
        omega
      calc 10 ^ maxDecimalDigits
          ≤ 10 ^ (dropBars first).length := Nat.pow_le_pow_right (by omega) hlength
        _ ≤ digitsIn 10 (c :: first) :=
            pow_le_digitsIn hzero hc (mayBeDigit_of_isDigitOrBar hfirst)
        _ ≤ _ := digitsIn_le_parts _ _

end

/-- A whole number is read as what its digits denote, unless it has too many of them to be read or
written. -/
theorem readUnsignedInt?_dropBars (h : IsWhole text) (hmark : ¬ IsBareMark text) :
    readUnsignedInt? (dropBars text) = some (magnitude text : Int) ∨
      readUnsignedInt? (dropBars text) = none ∧ 10 ^ maxDecimalDigits ≤ magnitude text := by
  cases h with
  | @marked mark base digits hbase hdigits =>
      refine .inl (readUnsignedInt?_marked hbase hdigits fun hbars => hmark ?_)
      refine ⟨mark, ?_, digits, rfl, hbars⟩
      simp only [List.mem_cons, Prod.mk.injEq, List.not_mem_nil, or_false] at hbase ⊢
      exact hbase.imp And.left And.left
  | octal hdigits => exact .inl (readUnsignedInt?_octal hdigits)
  | parts hzero hc hsplit hfirst hmore =>
      exact readUnsignedInt?_sexagesimal hzero hc hsplit hfirst hmore

theorem IsWhole.head_ne_bar (h : IsWhole text) : text.head? ≠ some '_' := by
  cases h with
  | marked => simp
  | octal => simp
  | parts _ hc => exact fun hbar => ne_bar_of_isDigit hc (Option.some.inj hbar)

end

/-- The integer that the sign and the digits of a text denote. -/
def denoted (text : List Char) : Int :=
  Numeral.signed (splitSign text).1 (magnitude (splitSign text).2)

/-- A whole number of which the value is lost: there is no digit behind the mark of its base, or its
decimal digits are too many. -/
def IsUnwritten (text : List Char) : Prop :=
  IsBareMark (splitSign text).2 ∨ 10 ^ maxDecimalDigits ≤ (denoted text).natAbs

theorem write?_readInt? {text : List Char} (h : ImplicitTag.isInt text = true) :
    (IsUnwritten text → (readInt? text).bind Numeral.write? = none) ∧
      (¬ IsUnwritten text →
        (readInt? text).bind Numeral.write? =
          some (String.ofList (Php.decimal (denoted text)))) := by
  rw [ImplicitTag.isInt, dropSign_eq] at h
  have hwhole := isWhole_of_isUnsignedInt h
  have hsign := splitSign_map_dropBars keepsMarks_id hwhole.head_ne_bar
  rw [List.map_id, List.map_id] at hsign
  have hread : readInt? text = (readUnsignedInt? (dropBars (splitSign text).2)).map fun n =>
      if (splitSign text).1 then -n else n := by
    rw [readInt?, hsign]
  have hmagnitude : (denoted text).natAbs = magnitude (splitSign text).2 := by
    unfold denoted Numeral.signed
    split
    · rw [Int.natAbs_neg, Int.natAbs_natCast]
    · rw [Int.natAbs_natCast]
  rw [IsUnwritten, hmagnitude]
  by_cases hmark : IsBareMark (splitSign text).2
  · rw [hread, readUnsignedInt?_bareMark hmark]
    exact ⟨fun _ => rfl, fun hwritten => absurd (.inl hmark) hwritten⟩
  rcases readUnsignedInt?_dropBars hwhole hmark with hsome | ⟨hnone, hlarge⟩
  · have hvalue : readInt? text = some (denoted text) := by
      rw [hread, hsome]
      rfl
    rw [hvalue, Option.bind_some, Numeral.write?_decimal, hmagnitude]
    constructor
    · intro hunwritten
      rw [if_neg (Nat.not_lt.2 (hunwritten.resolve_left hmark))]
    · intro hwritten
      rw [if_pos (Nat.not_le.1 (not_or.1 hwritten).2)]
  · rw [hread, hnone]
    exact ⟨fun _ => rfl, fun hwritten => absurd (.inr hlarge) hwritten⟩

end PhpArray.Yaml
