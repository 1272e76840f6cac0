import PhpArray.Proofs.WholeNumbers

/-!
Plain scalars that are numbers by their looks. What a fraction looks like and how one is read agree
but for a number in base sixty of too many parts. The main statement compares looks and readings for
every number that a plain scalar can be, and says which ones are not kept.
-/

namespace PhpArray.Yaml

open Decimal (IsPowerOrNone)
open Literal (ofFloat)
open Numeral (maxDecimalDigits splitSign)

/-! ### The characters of a fraction -/

/-- The characters of a fraction that count, in lower case. -/
def plainForm (text : List Char) : List Char :=
  lowerCase (dropBars text)

theorem plainForm_append (front back : List Char) :
    plainForm (front ++ back) = plainForm front ++ plainForm back := by
  simp [plainForm, dropBars, lowerCase]

theorem plainForm_cons {c : Char} (hbar : c ≠ '_') (text : List Char) :
    plainForm (c :: text) = c.toLower :: plainForm text := by
  rw [plainForm, dropBars_cons hbar]
  rfl

theorem splitSign_plainForm {text : List Char} (h : (splitSign text).2.head? ≠ some '_') :
    splitSign (plainForm text) = ((splitSign text).1, plainForm (splitSign text).2) :=
  splitSign_map_dropBars keepsMarks_toLower h

theorem splitOn_plainForm (text : List Char) :
    (plainForm text).splitOn ':' = (text.splitOn ':').map plainForm :=
  splitOn_map_dropBars keepsMarks_toLower text

theorem toLower_of_isDigit {c : Char} (hc : c.isDigit = true) : c.toLower = c := by
  unfold Char.toLower
  rw [dif_neg]
  rintro ⟨hupper, -⟩
  have hle := UInt32.le_iff_toNat_le.1 (le_nine_of_isDigit hc)
  have hge := UInt32.le_iff_toNat_le.1 hupper
  exact absurd (hge.trans hle) (by decide)

theorem isDigit_of_mem_plainForm {text : List Char}
    (h : text.all ImplicitTag.isDigitOrBar = true) : ∀ c ∈ plainForm text, c.isDigit = true := by
  intro c hc
  obtain ⟨d, hd, rfl⟩ := List.mem_map.1 hc
  obtain ⟨hmem, hbar⟩ := List.mem_filter.1 hd
  have hclass := List.all_eq_true.1 h d hmem
  rw [ImplicitTag.isDigitOrBar, Bool.or_eq_true, beq_iff_eq] at hclass
  have hdigit := hclass.resolve_right (by simpa using hbar)
  rwa [toLower_of_isDigit hdigit]

theorem plainForm_of_isDigits {text : List Char} (h : ImplicitTag.isDigits text = true) :
    plainForm text ≠ [] ∧ ∀ c ∈ plainForm text, c.isDigit = true := by
  obtain ⟨c, rest, rfl, hc, hrest⟩ := exists_cons_of_isDigits h
  refine ⟨by simp [plainForm_cons (ne_bar_of_isDigit hc)], isDigit_of_mem_plainForm ?_⟩
  simp [ImplicitTag.isDigitOrBar, hc, hrest]

theorem isPowerOrNone_of_isExponent {text : List Char} (h : ImplicitTag.isExponent text = true) :
    IsPowerOrNone (plainForm text) := by
  unfold ImplicitTag.isExponent at h
  split at h
  next => exact .inl rfl
  next => cases h
  next mark sign digits =>
    simp only [ImplicitTag.isRun, Bool.and_eq_true, Bool.or_eq_true, beq_iff_eq] at h
    obtain ⟨⟨hmark, hsign⟩, hne, hdigits⟩ := h
    have hform : plainForm (mark :: sign :: digits) = 'e' :: sign :: plainForm digits := by
      rcases hmark with rfl | rfl <;> rcases hsign with rfl | rfl <;> rfl
    have hrun : ImplicitTag.isDigits digits = true := by
      cases digits with
      | nil => cases hne
      | cons c rest =>
          simp only [List.all_cons, Bool.and_eq_true, List.all_eq_true] at hdigits
          rw [ImplicitTag.isDigits, hdigits.1, Bool.true_and, List.all_eq_true]
          exact fun c hc => by simp [ImplicitTag.isDigitOrBar, hdigits.2 c hc]
    rw [hform]
    exact .inr (.intro hsign.symm (plainForm_of_isDigits hrun))

theorem plainForm_of_isFraction {text : List Char} (h : ImplicitTag.isFraction text = true) :
    ∃ digits power, plainForm text = digits ++ power ∧ (∀ c ∈ digits, c.isDigit = true) ∧
      IsPowerOrNone power := by
  refine ⟨plainForm (text.takeWhile ImplicitTag.isDigitOrBar),
    plainForm (text.dropWhile ImplicitTag.isDigitOrBar), ?_, ?_, isPowerOrNone_of_isExponent h⟩
  · rw [← plainForm_append, List.takeWhile_append_dropWhile]
  · exact isDigit_of_mem_plainForm (List.all_takeWhile)

/-! ### What is read for sure -/

/-- A name, or a text of which every part is read. -/
def IsReadable (text : List Char) : Prop :=
  text = ".inf".toList ∨ text = ".nan".toList ∨
    ∀ part ∈ text.splitOn ':', (Decimal.read? part).isSome = true

theorem sexagesimalFrom_ne_malformed (power : Nat) (sum : Binary64) (parts : List Binary64) :
    sexagesimalFrom power sum parts ≠ .error .malformed := by
  induction parts generalizing power sum with
  | nil => simp [sexagesimalFrom]
  | cons part higher ih =>
      rw [sexagesimalFrom]
      split
      · simp
      · exact ih _ _

theorem IsReadable.ne_malformed {text : List Char} (h : IsReadable text) :
    readUnsignedFloat text ≠ .error .malformed := by
  unfold readUnsignedFloat
  split
  · simp
  split
  · simp
  next hinf hnan =>
    have hparts := (h.resolve_left hinf).resolve_left hnan
    split
    next =>
      obtain ⟨results, hresults⟩ := exists_mapM_of_isSome hparts
      rw [hresults]
      exact sexagesimalFrom_ne_malformed _ _ _
    next hcolon =>
      rw [List.splitOn_eq_singleton hcolon] at hparts
      obtain ⟨x, hx⟩ := Option.isSome_iff_exists.1 (hparts text (List.mem_singleton.2 rfl))
      simp [hx]

theorem IsReadable.outOfRange_iff {text : List Char} (h : IsReadable text) :
    readUnsignedFloat text = .error .outOfRange ↔ 175 ≤ (text.splitOn ':').length := by
  rw [readUnsignedFloat_outOfRange_iff]
  constructor
  · rintro ⟨-, results, hresults, hlength⟩
    exact length_of_mapM hresults ▸ hlength
  · intro hlength
    have hcolon : ':' ∈ text := by
      by_contra hcolon
      rw [List.splitOn_eq_singleton hcolon] at hlength
      exact absurd hlength (by simp)
    have hparts : ∀ part ∈ text.splitOn ':', (Decimal.read? part).isSome = true := by
      rcases h with rfl | rfl | hparts
      · exact absurd hcolon (by decide)
      · exact absurd hcolon (by decide)
      · exact hparts
    obtain ⟨results, hresults⟩ := exists_mapM_of_isSome hparts
    exact ⟨hcolon, results, hresults, length_of_mapM hresults ▸ hlength⟩

/-- The sign and the bars do not matter, and neither does the case; the number of parts does. -/
theorem readFloat_of_isReadable {text : List Char} (hhead : (splitSign text).2.head? ≠ some '_')
    (h : IsReadable (plainForm (splitSign text).2)) :
    (175 ≤ ((splitSign text).2.splitOn ':').length → readFloat text = .error .outOfRange) ∧
      (((splitSign text).2.splitOn ':').length < 175 → ∃ x, readFloat text = .ok x) := by
  have hread : readFloat text = (readUnsignedFloat (plainForm (splitSign text).2)).map fun x =>
      if (splitSign text).1 then x.negate else x := by
    rw [readFloat, ← plainForm, splitSign_plainForm hhead]
  have hlength : ((plainForm (splitSign text).2).splitOn ':').length =
      ((splitSign text).2.splitOn ':').length := by
    rw [splitOn_plainForm, List.length_map]
  have hmalformed := h.ne_malformed
  have hrange := h.outOfRange_iff
  rw [hread, ← hlength]
  cases hresult : readUnsignedFloat (plainForm (splitSign text).2) with
  | ok x =>
      rw [hresult] at hrange
      exact ⟨fun hlong => absurd (hrange.2 hlong) (by simp), fun _ => ⟨_, rfl⟩⟩
  | error fault =>
      cases fault with
      | malformed => exact absurd hresult hmalformed
      | outOfRange =>
          refine ⟨fun _ => rfl, fun hshort => ?_⟩
          have hlong := hrange.1 hresult
          omega

/-! ### Fractions -/

section

variable {whole fraction : List Char}

theorem isReadable_decimal (hwhole : ImplicitTag.isDigits whole = true)
    (hfraction : ImplicitTag.isFraction fraction = true) :
    IsReadable (plainForm (whole ++ '.' :: fraction)) := by
  obtain ⟨hne, hall⟩ := plainForm_of_isDigits hwhole
  obtain ⟨digits, power, hbehind, hdigits, hpower⟩ := plainForm_of_isFraction hfraction
  have hform : plainForm (whole ++ '.' :: fraction) =
      plainForm whole ++ (Php.pointText (some digits) ++ power) := by
    rw [plainForm_append, plainForm_cons (by decide), hbehind]
    rfl
  refine .inr (.inr fun part hpart => ?_)
  rw [hform] at hpart
  exact Decimal.isSome_read?_of_mem_splitOn hall (by simpa using hdigits) (.inl hne) hpower hpart

theorem isReadable_bare {digit : Char} (hdigit : digit.isDigit = true)
    (hfraction : ImplicitTag.isFraction fraction = true) :
    IsReadable (plainForm ('.' :: digit :: fraction)) := by
  obtain ⟨digits, power, hbehind, hdigits, hpower⟩ := plainForm_of_isFraction hfraction
  have hform : plainForm ('.' :: digit :: fraction) =
      [] ++ (Php.pointText (some (digit :: digits)) ++ power) := by
    rw [plainForm_cons (by decide), plainForm_cons (ne_bar_of_isDigit hdigit),
      toLower_of_isDigit hdigit, hbehind]
    rfl
  refine .inr (.inr fun part hpart => ?_)
  rw [hform] at hpart
  exact Decimal.isSome_read?_of_mem_splitOn (by simp) (by simpa using ⟨hdigit, hdigits⟩)
    (.inr (by simp)) hpower hpart

theorem isReadable_sexagesimal
    (hwhole : ∀ part ∈ whole.splitOn ':', ImplicitTag.isDigits part = true)
    (hfraction : fraction.all ImplicitTag.isDigitOrBar = true) :
    IsReadable (plainForm (whole ++ '.' :: fraction)) := by
  have hcolon : ':' ∉ '.' :: fraction := by
    intro hmem
    have hclass := List.all_eq_true.1 hfraction ':' (by simpa using hmem)
    exact absurd hclass (by decide)
  obtain ⟨parts, last, hsplit, hboth⟩ := splitOn_append hcolon whole
  refine .inr (.inr fun part hpart => ?_)
  rw [splitOn_plainForm, hboth] at hpart
  obtain ⟨part, hmem, rfl⟩ := List.mem_map.1 hpart
  rcases List.mem_append.1 hmem with hfront | hlast
  · obtain ⟨hne, hdigits⟩ := plainForm_of_isDigits (hwhole part (by simp [hsplit, hfront]))
    have hread : (Decimal.read? (plainForm part ++ (Php.pointText none ++ []))).isSome = true :=
      Decimal.isSome_read? hdigits (by simp) (.inl hne) (.inl rfl)
    simpa [Php.pointText] using hread
  · obtain rfl := List.mem_singleton.1 hlast
    obtain ⟨hne, hdigits⟩ := plainForm_of_isDigits (hwhole last (by simp [hsplit]))
    have hbehind : ∀ text ∈ some (plainForm fraction), ∀ c ∈ text, c.isDigit = true := by
      simpa using isDigit_of_mem_plainForm hfraction
    have hread := Decimal.isSome_read? hdigits hbehind (.inl hne) (.inl rfl)
    rw [plainForm_append, plainForm_cons (by decide)]
    simpa [Php.pointText] using hread

end

theorem isReadable_of_isPointed {text : List Char} (h : ImplicitTag.isPointed text = true) :
    text.head? ≠ some '_' ∧ IsReadable (plainForm text) := by
  rw [ImplicitTag.isPointed, List.span_eq_takeWhile_dropWhile] at h
  split at h
  next whole fraction hspan =>
    obtain ⟨hwhole, hfraction⟩ := Prod.mk.inj hspan
    have htext : text = whole ++ '.' :: fraction := by
      rw [← hwhole, ← hfraction, List.takeWhile_append_dropWhile]
    have hhead : ∀ {c rest}, whole = c :: rest → c.isDigit = true → text.head? ≠ some '_' := by
      rintro c rest rfl hc
      rw [htext]
      exact fun hbar => ne_bar_of_isDigit hc (Option.some.inj hbar)
    rw [Bool.or_eq_true] at h
    rcases h with hdecimal | hparts
    · rw [Bool.and_eq_true] at hdecimal
      obtain ⟨c, rest, rfl, hc, -⟩ := exists_cons_of_isDigits hdecimal.1
      exact ⟨hhead rfl hc, htext ▸ isReadable_decimal hdecimal.1 hdecimal.2⟩
    · split at hparts
      next first more hsplit =>
        simp only [Bool.and_eq_true, ImplicitTag.areSixtieths, List.all_eq_true] at hparts
        obtain ⟨⟨hfirst, -, hmore⟩, hbehind⟩ := hparts
        obtain ⟨c, first, rfl, hc, -⟩ := exists_cons_of_isDigits hfirst
        obtain ⟨rest, hrest⟩ := exists_cons_of_splitOn hsplit
        refine ⟨hhead hrest hc, htext ▸ isReadable_sexagesimal ?_ (List.all_eq_true.2 hbehind)⟩
        rw [hsplit]
        exact List.forall_mem_cons.2
          ⟨hfirst, fun part hpart => (isDigits_of_isSixtieth (hmore part hpart)).1⟩
      next => cases hparts
  next => cases h

theorem mem_map_toList {text : List Char} {names : List String}
    (h : String.ofList text ∈ names) : text ∈ names.map String.toList := by
  have hmem := List.mem_map_of_mem (f := String.toList) h
  rwa [String.toList_ofList] at hmem

theorem isReadable_of_isFloat {text : List Char} (h : ImplicitTag.isFloat text = true) :
    (splitSign text).2.head? ≠ some '_' ∧ IsReadable (plainForm (splitSign text).2) := by
  simp only [ImplicitTag.isFloat, Bool.or_eq_true, decide_eq_true_eq] at h
  rw [dropSign_eq] at h
  rcases h with ((hpointed | hbare) | hinf) | hnan
  · exact isReadable_of_isPointed hpointed
  · unfold ImplicitTag.isBarePointed at hbare
    split at hbare
    next digit rest =>
      rw [Bool.and_eq_true] at hbare
      exact ⟨by simp [splitSign], isReadable_bare hbare.1 hbare.2⟩
    next => cases hbare
  · have hall : ∀ name ∈ [".inf", ".Inf", ".INF"].map String.toList,
        name.head? ≠ some '_' ∧ plainForm name = ".inf".toList := by decide
    obtain ⟨hhead, hform⟩ := hall _ (mem_map_toList hinf)
    exact ⟨hhead, .inl hform⟩
  · have hall : ∀ name ∈ [".nan", ".NaN", ".NAN"].map String.toList,
        (splitSign name).2.head? ≠ some '_' ∧ plainForm (splitSign name).2 = ".nan".toList := by
      decide
    obtain ⟨hhead, hform⟩ := hall _ (mem_map_toList hnan)
    exact ⟨hhead, .inr (.inl hform)⟩

/-! ### Plain scalars that are numbers -/

/-- The node that a plain scalar without a tag becomes. -/
def plainNode (text : String) : Scalar :=
  ⟨Build.scalarTag none text true, text⟩

/-- PHP reads the one as a double and the other as null. -/
theorem ofFloat_ne_null {x : Binary64} (hx : x.IsDouble) : ofFloat x ≠ "null" := by
  intro hnull
  have hends : Php.Ends [] := by simp [Php.Ends]
  have hfloat := Php.readAtom_ofFloat hx hends
  rw [hnull, Php.readAtom_null hends] at hfloat
  cases hfloat

theorem isNumber_of_plainNode {text name : String} (hplain : IsPlainText text)
    (htag : (plainNode text).tag = coreTag name) :
    (name = "float" → ImplicitTag.isFloat text.toList = true) ∧
      (name = "int" → ImplicitTag.isInt text.toList = true) := by
  rw [plainNode, hplain.scalarTag, coreTag_inj] at htag
  exact ImplicitTag.isNumber_of_kind? htag

theorem outcome_of_isInt {text : String} (htag : (plainNode text).tag = coreTag "int")
    (hint : ImplicitTag.isInt text.toList = true) :
    (IsUnwritten text.toList → (renderScalar (plainNode text)).outcome = .ok "null") ∧
      (¬ IsUnwritten text.toList → (renderScalar (plainNode text)).outcome =
        .ok (String.ofList (Php.decimal (denoted text.toList)))) := by
  have hkind : Literal.kindOf (plainNode text).tag = .int := htag ▸ by decide
  obtain ⟨hunwritten, hwritten⟩ := write?_readInt? hint
  rw [outcome_renderScalar, hkind, Literal.ofText, plainNode]
  constructor
  · intro h
    rw [hunwritten h]
    rfl
  · intro h
    rw [hwritten h]
    rfl

theorem outcome_of_isFloat {text : String} (htag : (plainNode text).tag = coreTag "float")
    (hfloat : ImplicitTag.isFloat text.toList = true) :
    let parts := (splitSign text.toList).2.splitOn ':'
    (175 ≤ parts.length → (renderScalar (plainNode text)).outcome = .error .floatRange) ∧
      (parts.length < 175 → ∃ x, readFloat text.toList = .ok x ∧
        (renderScalar (plainNode text)).outcome = .ok (ofFloat x) ∧ ofFloat x ≠ "null") := by
  intro parts
  have hkind : Literal.kindOf (plainNode text).tag = .float := htag ▸ by decide
  obtain ⟨hhead, hreadable⟩ := isReadable_of_isFloat hfloat
  obtain ⟨hlong, hshort⟩ := readFloat_of_isReadable hhead hreadable
  rw [outcome_renderScalar, hkind, Literal.ofText, plainNode]
  constructor
  · intro hparts
    rw [hlong hparts]
    rfl
  · intro hparts
    obtain ⟨x, hx⟩ := hshort hparts
    refine ⟨x, hx, ?_, ofFloat_ne_null (Php.isDouble_readFloat hx)⟩
    rw [hx]
    rfl

/-- What becomes of a plain scalar that looks like a number. A whole number is written in base ten
as the integer that its digits denote; only one without digits behind the mark of its base, or with
more than 4300 digits in base ten, becomes null. A fraction is written as the double that is read,
which never is null; only one in base sixty of 175 parts or more fails. -/
theorem plain_numbers_kept (text : String) (hplain : IsPlainText text) :
    ((plainNode text).tag = coreTag "int" →
      (IsUnwritten text.toList → (renderScalar (plainNode text)).outcome = .ok "null") ∧
      (¬ IsUnwritten text.toList → (renderScalar (plainNode text)).outcome =
        .ok (String.ofList (Php.decimal (denoted text.toList))))) ∧
    ((plainNode text).tag = coreTag "float" →
      let parts := (splitSign text.toList).2.splitOn ':'
      (175 ≤ parts.length → (renderScalar (plainNode text)).outcome = .error .floatRange) ∧
      (parts.length < 175 → ∃ x, readFloat text.toList = .ok x ∧
        (renderScalar (plainNode text)).outcome = .ok (ofFloat x) ∧ ofFloat x ≠ "null")) :=
  ⟨fun htag => outcome_of_isInt htag ((isNumber_of_plainNode hplain htag).2 rfl),
    fun htag => outcome_of_isFloat htag ((isNumber_of_plainNode hplain htag).1 rfl)⟩

/-- A negative number in base sixteen, and a fraction in base sixty. -/
theorem plain_numbers_kept_bases :
    let whole := "-0x_1F"
    let fraction := "1:30.5_"
    IsPlainText whole ∧ (plainNode whole).tag = coreTag "int" ∧ ¬ IsUnwritten whole.toList ∧
      (renderScalar (plainNode whole)).outcome = .ok "-31" ∧
      IsPlainText fraction ∧ (plainNode fraction).tag = coreTag "float" ∧
      ((splitSign fraction.toList).2.splitOn ':').length < 175 ∧
      ∃ x, readFloat fraction.toList = .ok x ∧
        (renderScalar (plainNode fraction)).outcome = .ok (ofFloat x) ∧ ofFloat x ≠ "null" := by
  intro whole fraction
  have hplain : IsPlainText whole := ⟨false, -1, .ofText whole.toList, by decide +kernel⟩
  have hplain' : IsPlainText fraction := ⟨false, -1, .ofText fraction.toList, by decide +kernel⟩
  have htag : (plainNode whole).tag = coreTag "int" := by decide +kernel
  have htag' : (plainNode fraction).tag = coreTag "float" := by decide +kernel
  have hparts : ((splitSign fraction.toList).2.splitOn ':').length < 175 := by decide +kernel
  have hwritten : ¬ IsUnwritten whole.toList := by
    have hunsigned : (splitSign whole.toList).2 = ['0', 'x', '_', '1', 'F'] := by decide +kernel
    rintro (⟨mark, hmark, bars, htext, hbars⟩ | hlarge)
    · rw [hunsigned] at htext
      obtain rfl := (List.cons.inj (List.cons.inj htext).2).2
      exact absurd (hbars '1' (by decide)) (by decide)
    · have hvalue : (denoted whole.toList).natAbs = 31 := by decide +kernel
      have hlimit : 10 ^ 2 ≤ 10 ^ maxDecimalDigits := Nat.pow_le_pow_right (by omega) (by decide)
      omega
  have hvalue : String.ofList (Php.decimal (denoted whole.toList)) = "-31" := by decide +kernel
  exact ⟨hplain, htag, hwritten,
    hvalue ▸ ((plain_numbers_kept whole hplain).1 htag).2 hwritten, hplain', htag', hparts,
    ((plain_numbers_kept fraction hplain').2 htag').2 hparts⟩

/-- The mark of base two without digits becomes null, and a zero in base sixty of 175 parts
fails. -/
theorem plain_numbers_lost :
    let mark := "0b_"
    let zero := [':'].intercalate (List.replicate 174 ['0'] ++ [['0', '.']])
    IsPlainText mark ∧ (plainNode mark).tag = coreTag "int" ∧
      (renderScalar (plainNode mark)).outcome = .ok "null" ∧
      IsPlainText (String.ofList zero) ∧ (plainNode (String.ofList zero)).tag = coreTag "float" ∧
      (renderScalar (plainNode (String.ofList zero))).outcome = .error .floatRange := by
  intro mark zero
  have hmark : IsPlainText mark := ⟨false, -1, .ofText mark.toList, by decide +kernel⟩
  have hzero : IsPlainText (String.ofList zero) := ⟨false, -1, .ofText zero, by decide +kernel⟩
  have hfloat : ImplicitTag.isFloat zero = true := by decide +kernel
  have hbool : ImplicitTag.isBool (String.ofList zero) = false := by
    rw [ImplicitTag.isBool, decide_eq_false_iff_not]
    exact fun h => absurd (mem_map_toList h) (by decide +kernel)
  have htag : (plainNode (String.ofList zero)).tag = coreTag "float" := by
    rw [plainNode, hzero.scalarTag, ImplicitTag.kind?, hbool, String.toList_ofList, hfloat]
    rfl
  have hparts : 175 ≤ ((splitSign zero).2.splitOn ':').length := by decide +kernel
  rw [← String.toList_ofList (l := zero)] at hfloat hparts
  exact ⟨hmark, by decide +kernel, by decide +kernel, hzero, htag,
    (outcome_of_isFloat htag hfloat).1 hparts⟩

end PhpArray.Yaml
