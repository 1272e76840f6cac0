import PhpArray.Proofs.Failures
import PhpArray.Proofs.Reader.Keys
import PhpArray.Proofs.Reader.RoundTrip

/-!
The shape of literals. A number is written in one of two shapes, of which PHP reads one as an
integer in base ten and the other one as a double. The main statement is that a scalar of whatever
text has a literal of its kind, with null in place of a text that is none of its kind; the only
scalars without one are fractions in base sixty with 175 parts or more.
-/

namespace PhpArray

open Yaml Php

namespace Literal

def IsDigits (text : List Char) : Prop :=
  text ≠ [] ∧ ∀ c ∈ text, c.isDigit = true

/-- A zero, or digits that begin with another one, with a minus or without. -/
inductive IsInteger : List Char → Prop
  | zero : IsInteger ['0']
  | positive {digits : List Char} :
      IsDigits digits → digits.head? ≠ some '0' → IsInteger digits
  | negative {digits : List Char} :
      IsDigits digits → digits.head? ≠ some '0' → IsInteger ('-' :: digits)

/-- A power of ten, with its sign. -/
inductive IsPower : List Char → Prop
  | intro {sign : Char} {digits : List Char} :
      sign = '+' ∨ sign = '-' → IsDigits digits → IsPower ('e' :: sign :: digits)

/-- Digits with a point, a power of ten or both behind them. -/
inductive IsUnsignedFraction : List Char → Prop
  | point {whole fraction : List Char} :
      IsDigits whole → IsDigits fraction → IsUnsignedFraction (whole ++ '.' :: fraction)
  | power {whole power : List Char} :
      IsDigits whole → IsPower power → IsUnsignedFraction (whole ++ power)
  | both {whole fraction power : List Char} :
      IsDigits whole → IsDigits fraction → IsPower power →
      IsUnsignedFraction (whole ++ '.' :: fraction ++ power)

/-- A fraction, with a minus or without. -/
inductive IsFraction : List Char → Prop
  | positive {text : List Char} : IsUnsignedFraction text → IsFraction text
  | negative {text : List Char} : IsUnsignedFraction text → IsFraction ('-' :: text)

theorem isDigits_zero : IsDigits ['0'] :=
  ⟨by decide, List.forall_mem_singleton.2 rfl⟩

theorem isDigits_toDigits (n : Nat) : IsDigits (Nat.toDigits 10 n) :=
  ⟨Nat.toDigits_ne_nil, isDigit_of_mem_toDigits⟩

theorem isInteger_decimal (n : Int) : IsInteger (decimal n) := by
  unfold decimal
  by_cases hn : n = 0
  · subst hn
    exact .zero
  · have hhead : (Nat.toDigits 10 n.natAbs).head? ≠ some '0' :=
      head?_toDigits_ne_zero (Int.natAbs_ne_zero.2 hn)
    split
    · exact .negative (isDigits_toDigits _) hhead
    · exact .positive (isDigits_toDigits _) hhead

theorem IsDigits.append_zeros {text : List Char} (h : IsDigits text) (count : Nat) :
    IsDigits (text ++ List.replicate count '0') :=
  ⟨by simp [h.1], List.forall_mem_append.2 ⟨h.2, isDigit_of_mem_zeros⟩⟩

theorem IsDigits.zeros_append {text : List Char} (h : IsDigits text) (count : Nat) :
    IsDigits (List.replicate count '0' ++ text) :=
  ⟨by simp [h.1], List.forall_mem_append.2 ⟨isDigit_of_mem_zeros, h.2⟩⟩

theorem isPower_powerText (layout : Decimal.Layout) (power : Int) :
    IsPower (layout.powerText power) := by
  unfold Decimal.Layout.powerText
  refine .intro ?_ ((isDigits_toDigits _).zeros_append _)
  split
  · exact .inr rfl
  · exact .inl rfl

/-- In every layout, digits are written with a point or a power of ten. -/
theorem isUnsignedFraction_write (layout : Decimal.Layout) {digits : List Char}
    (hdigits : IsDigits digits) (lead : Int) : IsUnsignedFraction (layout.write digits lead) := by
  have hpower := isPower_powerText layout lead
  unfold Decimal.Layout.write
  split
  next =>
    match digits, hdigits with
    | [], hdigits => exact absurd rfl hdigits.1
    | [digit], hdigits => exact .power hdigits hpower
    | digit :: second :: more, ⟨_, hdigit⟩ =>
        obtain ⟨hfirst, hmore⟩ := List.forall_mem_cons.1 hdigit
        have hone : IsDigits [digit] := ⟨by simp, by simpa using hfirst⟩
        exact IsUnsignedFraction.both hone ⟨by simp, hmore⟩ hpower
  next =>
    split
    next => exact .point isDigits_zero (hdigits.zeros_append _)
    next =>
      extract_lets before whole fraction
      have hwhole : IsDigits whole := by
        have hfront : IsDigits (digits.take before) :=
          ⟨by simp [hdigits.1, before], fun c hc => hdigits.2 c (List.mem_of_mem_take hc)⟩
        exact hfront.append_zeros _
      have hfraction : IsDigits (if fraction.isEmpty then ['0'] else fraction) := by
        split
        next => exact isDigits_zero
        next hne =>
          exact ⟨fun hnil => hne (List.isEmpty_iff.2 hnil),
            fun c hc => hdigits.2 c (List.mem_of_mem_drop hc)⟩
      exact .point hwhole hfraction

theorem isUnsignedFraction_writePositive {mantissa : Nat} {exponent : Int}
    (hfinite : Binary64.IsFinite mantissa exponent) (hmantissa : 0 < mantissa) :
    IsUnsignedFraction (Decimal.writePositive mantissa exponent) := by
  have hn := Decimal.shortest_ne_zero hfinite hmantissa
  unfold Decimal.writePositive
  generalize Decimal.shortest mantissa exponent = found at hn ⊢
  obtain ⟨n, power⟩ := found
  dsimp only at hn ⊢
  obtain ⟨significant, _, hsignificant, -, hne, hdigits⟩ := significant_digits hn
  rw [hsignificant]
  exact isUnsignedFraction_write _ ⟨hne, hdigits⟩ _

theorem isFraction_writeFinite (negative : Bool) {mantissa : Nat} {exponent : Int}
    (hfinite : Binary64.IsFinite mantissa exponent) :
    IsFraction (Decimal.writeFinite negative mantissa exponent).toList := by
  have hunsigned : IsUnsignedFraction
      (if mantissa = 0 then ['0', '.', '0'] else Decimal.writePositive mantissa exponent) := by
    split
    next => exact .point isDigits_zero isDigits_zero
    next hne => exact isUnsignedFraction_writePositive hfinite (Nat.pos_of_ne_zero hne)
  rw [Decimal.writeFinite, String.toList_ofList]
  cases negative with
  | false => exact .positive hunsigned
  | true => exact .negative hunsigned

theorem ofFloat_cases {x : Binary64} (hx : x.IsDouble) :
    ofFloat x ∈ ["INF", "-INF", "NAN"] ∨ IsFraction (ofFloat x).toList := by
  cases x with
  | nan => exact .inl (by decide)
  | infinite negative => cases negative <;> exact .inl (by decide)
  | finite negative mantissa exponent => exact .inr (isFraction_writeFinite negative hx)

end Literal

namespace Yaml

open Literal

/-- Readings of the members of a list succeed together, each with its own result. -/
theorem mapM_eq_some_iff {α β : Type} {read : α → Option β} {list : List α} {results : List β} :
    list.mapM read = some results ↔ list.map read = results.map some := by
  induction list generalizing results with
  | nil => cases results <;> simp
  | cons a list ih =>
      rw [List.mapM_cons, Option.bind_eq_bind, Option.bind_eq_some_iff]
      simp only [Option.bind_eq_bind, Option.bind_eq_some_iff, ih, List.map_cons]
      constructor
      · rintro ⟨b, hb, more, hmore, hresults⟩
        obtain rfl := Option.some.inj hresults
        rw [List.map_cons, hb, hmore]
      · intro h
        cases results with
        | nil => cases h
        | cons b more =>
            obtain ⟨hb, hmore⟩ := List.cons.inj h
            exact ⟨b, hb, more, hmore, rfl⟩

theorem exists_mapM_of_isSome {α β : Type} {read : α → Option β} {list : List α}
    (h : ∀ a ∈ list, (read a).isSome = true) : ∃ results, list.mapM read = some results := by
  induction list with
  | nil => exact ⟨[], rfl⟩
  | cons a list ih =>
      obtain ⟨ha, hlist⟩ := List.forall_mem_cons.1 h
      obtain ⟨b, hb⟩ := Option.isSome_iff_exists.1 ha
      obtain ⟨results, hresults⟩ := ih hlist
      refine ⟨b :: results, mapM_eq_some_iff.2 ?_⟩
      rw [List.map_cons, hb, mapM_eq_some_iff.1 hresults, List.map_cons]

theorem length_of_mapM {α β : Type} {read : α → Option β} {list : List α} {results : List β}
    (h : list.mapM read = some results) : results.length = list.length := by
  have hlengths := congrArg List.length (mapM_eq_some_iff.1 h)
  rwa [List.length_map, List.length_map, eq_comm] at hlengths

theorem outcome_renderScalar (s : Scalar) : (renderScalar s).outcome =
    match Literal.ofText (Literal.kindOf s.tag) s.value with
    | .ok literal => .ok literal
    | .error .malformed => .ok "null"
    | .error .outOfRange => .error .floatRange := by
  unfold renderScalar
  rcases hvalue : Literal.ofText (Literal.kindOf s.tag) s.value with (_ | _) | literal <;>
    simp [hvalue, Run.outcome_map, Except.map]

namespace Scalar

/-- A fraction in base sixty of 175 parts or more. -/
def IsOverlong (s : Scalar) : Prop :=
  let unsigned := (Numeral.splitSign (lowerCase (dropBars s.value.toList))).2
  let parts := unsigned.splitOn ':'
  s.tag = coreTag "float" ∧ ':' ∈ unsigned ∧ 175 ≤ parts.length ∧
    ∀ part ∈ parts, (Decimal.read? part).isSome = true

theorem kindOf_eq_float_iff {tag : String} : kindOf tag = .float ↔ tag = coreTag "float" := by
  constructor
  · intro h
    unfold kindOf at h
    split_ifs at h with _ _ _ htag
    exact htag
  · rintro rfl
    decide

theorem isOutOfRange_iff {s : Scalar} : s.IsOutOfRange ↔ s.IsOverlong := by
  unfold IsOutOfRange IsOverlong
  extract_lets unsigned parts
  rw [kindOf_eq_float_iff]
  refine and_congr_right fun _ => and_congr_right fun _ => ?_
  constructor
  · rintro ⟨results, hresults, hlength⟩
    refine ⟨length_of_mapM hresults ▸ hlength, fun part hpart => ?_⟩
    have hmem : Decimal.read? part ∈ results.map some :=
      mapM_eq_some_iff.1 hresults ▸ List.mem_map_of_mem hpart
    obtain ⟨x, -, hx⟩ := List.mem_map.1 hmem
    rw [← hx, Option.isSome_some]
  · rintro ⟨hlength, hread⟩
    obtain ⟨results, hresults⟩ := exists_mapM_of_isSome hread
    exact ⟨results, hresults, length_of_mapM hresults ▸ hlength⟩

/-- A text that a scalar may be written as, by its kind. -/
structure MayBe (s : Scalar) (text : String) : Prop where
  string : kindOf s.tag = .string → text = ofString s.value
  bool : kindOf s.tag = .bool → text ∈ ["true", "false", "null"]
  int : kindOf s.tag = .int → text = "null" ∨ IsInteger text.toList
  float : kindOf s.tag = .float → text ∈ ["null", "INF", "-INF", "NAN"] ∨
    IsFraction text.toList ∧
      ∃ x, ∀ rest, Ends rest → readAtom (text.toList ++ rest) = some (.float x, rest)
  unknown : (∀ name ∈ ["str", "timestamp", "bool", "int", "float"], s.tag ≠ coreTag name) →
    text = "null"

theorem literal_mayBe (s : Scalar) : s.MayBe s.literal where
  string hkind := by
    rw [literal, hkind]
    rfl
  bool hkind := by
    rw [literal, hkind, ofText]
    cases readBool? s.value.toList with
    | none => decide
    | some b => cases b <;> decide
  int hkind := by
    rw [literal, hkind, ofText]
    cases hvalue : (readInt? s.value.toList).bind Numeral.write? with
    | none => exact .inl rfl
    | some text =>
        obtain ⟨n, -, htext⟩ := Option.bind_eq_some_iff.1 hvalue
        rw [Numeral.write?_eq, Option.ite_none_right_eq_some, Option.some.injEq] at htext
        refine .inr ?_
        dsimp only [Option.map_some, Option.elim_some]
        rw [← htext.2, String.toList_ofList]
        exact isInteger_decimal n
  float hkind := by
    rw [literal, hkind, ofText]
    cases hvalue : readFloat s.value.toList with
    | error fault => exact .inl (by simp [Except.map])
    | ok x =>
        have hx := isDouble_readFloat hvalue
        dsimp only [Except.map]
        rcases ofFloat_cases hx with hname | hfraction
        · exact .inl (List.mem_cons_of_mem _ hname)
        · exact .inr ⟨hfraction, x, fun rest hrest => readAtom_ofFloat hx hrest⟩
  unknown hunknown := by
    have hkind : kindOf s.tag = .null := by
      simp only [List.forall_mem_cons] at hunknown
      obtain ⟨hstr, htimestamp, hbool, hint, hfloat, -⟩ := hunknown
      simp [kindOf, hstr, htimestamp, hbool, hint, hfloat]
    rw [literal, hkind]
    rfl

/-- A scalar of whatever tag and text is written as a literal of its kind, a number in base ten and
so that PHP takes no integer for an octal one and no fraction for an integer. The only exceptions
are fractions in base sixty of 175 parts or more, which fail. -/
theorem literal_of_kind (s : Scalar) :
    (s.IsOverlong → (renderScalar s).outcome = .error .floatRange) ∧
      (¬ s.IsOverlong → ∃ text, (renderScalar s).outcome = .ok text ∧ s.MayBe text) := by
  rw [← isOutOfRange_iff, ← not_hasLiteral_iff, not_not]
  refine ⟨fun hnone => ?_, fun hliteral => ⟨s.literal, ?_, s.literal_mayBe⟩⟩
  · rw [renderScalar_of_not_hasLiteral hnone]
    rfl
  · rw [renderScalar_of_hasLiteral hliteral]

/-- A zero in base sixty of 175 parts, and an integer with a sign behind the mark of its base. -/
theorem literal_of_kind_signs :
    let zero : Scalar :=
      ⟨coreTag "float", String.ofList ([':'].intercalate (List.replicate 175 ['0']))⟩
    let signed : Scalar := ⟨coreTag "int", "0x-f_f"⟩
    zero.IsOverlong ∧ (renderScalar zero).outcome = .error .floatRange ∧
      ¬ signed.IsOverlong ∧ (renderScalar signed).outcome = .ok "-255" ∧
      IsInteger "-255".toList := by
  intro zero signed
  have hunsigned : (Numeral.splitSign (lowerCase (dropBars zero.value.toList))).2 =
      [':'].intercalate (List.replicate 175 ['0']) := by
    rw [String.toList_ofList]
    decide +kernel
  have hparts : ([':'].intercalate (List.replicate 175 ['0'])).splitOn ':' =
      List.replicate 175 ['0'] :=
    List.splitOn_intercalate ':' (fun part hpart => by
      rw [List.eq_of_mem_replicate hpart]
      decide) (by simp)
  have hzero : zero.IsOverlong := by
    simp only [IsOverlong, hunsigned, hparts, List.length_replicate]
    refine ⟨rfl, by decide +kernel, le_rfl, fun part hpart => ?_⟩
    rw [List.eq_of_mem_replicate hpart]
    decide
  have hsigned : ¬ signed.IsOverlong := fun h => absurd h.1 (by decide)
  obtain ⟨text, htext, hmayBe⟩ := (literal_of_kind signed).2 hsigned
  have hvalue : (renderScalar signed).outcome = .ok "-255" := by decide +kernel
  obtain rfl : text = "-255" := Except.ok.inj (htext.symm.trans hvalue)
  have hinteger := (hmayBe.int (by decide)).resolve_left (by decide)
  exact ⟨hzero, (literal_of_kind zero).1 hzero, hsigned, hvalue, hinteger⟩

end Scalar

end Yaml

end PhpArray
