import PhpArray.Literal.Scalar
import PhpArray.Proofs.Reader.Strings

/-!
Literals of single values as PHP reads them: strings, numbers and constants. A number with a point
or an exponent is a double and any other one an integer, here of any size. What follows a literal
must not belong to it.
-/

namespace PhpArray.Php

inductive Atom where
  | null
  | bool (b : Bool)
  | int (n : Int)
  | float (x : Binary64)
  | string (bytes : List UInt8)
deriving DecidableEq, Repr

def isBlank (c : Char) : Bool :=
  c == ' ' || c == '\t' || c == '\n' || c == '\r'

def skipBlanks (text : List Char) : List Char :=
  text.dropWhile isBlank

/-- The exponent that a text begins with. -/
def readPower? : List Char → Option (Int × List Char)
  | mark :: rest =>
    let (negative, unsigned) := Numeral.splitSign rest
    let digits := unsigned.takeWhile Char.isDigit
    if (mark = 'e' ∨ mark = 'E') ∧ digits ≠ [] then
      some (Numeral.signed negative (Nat.ofDigitChars 10 digits 0), unsigned.dropWhile Char.isDigit)
    else none
  | [] => none

/-- The integer of some digits, which are octal if the first of several is a zero. -/
def integer? : List Char → Option Nat
  | '0' :: more => if more.all (· < '8') then some (Nat.ofDigitChars 8 more 0) else none
  | digits => some (Nat.ofDigitChars 10 digits 0)

/-- The digits before a point, those behind it if there is one, and the rest. -/
def splitPoint (text : List Char) : List Char × Option (List Char) × List Char :=
  let whole := text.takeWhile Char.isDigit
  match text.dropWhile Char.isDigit with
  | '.' :: rest => (whole, some (rest.takeWhile Char.isDigit), rest.dropWhile Char.isDigit)
  | rest => (whole, none, rest)

def readNumeral (text : List Char) : Option (Atom × List Char) :=
  let (whole, fraction?, rest) := splitPoint text
  let fraction := fraction?.getD []
  let n := Nat.ofDigitChars 10 (whole ++ fraction) 0
  if whole = [] ∧ fraction = [] then none
  else
    match fraction?, readPower? rest with
    | none, none => (integer? whole).map fun n => (.int n, rest)
    | _, some (power, rest) => some (.float (.ofDecimal false n (power - fraction.length)), rest)
    | _, none => some (.float (.ofDecimal false n (-fraction.length)), rest)

/-- The value of a constant. The case of letters matters in the names of numbers only. -/
def constant? (name : List Char) : Option Atom :=
  let lower := name.map Char.toLower
  if lower = "null".toList then some .null
  else if lower = "true".toList then some (.bool true)
  else if lower = "false".toList then some (.bool false)
  else if name = "INF".toList then some (.float (.infinite false))
  else if name = "NAN".toList then some (.float .nan)
  else none

def readName (text : List Char) : List Char × List Char :=
  (text.takeWhile isNamePart, text.dropWhile isNamePart)

def readUnsigned (text : List Char) : Option (Atom × List Char) :=
  if (text.head?.any isNameStart) = true then
    let (name, rest) := readName text
    (constant? name).map fun atom => (atom, rest)
  else readNumeral text

def negate? : Atom → Option Atom
  | .int n => some (.int (-n))
  | .float x => some (.float x.negate)
  | _ => none

/-- Reads a string, or a number or constant, of which a number may have a sign. -/
def readAtom (text : List Char) : Option (Atom × List Char) :=
  match text with
  | '-' :: rest => do
    let (atom, rest) ← readUnsigned (skipBlanks rest)
    return (← negate? atom, rest)
  | '+' :: rest => do
    let (atom, rest) ← readUnsigned (skipBlanks rest)
    return (← (negate? atom).bind negate?, rest)
  | _ =>
    match readString text with
    | some (bytes, rest) => some (.string bytes, rest)
    | none => readUnsigned text

/-- Nothing that could go on with a number or a name. -/
def Ends (rest : List Char) : Prop :=
  ∀ c ∈ rest.head?, isNamePart c = false ∧ c ≠ '.'

section

variable {α : Type} {p : α → Bool} {front rest : List α}

theorem takeWhile_boundary (hfront : ∀ a ∈ front, p a = true)
    (hrest : ∀ a ∈ rest.head?, p a = false) : (front ++ rest).takeWhile p = front := by
  rw [List.takeWhile_append_of_pos hfront]
  cases rest with
  | nil => simp
  | cons a rest => simp [hrest a rfl]

theorem dropWhile_boundary (hfront : ∀ a ∈ front, p a = true)
    (hrest : ∀ a ∈ rest.head?, p a = false) : (front ++ rest).dropWhile p = rest := by
  rw [List.dropWhile_append_of_pos hfront]
  cases rest with
  | nil => simp
  | cons a rest => simp [hrest a rfl]

end

theorem ends_cons {c : Char} (hname : isNamePart c = false) (hpoint : c ≠ '.') (rest : List Char) :
    Ends (c :: rest) := by
  intro first hfirst
  obtain rfl := Option.some.inj hfirst
  exact ⟨hname, hpoint⟩

namespace Ends

variable {rest : List Char}

theorem not_name (h : Ends rest) : ∀ c ∈ rest.head?, isNamePart c = false :=
  fun c hc => (h c hc).1

theorem not_digit (h : Ends rest) : ∀ c ∈ rest.head?, c.isDigit = false := by
  intro c hc
  have hname := h.not_name c hc
  rw [isNamePart, Bool.or_eq_false_iff] at hname
  exact hname.2

theorem readPower? (h : Ends rest) : readPower? rest = none := by
  cases rest with
  | nil => rfl
  | cons c rest =>
      have hname := h.not_name c rfl
      have hmark : ¬ (c = 'e' ∨ c = 'E') := by
        rintro (rfl | rfl)
        · cases hname
        · cases hname
      simp [Php.readPower?, hmark]

end Ends

/-- A point with the digits behind it, or nothing. -/
def pointText : Option (List Char) → List Char
  | none => []
  | some fraction => '.' :: fraction

theorem splitPoint_eq {whole rest : List Char} {fraction? : Option (List Char)}
    (hwhole : ∀ c ∈ whole, c.isDigit = true)
    (hfraction : ∀ fraction ∈ fraction?, ∀ c ∈ fraction, c.isDigit = true)
    (hrest : ∀ c ∈ rest.head?, c.isDigit = false ∧ c ≠ '.') :
    splitPoint (whole ++ (pointText fraction? ++ rest)) = (whole, fraction?, rest) := by
  have hdigit : ∀ c ∈ rest.head?, c.isDigit = false := fun c hc => (hrest c hc).1
  unfold splitPoint
  cases fraction? with
  | none =>
      rw [pointText, List.nil_append, takeWhile_boundary hwhole hdigit,
        dropWhile_boundary hwhole hdigit]
      dsimp only
      split
      next => exact absurd rfl (hrest _ rfl).2
      next => rfl
  | some fraction =>
      have hpoint : ∀ c ∈ (pointText (some fraction) ++ rest).head?, c.isDigit = false := by
        intro c hc
        cases hc
        rfl
      rw [takeWhile_boundary hwhole hpoint, dropWhile_boundary hwhole hpoint]
      simp only [pointText, List.cons_append]
      rw [takeWhile_boundary (hfraction fraction rfl) hdigit,
        dropWhile_boundary (hfraction fraction rfl) hdigit]

theorem isDigit_of_mem_toDigits {n : Nat} : ∀ c ∈ Nat.toDigits 10 n, c.isDigit = true :=
  fun _ hc => Nat.isDigit_of_mem_toDigits (by omega) (by omega) hc

/-- A digit begins no name, no blanks, no signs and no strings. -/
theorem plain_of_isDigit {c : Char} (hc : c.isDigit = true) :
    isNameStart c = false ∧ isBlank c = false ∧ c ∉ ['-', '+', '\'', '"'] := by
  have hrange : 48 ≤ c.toNat ∧ c.toNat ≤ 57 := by
    simpa [Char.isDigit, UInt32.le_iff_toNat_le] using hc
  have hdigits : ∀ d < 10, isNameStart (Char.ofNat (48 + d)) = false ∧
      isBlank (Char.ofNat (48 + d)) = false ∧
      Char.ofNat (48 + d) ∉ ['-', '+', '\'', '"'] := by decide
  have hdigit := hdigits (c.toNat - 48) (by omega)
  rw [Nat.add_sub_cancel' hrange.1, Char.ofNat_toNat] at hdigit
  exact hdigit

/-- A number other than zero does not begin with a zero. -/
theorem head?_toDigits_ne_zero {n : Nat} (hn : n ≠ 0) : (Nat.toDigits 10 n).head? ≠ some '0' := by
  induction n using Nat.strongRecOn with
  | ind n ih =>
      rcases Nat.lt_or_ge n 10 with hlt | hge
      · rw [Nat.toDigits_of_lt_base hlt]
        have hdigit : ∀ d < 10, d ≠ 0 → d.digitChar ≠ '0' := by decide
        simpa using hdigit n hlt hn
      · have hfront := ih (n / 10) (by omega) (by omega)
        obtain ⟨c, digits, hdigits⟩ :=
          List.exists_cons_of_ne_nil (@Nat.toDigits_ne_nil (n / 10) 10)
        rw [hdigits] at hfront
        rw [Nat.toDigits_of_base_le (by omega) hge, hdigits]
        exact hfront

theorem integer?_toDigits (n : Nat) : integer? (Nat.toDigits 10 n) = some n := by
  by_cases hn : n = 0
  · subst hn
    rfl
  · have hhead := head?_toDigits_ne_zero hn
    unfold integer?
    split
    next htext => exact absurd (by rw [htext]; rfl) hhead
    next => rw [Nat.ofDigitChars_ten_toDigits]

theorem readNumeral_toDigits (n : Nat) {rest : List Char} (hrest : Ends rest) :
    readNumeral (Nat.toDigits 10 n ++ rest) = some (.int n, rest) := by
  have hsplit : splitPoint (Nat.toDigits 10 n ++ (pointText none ++ rest)) =
      (Nat.toDigits 10 n, none, rest) :=
    splitPoint_eq isDigit_of_mem_toDigits (by simp) fun c hc =>
      ⟨hrest.not_digit c hc, (hrest c hc).2⟩
  rw [pointText, List.nil_append] at hsplit
  unfold readNumeral
  rw [hsplit]
  have hne : ¬ (Nat.toDigits 10 n = [] ∧ (Option.none : Option (List Char)).getD [] = []) :=
    fun h => Nat.toDigits_ne_nil h.1
  dsimp only
  rw [if_neg hne, hrest.readPower?, integer?_toDigits]
  rfl

/-- A numeral begins with a digit or a point, so it is no name and has no sign. -/
theorem head_of_readNumeral {text : List Char} {result : Atom × List Char}
    (h : readNumeral text = some result) : ∃ c, text.head? = some c ∧ isNameStart c = false ∧
      isBlank c = false ∧ c ∉ ['-', '+', '\'', '"'] := by
  cases text with
  | nil => cases h
  | cons c rest =>
      refine ⟨c, rfl, ?_⟩
      by_cases hdigit : c.isDigit = true
      · exact plain_of_isDigit hdigit
      · by_cases hpoint : c = '.'
        · subst hpoint
          decide
        · have hsplit : splitPoint (c :: rest) = ([], none, c :: rest) := by
            simp [splitPoint, hdigit, hpoint]
          rw [readNumeral, hsplit] at h
          cases h

theorem readUnsigned_of_readNumeral {text : List Char} {result : Atom × List Char}
    (h : readNumeral text = some result) : readUnsigned text = some result := by
  obtain ⟨c, hhead, hstart, -⟩ := head_of_readNumeral h
  rw [readUnsigned, hhead, if_neg (by simp [hstart]), h]

/-- A name is read up to its end. -/
theorem readUnsigned_name (name : List Char) {rest : List Char} {c : Char}
    (hhead : name.head? = some c) (hstart : isNameStart c = true)
    (hname : name.all isNamePart = true) (hrest : Ends rest) :
    readUnsigned (name ++ rest) = (constant? name).map fun atom => (atom, rest) := by
  have hany : ((name ++ rest).head?.any isNameStart) = true := by
    simp [List.head?_append, hhead, hstart]
  rw [List.all_eq_true] at hname
  rw [readUnsigned, if_pos hany, readName, takeWhile_boundary hname hrest.not_name,
    dropWhile_boundary hname hrest.not_name]

/-- What begins with no sign and no quote is a number or a constant. -/
theorem readAtom_of_head {text : List Char} {c : Char} (hhead : text.head? = some c)
    (hplain : c ∉ ['-', '+', '\'', '"']) : readAtom text = readUnsigned text := by
  cases text with
  | nil => cases hhead
  | cons first rest =>
      obtain rfl : first = c := Option.some.inj hhead
      simp only [List.mem_cons, List.not_mem_nil, or_false, not_or] at hplain
      have hstring : readString (first :: rest) = none := by
        unfold readString
        split <;> simp_all
      unfold readAtom
      split <;> simp_all

/-- A sign is read together with the number behind it. -/
theorem readAtom_minus {text rest : List Char} {c : Char} {atom negative : Atom}
    (hhead : text.head? = some c) (hc : isBlank c = false)
    (hread : readUnsigned text = some (atom, rest)) (hnegative : negate? atom = some negative) :
    readAtom ('-' :: text) = some (negative, rest) := by
  have hskip : skipBlanks text = text := by
    cases text with
    | nil => rfl
    | cons first behind =>
        obtain rfl : first = c := Option.some.inj hhead
        simp [skipBlanks, hc]
  simp [readAtom, hskip, hread, hnegative]

theorem plain_of_isNameStart {c : Char} (hstart : isNameStart c = true) :
    c ∉ ['-', '+', '\'', '"'] := by
  intro hmem
  have hother : ['-', '+', '\'', '"'].all (fun c => !isNameStart c) = true := rfl
  have hc := List.all_eq_true.1 hother c hmem
  rw [hstart] at hc
  cases hc

theorem readAtom_constant (name : List Char) {rest : List Char} {c : Char} {atom : Atom}
    (hhead : name.head? = some c) (hstart : isNameStart c = true)
    (hname : name.all isNamePart = true) (hconstant : constant? name = some atom)
    (hrest : Ends rest) : readAtom (name ++ rest) = some (atom, rest) := by
  have hhead' : (name ++ rest).head? = some c := by simp [List.head?_append, hhead]
  rw [readAtom_of_head hhead' (plain_of_isNameStart hstart),
    readUnsigned_name name hhead hstart hname hrest, hconstant]
  rfl

theorem readAtom_of_readNumeral {text : List Char} {result : Atom × List Char}
    (h : readNumeral text = some result) : readAtom text = some result := by
  obtain ⟨c, hhead, -, -, hplain⟩ := head_of_readNumeral h
  rw [readAtom_of_head hhead hplain, readUnsigned_of_readNumeral h]

theorem readAtom_minus_of_readNumeral {text rest : List Char} {atom negative : Atom}
    (h : readNumeral text = some (atom, rest)) (hnegative : negate? atom = some negative) :
    readAtom ('-' :: text) = some (negative, rest) := by
  obtain ⟨c, hhead, -, hblank, -⟩ := head_of_readNumeral h
  exact readAtom_minus hhead hblank (readUnsigned_of_readNumeral h) hnegative

theorem readAtom_int (n : Int) {rest : List Char} (hrest : Ends rest) :
    readAtom ((if n < 0 then '-' :: Nat.toDigits 10 n.natAbs else Nat.toDigits 10 n.natAbs) ++
      rest) = some (.int n, rest) := by
  have hread := readNumeral_toDigits n.natAbs hrest
  split_ifs with hneg
  · apply readAtom_minus_of_readNumeral hread
    have hvalue : -(n.natAbs : Int) = n := by omega
    simp only [negate?, hvalue]
  · have hvalue : (n.natAbs : Int) = n := by omega
    rw [readAtom_of_readNumeral hread, hvalue]

end PhpArray.Php
