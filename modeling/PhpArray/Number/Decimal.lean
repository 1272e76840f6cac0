import PhpArray.Number.Binary64
import PhpArray.Number.Numeral

/-!
Doubles as decimal text. Reading takes a decimal fraction with an optional power of ten, or the
name of an infinity or of no number, and finds the nearest double. Writing uses the fewest digits
that read back as the same double, and among these the nearest.
-/

namespace PhpArray.Decimal

open Binary64 (posPow)

/-- A decimal text taken apart: the digits before and after the point, and the power of ten. -/
structure Parts where
  whole : List Nat
  fraction : List Nat
  power : Int

def spanDigits (text : List Char) : List Nat × List Char :=
  let (digits, rest) := text.span Char.isDigit
  (digits.map fun c => c.toNat - 48, rest)

/-- The power of ten that an `e`, a sign and digits add; no text adds none. -/
def power? : List Char → Option Int
  | [] => some 0
  | mark :: rest => do
    guard (mark = 'e' ∨ mark = 'E')
    let (negative, unsigned) := Numeral.splitSign rest
    let (digits, rest) := spanDigits unsigned
    guard (digits ≠ [] ∧ rest = [])
    return Numeral.signed negative (Text.digitsValue 10 digits)

def parts? (text : List Char) : Option Parts := do
  let (whole, rest) := spanDigits text
  let (fraction, rest) :=
    match rest with
    | '.' :: rest => spanDigits rest
    | rest => ([], rest)
  guard (whole ≠ [] ∨ fraction ≠ [])
  return ⟨whole, fraction, ← power? rest⟩

/-- Reads an unsigned text. -/
def readUnsigned? (negative : Bool) (text : List Char) : Option Binary64 :=
  let name := text.map Char.toLower
  if name = "inf".toList ∨ name = "infinity".toList then some (.infinite negative)
  else if name = "nan".toList then some .nan
  else do
    let parts ← parts? text
    return .ofDecimal negative (Text.digitsValue 10 (parts.whole ++ parts.fraction))
      (parts.power - parts.fraction.length)

/-- Reads a decimal text with blanks around it, a sign, and digits of any script. -/
def read? (text : List Char) : Option Binary64 :=
  let (negative, unsigned) := Numeral.splitSign (Text.trim text |>.map Text.latinForm)
  readUnsigned? negative unsigned

/-- The power of ten of the leading digit of `num / den`. -/
def leadingPower (num den : Nat) : Int :=
  if den ≤ num then (Nat.toDigits 10 (num / den)).length - 1
  else -((Nat.toDigits 10 ((den + num - 1) / num - 1)).length : Int)

/-- Whether `digits * 10 ^ power` is read as the given positive number. -/
def readsBack (mantissa : Nat) (exponent : Int) (digits : Nat) (power : Int) : Bool :=
  Binary64.ofDecimal false digits power == .finite false mantissa exponent

/-- The multiple of a power of ten next to the number that reads back. If both neighbours do, it is
the nearer one, and the even one of two equally near. -/
def neighbour? (mantissa : Nat) (exponent power : Int) : Option Nat :=
  let num := mantissa * posPow 2 exponent * posPow 10 (-power)
  let den := posPow 2 (-exponent) * posPow 10 power
  let low := num / den
  let rest := num % den
  match readsBack mantissa exponent low power, readsBack mantissa exponent (low + 1) power with
  | true, true =>
    if 2 * rest < den then some low
    else if den < 2 * rest then some (low + 1)
    else some (if low % 2 = 0 then low else low + 1)
  | true, false => some low
  | false, true => some (low + 1)
  | false, false => none

/-- The fewest digits that read back, as a number and a power of ten. -/
def shortest (mantissa : Nat) (exponent : Int) : Nat × Int :=
  let lead := leadingPower (mantissa * posPow 2 exponent) (posPow 2 (-exponent))
  let found := (List.range 17).findSome? fun (more : Nat) =>
    let power := lead - more
    (neighbour? mantissa exponent power).map fun digits => (digits, power)
  found.getD (mantissa * posPow 2 exponent, 0)

/-- How a decimal fraction is laid out: the leading digit's powers of ten from `leastPositional` on
and below `firstScientific` are written positionally, others as a power of ten with at least
`powerWidth` digits. -/
structure Layout where
  leastPositional : Int
  firstScientific : Int
  powerWidth : Nat

/-- From 0.0001 on and below 10^16 a number is written positionally. -/
def layout : Layout := ⟨-4, 16, 2⟩

def Layout.powerText (layout : Layout) (power : Int) : List Char :=
  let digits := Nat.toDigits 10 power.natAbs
  'e' :: (if power < 0 then '-' else '+') ::
    (List.replicate (layout.powerWidth - digits.length) '0' ++ digits)

/-- Writes digits whose first one stands for the given power of ten. -/
def Layout.write (layout : Layout) (digits : List Char) (lead : Int) : List Char :=
  if lead < layout.leastPositional ∨ layout.firstScientific ≤ lead then
    match digits with
    | [] => []
    | [digit] => digit :: layout.powerText lead
    | digit :: more => digit :: '.' :: more ++ layout.powerText lead
  else if lead < 0 then
    '0' :: '.' :: List.replicate (-lead - 1).toNat '0' ++ digits
  else
    let before := lead.toNat + 1
    let whole := digits.take before ++ List.replicate (before - digits.length) '0'
    let fraction := digits.drop before
    whole ++ '.' :: (if fraction.isEmpty then ['0'] else fraction)

/-- Writes a positive finite number. -/
def writePositive (mantissa : Nat) (exponent : Int) : List Char :=
  let (n, power) := shortest mantissa exponent
  let digits := Nat.toDigits 10 n
  let significant := (digits.reverse.dropWhile (· == '0')).reverse
  layout.write significant (power + digits.length - 1)

/-- Writes a finite number, zero with its sign. -/
def writeFinite (negative : Bool) (mantissa : Nat) (exponent : Int) : String :=
  let unsigned := if mantissa = 0 then ['0', '.', '0'] else writePositive mantissa exponent
  String.ofList (if negative then '-' :: unsigned else unsigned)

end PhpArray.Decimal
