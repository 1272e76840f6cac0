import PhpArray.Text.Blank
import PhpArray.Text.Digit

/-!
Whole numbers as text. A numeral may have blanks around it, a sign, a base mark that agrees with
the base it is read in, single underscores between its digits, and digits of any script.
-/

namespace PhpArray.Numeral

/-- The most decimal digits that are read or written. Bases that are powers of two have no limit. -/
def maxDecimalDigits : Nat := 4300

/-- Splits off one sign: whether it is a minus, and the text after it. -/
def splitSign : List Char → Bool × List Char
  | '-' :: rest => (true, rest)
  | '+' :: rest => (false, rest)
  | text => (false, text)

def signed (negative : Bool) (n : Nat) : Int :=
  if negative then -(n : Int) else n

/-- The letter that marks a base after a leading zero. -/
def baseMark? (base : Nat) : Option Char :=
  if base = 2 then some 'b' else if base = 8 then some 'o' else if base = 16 then some 'x' else none

/-- Drops a zero and the letter of the base, in either case, and one underscore behind them. -/
def dropBaseMark (base : Nat) : List Char → List Char
  | '0' :: mark :: rest =>
    if some mark.toLower = baseMark? base then
      match rest with
      | '_' :: rest => rest
      | rest => rest
    else '0' :: mark :: rest
  | text => text

def digit? (base : Nat) (c : Char) : Option Nat :=
  (Text.latinDigit? c).filter (· < base)

/-- The values of the digits of a text, an underscore being passed over between two of them. -/
def digits? (base : Nat) : List Char → Option (List Nat)
  | [] => none
  | [c] => (digit? base c).map ([·])
  | c :: '_' :: rest => do return (← digit? base c) :: (← digits? base rest)
  | c :: rest => do return (← digit? base c) :: (← digits? base rest)

/-- Reads a numeral in a base; in base ten it is refused if it has too many digits. -/
def read? (base : Nat) (text : List Char) : Option Int := do
  let (negative, unsigned) := splitSign (Text.trim text |>.map Text.latinForm)
  let digits ← digits? base (dropBaseMark base unsigned)
  guard (base ≠ 10 ∨ digits.length ≤ maxDecimalDigits)
  return signed negative (Text.digitsValue base digits)

/-- Writes a number in base ten, unless it would have too many digits. -/
def write? (n : Int) : Option String :=
  let digits := Nat.toDigits 10 n.natAbs
  if digits.length ≤ maxDecimalDigits then
    some (String.ofList (if n < 0 then '-' :: digits else digits))
  else none

/-- The number that parts denote as digits of base sixty, the first part being the highest. A part
may be any number. -/
def sexagesimal (parts : List Int) : Int :=
  parts.foldl (fun n part => n * 60 + part) 0

end PhpArray.Numeral
