import PhpArray.Text.CodePoint
import PhpArray.Text.Printable

/-!
Text quoted in a message: on one line, between quotes, with every character that does not print
written as an escape.
-/

namespace PhpArray.Text

/-- The number in base sixteen, filled up with zeros to a width. -/
def hexDigits (width n : Nat) : List Char :=
  let digits := Nat.toDigits 16 n
  List.replicate (width - digits.length) '0' ++ digits

/-- Apostrophes enclose a text, unless they would have to be escaped and double quotes not. -/
def quoteMark (s : List Char) : Char :=
  if '\'' ∈ s ∧ '"' ∉ s then '"' else '\''

/-- One character between the given quotes. -/
def quotedChar (mark c : Char) : List Char :=
  if c = mark ∨ c = '\\' then ['\\', c]
  else if c = '\n' then ['\\', 'n']
  else if c = '\r' then ['\\', 'r']
  else if c = '\t' then ['\\', 't']
  else if isPrintable c then [c]
  else if c.toNat < 0x100 then '\\' :: 'x' :: hexDigits 2 c.toNat
  else if c.toNat < 0x10000 then '\\' :: 'u' :: hexDigits 4 c.toNat
  else '\\' :: 'U' :: hexDigits 8 c.toNat

/-- One code point between the given quotes. -/
def quotedPoint (mark : Char) (n : Nat) : List Char :=
  if isSurrogate n then '\\' :: 'u' :: hexDigits 4 n else quotedChar mark (Char.ofNat n)

def quoted (s : String) : String :=
  let mark := quoteMark s.toList
  String.ofList (mark :: (codePoints s.toList).flatMap (quotedPoint mark) ++ [mark])

end PhpArray.Text
