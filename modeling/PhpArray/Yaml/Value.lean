import PhpArray.Number.Decimal

/-!
The values of scalars that are tagged as truth values or numbers. Underscores are passed over. A
whole number may be in base two, eight, ten, sixteen or sixty, a fraction in base ten or sixty.
-/

namespace PhpArray.Yaml

/-- Why a text gives no value. -/
inductive ValueFault where
  | malformed
  /-- A power of sixty does not fit into a double. -/
  | outOfRange
deriving DecidableEq, Repr

def lowerCase (text : List Char) : List Char :=
  text.map Char.toLower

def dropBars (text : List Char) : List Char :=
  text.filter (· != '_')

def readBool? (text : List Char) : Option Bool :=
  let word := String.ofList (lowerCase text)
  if word ∈ ["yes", "true", "on"] then some true
  else if word ∈ ["no", "false", "off"] then some false
  else none

/-- Reads a whole number without underscores and without its first sign. -/
def readUnsignedInt? (text : List Char) : Option Int :=
  match text with
  | [] => none
  | ['0'] => some 0
  | '0' :: 'b' :: digits => Numeral.read? 2 digits
  | '0' :: 'x' :: digits => Numeral.read? 16 digits
  | '0' :: _ => Numeral.read? 8 text
  | _ =>
    if ':' ∈ text then (text.splitOn ':').mapM (Numeral.read? 10) |>.map Numeral.sexagesimal
    else Numeral.read? 10 text

def readInt? (text : List Char) : Option Int :=
  let (negative, unsigned) := Numeral.splitSign (dropBars text)
  (readUnsignedInt? unsigned).map fun n => if negative then -n else n

/-- The sum of parts times powers of sixty, the last part coming first. The powers are exact and are
rounded for each product. -/
def sexagesimalFrom (power : Nat) (sum : Binary64) : List Binary64 → Except ValueFault Binary64
  | [] => .ok sum
  | part :: higher =>
    match Binary64.ofInt? power with
    | none => .error .outOfRange
    | some factor => sexagesimalFrom (power * 60) (sum.add (part.mul factor)) higher

/-- Reads a fraction in lower case, without underscores and without its first sign. -/
def readUnsignedFloat (text : List Char) : Except ValueFault Binary64 :=
  if text = ".inf".toList then .ok (.infinite false)
  else if text = ".nan".toList then .ok .nan
  else if ':' ∈ text then
    match (text.splitOn ':').mapM Decimal.read? with
    | none => .error .malformed
    | some parts => sexagesimalFrom 1 (.zero false) parts.reverse
  else
    match Decimal.read? text with
    | none => .error .malformed
    | some x => .ok x

def readFloat (text : List Char) : Except ValueFault Binary64 :=
  let (negative, unsigned) := Numeral.splitSign (lowerCase (dropBars text))
  (readUnsignedFloat unsigned).map fun x => if negative then x.negate else x

end PhpArray.Yaml
