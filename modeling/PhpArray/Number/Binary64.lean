/-!
Binary floating-point numbers of 64 bits, as exact values. A finite number is a whole multiple of a
power of two; every operation finds the exact result and rounds it once, to the nearest number and
of two equally near ones to the even one.
-/

namespace PhpArray

/-- A double. A finite one is `mantissa * 2 ^ exponent` with its sign. -/
inductive Binary64 where
  | nan
  | infinite (negative : Bool)
  | finite (negative : Bool) (mantissa : Nat) (exponent : Int)
deriving DecidableEq, Repr

namespace Binary64

/-- The exponent of the numbers nearest to zero. -/
def minExponent : Int := -1074

/-- The exponent of the largest numbers. -/
def maxExponent : Int := 971

def zero (negative : Bool) : Binary64 := .finite negative 0 minExponent

/-- A power of a base, or one where the exponent is negative. A number times a power is then a
quotient, with this power above the line and the one of the opposite exponent below. -/
def posPow (base : Nat) (exponent : Int) : Nat :=
  Nat.pow base exponent.toNat

/-- The least whole number of 54 binary digits; a mantissa is below it. -/
def mantissaBound : Nat := 0x20000000000000

/-- The quotient to the nearest whole number, a half to the even one. -/
def roundDiv (num den : Nat) : Nat :=
  let q := num / den
  let r := num % den
  if 2 * r < den then q
  else if den < 2 * r then q + 1
  else if q % 2 = 0 then q
  else q + 1

/-- `num / den` divided by a power of two and rounded to a whole number. -/
def mantissaAt (num den : Nat) (exponent : Int) : Nat :=
  roundDiv (num * posPow 2 (-exponent)) (den * posPow 2 exponent)

/-- The exponent at which the quotient has 53 binary digits, or the least one. -/
def exponentFor (num den : Nat) : Int :=
  let guess : Int := num.log2 - den.log2 - 53
  let fits := num * posPow 2 (-guess) < mantissaBound * (den * posPow 2 guess)
  max minExponent (if fits then guess else guess + 1)

/-- The double nearest to a quotient of natural numbers. -/
def ofQuotient (negative : Bool) (num den : Nat) : Binary64 :=
  if num = 0 then zero negative
  else
    let exponent := exponentFor num den
    let mantissa := mantissaAt num den exponent
    let (mantissa, exponent) :=
      if mantissa = mantissaBound then (mantissaBound / 2, exponent + 1) else (mantissa, exponent)
    if maxExponent < exponent then .infinite negative else .finite negative mantissa exponent

/-- The double nearest to `n * 10 ^ power`. Powers far outside the range are not computed. -/
def ofDecimal (negative : Bool) (n : Nat) (power : Int) : Binary64 :=
  let digits : Int := (Nat.toDigits 10 n).length
  if n = 0 then zero negative
  else if 310 < digits + power then .infinite negative
  else if digits + power < -330 then zero negative
  else ofQuotient negative (n * posPow 10 power) (posPow 10 (-power))

/-- The double nearest to a whole number, if the number is in the range of doubles. -/
def ofInt? (n : Int) : Option Binary64 :=
  match ofQuotient (n < 0) n.natAbs 1 with
  | .finite negative mantissa exponent => some (.finite negative mantissa exponent)
  | _ => none

def negate : Binary64 → Binary64
  | .nan => .nan
  | .infinite negative => .infinite !negative
  | .finite negative mantissa exponent => .finite (!negative) mantissa exponent

/-- The mantissa of a finite number at a lower exponent, with its sign. -/
def shiftedMantissa (negative : Bool) (mantissa : Nat) (exponent low : Int) : Int :=
  let m : Int := (mantissa * posPow 2 (exponent - low) : Nat)
  if negative then -m else m

/-- `n * 2 ^ exponent`, rounded; a zero takes the given sign. -/
def ofScaled (zeroSign : Bool) (n : Int) (exponent : Int) : Binary64 :=
  if n = 0 then zero zeroSign
  else ofQuotient (n < 0) (n.natAbs * posPow 2 exponent) (posPow 2 (-exponent))

/-- The sum. Opposite infinities have none, and only two negative zeros add up to one. -/
def add : Binary64 → Binary64 → Binary64
  | .nan, _ => .nan
  | _, .nan => .nan
  | .infinite s, .infinite t => if s = t then .infinite s else .nan
  | .infinite s, .finite .. => .infinite s
  | .finite .., .infinite t => .infinite t
  | .finite s m e, .finite t n f =>
    let low := min e f
    ofScaled (s && t && m == 0 && n == 0)
      (shiftedMantissa s m e low + shiftedMantissa t n f low) low

/-- The product. Zero times infinity has none. -/
def mul : Binary64 → Binary64 → Binary64
  | .nan, _ => .nan
  | _, .nan => .nan
  | .infinite s, .infinite t => .infinite (s != t)
  | .infinite s, .finite t n _ => if n = 0 then .nan else .infinite (s != t)
  | .finite s m _, .infinite t => if m = 0 then .nan else .infinite (s != t)
  | .finite s m e, .finite t n f =>
    let product : Int := m * n
    ofScaled (s != t) (if s = t then product else -product) (e + f)

end Binary64

end PhpArray
