import PhpArray.Literal.String
import PhpArray.Yaml.ImplicitTag
import PhpArray.Yaml.Value

/-!
Scalars as PHP literals. The tag decides the kind of the literal; a scalar whose text is none of its
kind becomes null.
-/

namespace PhpArray.Literal

open Yaml

inductive Kind where
  | string
  | bool
  | int
  | float
  | null
deriving DecidableEq, Repr

def Kind.name : Kind → String
  | .string => "string"
  | .bool => "bool"
  | .int => "int"
  | .float => "float"
  | .null => "null"

/-- The kinds of tags. There are no literals for dates, so they stay text; other tags are null. -/
def kindOf (tag : String) : Kind :=
  if tag = coreTag "str" ∨ tag = coreTag "timestamp" then .string
  else if tag = coreTag "bool" then .bool
  else if tag = coreTag "int" then .int
  else if tag = coreTag "float" then .float
  else .null

def ofBool (b : Bool) : String :=
  if b then "true" else "false"

def ofFloat : Binary64 → String
  | .nan => "NAN"
  | .infinite negative => if negative then "-INF" else "INF"
  | .finite negative mantissa exponent => Decimal.writeFinite negative mantissa exponent

/-- The literal of a text of some kind. -/
def ofText (kind : Kind) (text : String) : Except ValueFault String :=
  match kind with
  | .string => .ok (ofString text)
  | .bool => ((readBool? text.toList).map ofBool).elim (.error .malformed) .ok
  | .int => ((readInt? text.toList).bind Numeral.write?).elim (.error .malformed) .ok
  | .float => (readFloat text.toList).map ofFloat
  | .null => .ok "null"

end PhpArray.Literal
