import PhpArray.Yaml.Graph

/-!
The tags of nodes that are not tagged. A plain scalar is a number, a truth value, a date or nothing
if it is written like one; any other scalar is a string.
-/

namespace PhpArray.Yaml

/-- A tag of the common schema. -/
def coreTag (name : String) : String :=
  "tag:yaml.org,2002:" ++ name

namespace ImplicitTag

/-- The text after an optional sign. -/
def dropSign : List Char → List Char
  | '-' :: rest => rest
  | '+' :: rest => rest
  | text => text

def isDigitOrBar (c : Char) : Bool :=
  c.isDigit || c == '_'

/-- A text that is not empty and has all its characters in a class. -/
def isRun (p : Char → Bool) (text : List Char) : Bool :=
  !text.isEmpty && text.all p

/-- A digit and then digits or underscores. -/
def isDigits : List Char → Bool
  | [] => false
  | c :: rest => c.isDigit && rest.all isDigitOrBar

def isNonzeroDigits : List Char → Bool
  | [] => false
  | c :: rest => c.isDigit && c != '0' && rest.all isDigitOrBar

/-- One or two digits below sixty. -/
def isSixtieth : List Char → Bool
  | [c] => c.isDigit
  | [c, d] => '0' ≤ c && c ≤ '5' && d.isDigit
  | _ => false

/-- Parts in base sixty behind a first one. -/
def areSixtieths (parts : List (List Char)) : Bool :=
  !parts.isEmpty && parts.all isSixtieth

def isBool (text : String) : Bool :=
  text ∈ ["yes", "Yes", "YES", "no", "No", "NO", "true", "True", "TRUE", "false", "False", "FALSE",
    "on", "On", "ON", "off", "Off", "OFF"]

/-- Nothing, or a power of ten with a sign. -/
def isExponent : List Char → Bool
  | [] => true
  | [_] => false
  | mark :: sign :: digits =>
    (mark == 'e' || mark == 'E') && (sign == '-' || sign == '+') && isRun Char.isDigit digits

/-- Digits after a point, and a power of ten. -/
def isFraction (text : List Char) : Bool :=
  isExponent (text.dropWhile isDigitOrBar)

/-- Digits, a point, and a fraction; the first part may be in base sixty without a power. -/
def isPointed (text : List Char) : Bool :=
  match text.span (· != '.') with
  | (whole, '.' :: fraction) =>
    (isDigits whole && isFraction fraction) ||
      (match whole.splitOn ':' with
        | first :: more => isDigits first && areSixtieths more && fraction.all isDigitOrBar
        | [] => false)
  | _ => false

/-- A point, a digit and a fraction. -/
def isBarePointed : List Char → Bool
  | '.' :: digit :: rest => digit.isDigit && isFraction rest
  | _ => false

def isFloat (text : List Char) : Bool :=
  isPointed (dropSign text) || isBarePointed text ||
    String.ofList (dropSign text) ∈ [".inf", ".Inf", ".INF"] ||
    String.ofList text ∈ [".nan", ".NaN", ".NAN"]

/-- Digits of a base behind its mark, or decimal or base sixty digits. -/
def isUnsignedInt (text : List Char) : Bool :=
  (match text with
    | '0' :: 'b' :: digits => isRun (fun c => c == '0' || c == '1' || c == '_') digits
    | '0' :: 'x' :: digits =>
      isRun (fun c => c.isDigit || ('a' ≤ c && c ≤ 'f') || ('A' ≤ c && c ≤ 'F') || c == '_') digits
    | '0' :: digits => digits.all fun c => ('0' ≤ c && c ≤ '7') || c == '_'
    | _ => false) ||
  (match text.splitOn ':' with
    | [digits] => isNonzeroDigits digits
    | first :: more => isNonzeroDigits first && areSixtieths more
    | [] => false)

def isInt (text : List Char) : Bool :=
  isUnsignedInt (dropSign text)

def isNull (text : String) : Bool :=
  text ∈ ["", "~", "null", "Null", "NULL"]

/-- A count of digits within bounds, and the text after them. -/
def digits? (least most : Nat) (text : List Char) : Option (List Char) :=
  let found := (text.takeWhile Char.isDigit).length
  if least ≤ found ∧ found ≤ most then some (text.drop found) else none

def mark? (c : Char) : List Char → Option (List Char)
  | [] => none
  | head :: rest => if head = c then some rest else none

/-- Nothing, or the offset from universal time. -/
def isZone (text : List Char) : Bool :=
  match text.dropWhile (fun c => c == ' ' || c == '\t') with
  | [] => text.isEmpty
  | ['Z'] => true
  | sign :: rest =>
    (sign == '-' || sign == '+') &&
      match digits? 1 2 rest with
      | none => false
      | some [] => true
      | some rest => (mark? ':' rest >>= digits? 2 2) == some []

/-- A time of day, an optional fraction of a second and a zone. -/
def isTime (text : List Char) : Bool :=
  match digits? 1 2 text >>= mark? ':' >>= digits? 2 2 >>= mark? ':' >>= digits? 2 2 with
  | none => false
  | some ('.' :: rest) => isZone (rest.dropWhile Char.isDigit)
  | some rest => isZone rest

/-- What may stand between a date and a time: a letter or blanks. -/
def isDateTimeTail : List Char → Bool
  | [] => false
  | c :: rest =>
    if c == 'T' || c == 't' then isTime rest
    else (c == ' ' || c == '\t') && isTime (rest.dropWhile fun c => c == ' ' || c == '\t')

/-- A date of ten characters, or a looser one with a time. -/
def isTimestamp (text : List Char) : Bool :=
  (digits? 4 4 text >>= mark? '-' >>= digits? 2 2 >>= mark? '-' >>= digits? 2 2) == some [] ||
    match digits? 4 4 text >>= mark? '-' >>= digits? 1 2 >>= mark? '-' >>= digits? 1 2 with
    | some rest => isDateTimeTail rest
    | none => false

/-- The name of the first kind that a text is written like. -/
def kind? (text : String) : Option String :=
  if isBool text then some "bool"
  else if isFloat text.toList then some "float"
  else if isInt text.toList then some "int"
  else if text = "<<" then some "merge"
  else if isNull text then some "null"
  else if isTimestamp text.toList then some "timestamp"
  else if text = "=" then some "value"
  else if text ∈ ["!", "&", "*"] then some "yaml"
  else none

/-- The text without one line feed at its end, if that leaves any; a kind is recognised in front of
it. -/
def dropFinalBreak (text : String) : String :=
  match text.toList.reverse with
  | '\n' :: c :: rest => String.ofList (c :: rest).reverse
  | _ => text

/-- The tag of a scalar that stands for what it looks like. -/
def ofText (text : String) : String :=
  coreTag ((kind? (dropFinalBreak text)).getD "str")

end ImplicitTag

end PhpArray.Yaml
