import PhpArray.Text.Digit
import PhpArray.Yaml.Cursor

/-!
Names in tokens: anchors, directives, tag handles and tag addresses.
-/

namespace PhpArray.Yaml

def isNameChar (c : Char) : Bool :=
  c.isAlphanum || c == '-' || c == '_'

def isUriChar (c : Char) : Bool :=
  c.isAlphanum || c ∈ "-;/?:@&=+$,_.!~*'()[]%".toList

def isHexDigit (c : Char) : Bool :=
  c.isDigit || ('a' ≤ c && c ≤ 'f') || ('A' ≤ c && c ≤ 'F')

/-- The number that digits of base sixteen denote. -/
def hexValue (digits : List Char) : Nat :=
  Text.digitsValue 16 (digits.filterMap Text.latinDigit?)

namespace Scan

/-- Takes a name that is not empty. -/
def name (context : Context) (start : Mark) : Scan String := do
  let name ← takeWhile isNameChar
  if name.isEmpty then unexpected context start .name
  return String.ofList name

/-- The characters that may follow the name of an anchor or an alias. -/
def endsAnchor (c : Char) : Bool :=
  isGap c || c ∈ "?:,]\x7d%@\x60".toList

/-- Takes an indicator and the name of an anchor or an alias behind it. -/
def anchorName (context : Context) : Scan String := do
  let start ← here
  skip 1
  let name ← name context start
  expect endsAnchor context start .name
  return name

/-- Takes a tag handle: one exclamation mark, or two around a name. -/
def tagHandle (context : Context) (start : Mark) : Scan String := do
  expect (· == '!') context start .exclamation
  if (← peekAt 1) == ' ' then return String.ofList (← take 1)
  let name := (← get).rest.tail.takeWhile isNameChar
  if (← peekAt (name.length + 1)) != '!' then
    skip (name.length + 1)
    unexpected context start .exclamation
  return String.ofList (← take (name.length + 2))

/-- Takes a run of escaped bytes, which must be a text in UTF-8. -/
def uriEscapes (context : Context) (start : Mark) : Scan (List Char) := do
  let first ← here
  let bytes ← loop [] fun bytes => do
    if (← peek) != '%' then return .done bytes
    skip 1
    for ahead in [← peekAt 0, ← peekAt 1] do
      unless isHexDigit ahead do fail context start (.unexpected .uriEscape ahead)
    return .yield (UInt8.ofNat (hexValue (← take 2)) :: bytes)
  match Text.Utf8.decode bytes.reverse with
  | .ok text => return text.flatMap fun c => Text.ofCodePoint c.toNat
  | .error fault =>
    throw (.report ⟨some context, some start, .undecodable fault, first⟩)

/-- Takes an address. The two contexts are for a bad escape and for an address that is missing. -/
def uri (context missing : Context) (start : Mark) : Scan String := do
  let text ← loop [] fun text => do
    match ← takeWhile fun c => isUriChar c && c != '%' with
    | [] =>
      if (← peek) != '%' then return .done text
      return .yield (text ++ (← uriEscapes context start))
    | run => return .yield (text ++ run)
  if text.isEmpty then unexpected missing start .uri
  return String.ofList text

end Scan

end PhpArray.Yaml
