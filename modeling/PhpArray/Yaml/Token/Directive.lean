import PhpArray.Number.Numeral
import PhpArray.Yaml.Token.Name

/-!
Directives and tags.
-/

namespace PhpArray.Yaml.Scan

/-- Takes the digits of one part of a version. -/
def versionNumber (start : Mark) : Scan Nat := do
  expect Char.isDigit .directive start .digit
  let digits ← takeWhile Char.isDigit
  if Numeral.maxDecimalDigits < digits.length then throw (.longNumber digits.length)
  return Text.digitsValue 10 (digits.filterMap Text.latinDigit?)

def versionDirective (start : Mark) : Scan Directive := do
  skipWhile (· == ' ')
  let major ← versionNumber start
  expect (· == '.') .directive start .digitOrPoint
  skip 1
  let minor ← versionNumber start
  expect endsWord .directive start .digitOrSpace
  return .version major minor

def tagDirective (start : Mark) : Scan Directive := do
  skipWhile (· == ' ')
  let handle ← tagHandle .directive start
  expect (· == ' ') .directive start .space
  skipWhile (· == ' ')
  let replacement ← uri .directive .directiveUri start
  expect endsWord .directive start .space
  return .tagHandle handle replacement

/-- Takes a directive and the rest of its line. -/
def directive : Scan Directive := do
  let start ← here
  skip 1
  let name ← name .directive start
  expect endsWord .directive start .name
  let directive ←
    if name == "YAML" then versionDirective start
    else if name == "TAG" then tagDirective start
    else do
      skipWhile (!endsLine ·)
      pure (.other name)
  restOfLine .directive start
  return directive

/-- Whether a second exclamation mark stands in the word of a tag, which closes a named handle. -/
def hasNamedHandle (word : List Char) : Bool :=
  (word.tail.takeWhile (!endsWord ·)).contains '!'

/-- Takes a tag: an address in angle brackets, a lone exclamation mark, or a handle and the rest of
an address. -/
def tag : Scan TagText := do
  let start ← here
  let next ← peekAt 1
  let text ←
    if next == '<' then do
      skip 2
      let suffix ← uri .tag .tagUri start
      expect (· == '>') .tagUri start .closingAngle
      skip 1
      pure ⟨none, suffix⟩
    else if isGap next then do
      skip 1
      pure ⟨none, "!"⟩
    else do
      let handle ←
        if hasNamedHandle (← get).rest then tagHandle .tag start
        else do
          skip 1
          pure "!"
      pure ⟨some handle, ← uri .tag .tagUri start⟩
  expect endsWord .tag start .space
  return text

end PhpArray.Yaml.Scan
