import PhpArray.Yaml.Token.Name

/-!
Quoted scalars. Between apostrophes only a doubled apostrophe is special; between double quotes a
backslash begins an escape. In both, a line break with the blanks around it is folded.
-/

namespace PhpArray.Yaml.Scan

/-- The characters that escapes of one letter stand for. -/
def namedEscapes : List (Char × Char) :=
  [('0', '\x00'), ('a', '\x07'), ('b', '\x08'), ('t', '\t'), ('\t', '\t'), ('n', '\n'),
   ('v', '\x0b'), ('f', '\x0c'), ('r', '\r'), ('e', '\x1b'), (' ', ' '), ('"', '"'), ('\\', '\\'),
   ('/', '/'), ('N', '\u0085'), ('_', '\u00a0'), ('L', '\u2028'), ('P', '\u2029')]

/-- The escapes that give a number, with the count of its digits. -/
def numberedEscapes : List (Char × Nat) :=
  [('x', 2), ('u', 4), ('U', 8)]

/-- Takes the digits of an escape; the number must be a code point, which may be a surrogate. -/
def escapedNumber (start : Mark) (count : Nat) : Scan (List Char) := do
  for c in (List.range count).map ((← get).rest.getD · endOfText) do
    unless isHexDigit c do fail .doubleQuotedScalar start (.unexpected (.hexDigits count) c)
  let n := hexValue ((← get).rest.take count)
  if Text.maxCodePoint < n then throw (.codePoint n)
  skip count
  return Text.ofCodePoint n

/-- Takes lines that hold nothing but blanks, and keeps their line ends. -/
def blankLines (start : Mark) : Scan (List Char) :=
  loop [] fun breaks => do
    if ← atSeparator then fail .quotedScalar start .documentSeparator
    skipWhile fun c => c == ' ' || c == '\t'
    match ← lineBreak with
    | [] => return .done breaks
    | line => return .yield (breaks ++ line)

/-- A line end and the blank lines behind it, folded: a single line feed is a space. -/
def foldBreaks (line breaks : List Char) : List Char :=
  if line != ['\n'] then line ++ breaks
  else if breaks.isEmpty then [' ']
  else breaks

/-- Takes what stands behind a backslash. -/
def escape (start : Mark) : Scan (List Char) := do
  let c ← peek
  match namedEscapes.lookup c, numberedEscapes.lookup c with
  | some named, _ =>
    skip 1
    return [named]
  | none, some count =>
    skip 1
    escapedNumber start count
  | none, none =>
    unless isBreak c do fail .doubleQuotedScalar start (.unknownEscape c)
    let _ ← lineBreak
    blankLines start

/-- The characters that interrupt the text of a quoted scalar. -/
def interruptsQuoted (c : Char) : Bool :=
  isGap c || c == '\'' || c == '"' || c == '\\'

/-- Takes text up to the next blank, line end or closing quote. -/
def quotedText (double : Bool) (start : Mark) : Scan (List Char) :=
  loop [] fun text => do
    let text := text ++ (← takeWhile (!interruptsQuoted ·))
    let c ← peek
    if !double && c == '\'' && (← peekAt 1) == '\'' then
      skip 2
      return .yield (text ++ ['\''])
    else if (double && c == '\'') || (!double && (c == '"' || c == '\\')) then
      skip 1
      return .yield (text ++ [c])
    else if double && c == '\\' then
      skip 1
      return .yield (text ++ (← escape start))
    else return .done text

/-- Takes the blanks and line ends between two pieces of text. -/
def quotedBlanks (start : Mark) : Scan (List Char) := do
  let blanks ← takeWhile fun c => c == ' ' || c == '\t'
  if (← peek) == endOfText then fail .quotedScalar start .endOfStream
  match ← lineBreak with
  | [] => return blanks
  | line => return foldBreaks line (← blankLines start)

def quotedScalar (double : Bool) : Scan String := do
  let start ← here
  let quote ← peek
  skip 1
  let first ← quotedText double start
  let text ← loop first fun text => do
    if (← peek) == quote then return .done text
    let blanks ← quotedBlanks start
    return .yield (text ++ blanks ++ (← quotedText double start))
  skip 1
  return String.ofList text

end PhpArray.Yaml.Scan
