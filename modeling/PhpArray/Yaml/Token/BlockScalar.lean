import PhpArray.Yaml.Token.QuotedScalar

/-!
Block scalars: literal ones keep their line breaks, folded ones join lines that start with text. The
header says how many final line ends are kept and, if the first line cannot show it, how far the
text is indented.
-/

namespace PhpArray.Yaml.Scan

/-- What becomes of the line ends behind the last line: none, the first or all of them are kept. -/
inductive Chomping where
  | strip
  | clip
  | keep
deriving DecidableEq, Repr

structure BlockHeader where
  chomping : Chomping
  /-- How much deeper than its surroundings the text is indented. -/
  deeper : Option Nat

def chomping? : Char → Option Chomping
  | '+' => some .keep
  | '-' => some .strip
  | _ => none

/-- Takes a digit from one to nine, if a digit is next. -/
def indentationDigit (start : Mark) : Scan (Option Nat) := do
  let c ← peek
  unless c.isDigit do return none
  if c == '0' then fail .blockScalar start .zeroIndentation
  skip 1
  return some (c.toNat - 48)

/-- Takes the two indicators, in either order and each of them optional. -/
def blockIndicators (start : Mark) : Scan BlockHeader := do
  match chomping? (← peek) with
  | some chomping =>
    skip 1
    return ⟨chomping, ← indentationDigit start⟩
  | none =>
    match ← indentationDigit start with
    | none => return ⟨.clip, none⟩
    | some deeper =>
      let chomping := chomping? (← peek)
      if chomping.isSome then skip 1
      return ⟨chomping.getD .clip, some deeper⟩

def blockHeader (start : Mark) : Scan BlockHeader := do
  let header ← blockIndicators start
  expect endsWord .blockScalar start .blockIndicator
  restOfLine .blockScalar start
  return header

/-- Takes spaces up to a column. -/
def skipIndentation (indent : Nat) : Scan Unit := do
  let column := (← here).column
  let spaces := ((← get).rest.takeWhile (· == ' ')).length
  skip (min spaces (indent - column))

/-- Takes empty lines and the indentation behind them, and keeps their line ends. -/
def emptyLines (indent : Nat) : Scan (List Char) := do
  skipIndentation indent
  loop [] fun breaks => do
    match ← lineBreak with
    | [] => return .done breaks
    | line =>
      skipIndentation indent
      return .yield (breaks ++ line)

/-- Takes the empty lines at the start; the result is their line ends and the widest
indentation. -/
def leadingLines : Scan (List Char × Nat) :=
  loop ([], 0) fun (breaks, widest) => do
    skipWhile (· == ' ')
    let widest := max widest (← here).column
    match ← lineBreak with
    | [] => return .done (breaks, widest)
    | line => return .yield (breaks ++ line, widest)

/-- The text so far, the end of its last line and the empty lines behind that. -/
structure BlockText where
  text : List Char
  line : List Char
  breaks : List Char

def isInset (c : Char) : Bool :=
  c == ' ' || c == '\t'

/-- What joins a line to the next one. Folding makes a single break between two lines of plain text
a space, and drops the first of several. -/
def blockJoint (folded : Bool) (line breaks : List Char) (above below : Char) : List Char :=
  if folded && line == ['\n'] && !isInset above && !isInset below then
    if breaks.isEmpty then [' '] else []
  else line

/-- Takes the lines that are indented to a column. -/
def blockLines (folded : Bool) (indent : Nat) (breaks : List Char) : Scan BlockText :=
  loop ⟨[], [], breaks⟩ fun block => do
    let first ← peek
    if (← here).column != indent || first == endOfText then return .done block
    let content ← takeWhile (!endsLine ·)
    let line ← lineBreak
    let breaks ← emptyLines indent
    let next ← peek
    let text := block.text ++ block.breaks ++ content
    if (← here).column == indent && next != endOfText then
      return .yield ⟨text ++ blockJoint folded line breaks first next, line, breaks⟩
    else return .done ⟨text, line, breaks⟩

def Chomping.tail (chomping : Chomping) (line breaks : List Char) : List Char :=
  match chomping with
  | .strip => []
  | .clip => line
  | .keep => line ++ breaks

/-- Takes a block scalar inside a block of the given indentation, which is -1 outside of any. -/
def blockScalar (folded : Bool) (parent : Int) : Scan String := do
  let start ← here
  skip 1
  let header ← blockHeader start
  let least := max (parent + 1).toNat 1
  let (indent, breaks) ←
    match header.deeper with
    | some deeper => do
      let indent := least + deeper - 1
      pure (indent, ← emptyLines indent)
    | none => do
      let (breaks, widest) ← leadingLines
      pure (max least widest, breaks)
  let block ← blockLines folded indent breaks
  return String.ofList (block.text ++ header.chomping.tail block.line block.breaks)

end PhpArray.Yaml.Scan
