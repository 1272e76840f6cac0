/-!
Places in a text. A mark counts characters, lines and columns from zero, and a message shows the
line around it.
-/

namespace PhpArray.Yaml

/-- Stands for the character after the last one. It is not allowed inside a text. -/
def endOfText : Char := '\x00'

/-- The characters that end a line. -/
def isBreak (c : Char) : Bool :=
  c == '\n' || c == '\r' || c == '\u0085' || c == '\u2028' || c == '\u2029'

def endsLine (c : Char) : Bool :=
  c == endOfText || isBreak c

def endsWord (c : Char) : Bool :=
  c == ' ' || endsLine c

def isGap (c : Char) : Bool :=
  c == '\t' || endsWord c

structure Mark where
  index : Nat
  line : Nat
  column : Nat
deriving DecidableEq, Repr, Inhabited

/-- The mark behind a character, given the one that follows it. A carriage return before a line feed
does not end the line yet, and a byte order mark takes no column. -/
def Mark.pass (m : Mark) (c next : Char) : Mark :=
  if isBreak c && !(c == '\r' && next == '\n') then ⟨m.index + 1, m.line + 1, 0⟩
  else if c == '\uFEFF' then ⟨m.index + 1, m.line, m.column⟩
  else ⟨m.index + 1, m.line, m.column + 1⟩

/-- The most characters of a line that are shown on one side of a mark. -/
def excerptWidth : Nat := 36

/-- Cuts one side of the line when it is too long; the flag tells that it was cut. -/
def excerptSide (side : List Char) : List Char × Bool :=
  if side.length ≤ excerptWidth then (side, false) else (side.take (excerptWidth - 4), true)

/-- The line around a mark, with a caret below the marked place. -/
def Mark.excerpt (m : Mark) (text : List Char) : String :=
  let inLine := fun c => !endsLine c
  let (before, cutBefore) := excerptSide ((text.take m.index).reverse.takeWhile inLine)
  let (after, cutAfter) := excerptSide ((text.drop m.index).takeWhile inLine)
  let head := if cutBefore then " ... " else ""
  let tail := if cutAfter then " ... " else ""
  let caret := 4 + before.length + head.length
  "    " ++ head ++ String.ofList (before.reverse ++ after) ++ tail ++ "\n" ++
    String.ofList (List.replicate caret ' ') ++ "^"

/-- The place as a message names it, counting from one. -/
def Mark.describe (m : Mark) (text : List Char) : String :=
  "  in \"<unicode string>\", line " ++ toString (m.line + 1) ++ ", column " ++
    toString (m.column + 1) ++ ":\n" ++ m.excerpt text

end PhpArray.Yaml
