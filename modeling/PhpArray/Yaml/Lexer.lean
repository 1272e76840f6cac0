import PhpArray.Yaml.Token.Directive
import PhpArray.Yaml.Token.BlockScalar
import PhpArray.Yaml.Token.PlainScalar

/-!
From text to tokens. Blocks are opened and closed by indentation. A scalar, a property or a flow
collection may turn out to be a mapping key only when a colon follows it, so its token waits in a
queue as long as that can still happen.
-/

namespace PhpArray.Yaml

/-- A token that becomes a mapping key if a colon follows on its line. -/
structure KeyCandidate where
  /-- The number of tokens before it. -/
  number : Nat
  /-- Whether nothing else can stand there. -/
  required : Bool
  mark : Mark
deriving DecidableEq, Repr

structure Lexer where
  cursor : Cursor
  finished : Bool
  /-- How many flow collections are open. A stray closing bracket makes it negative. -/
  flowLevel : Int
  /-- The tokens not handed out yet. -/
  queue : List Token
  /-- The number of tokens handed out. -/
  taken : Nat
  /-- The column of the innermost block, -1 outside of any. -/
  indent : Int
  /-- The columns of the blocks around it. -/
  outer : List Int
  /-- Whether a mapping key may begin here. -/
  keyAllowed : Bool
  /-- The candidates, at most one for each flow level. -/
  candidates : List (Int × KeyCandidate)

namespace Lexer

def ofText (text : List Char) : Lexer :=
  ⟨.ofText text, false, 0, [], 0, -1, [], true, []⟩

/-- A candidate may stand on one line only, and a colon must follow within so many characters. -/
def maxKeyLength : Nat := 1024

def inFlow (l : Lexer) : Bool :=
  l.flowLevel != 0

def candidate? (l : Lexer) : Option KeyCandidate :=
  l.candidates.lookup l.flowLevel

/-- The tokens that are sure: all before the first candidate. -/
def release (l : Lexer) : List Token × Lexer :=
  let sure := l.candidates.foldl (fun n c => min n (c.2.number - l.taken)) l.queue.length
  (l.queue.take sure, { l with queue := l.queue.drop sure, taken := l.taken + sure })

end Lexer

abbrev Lex := StateT Lexer (Except Fault)

namespace Lex

/-- Reads characters at the lexer's cursor. -/
def scan {α : Type} (reading : Scan α) : Lex α := do
  let (a, cursor) ← reading.run (← get).cursor
  modify fun l => { l with cursor }
  return a

def here : Lex Mark :=
  return (← get).cursor.mark

/-- Stops with a problem here that has no context. -/
def fail {α : Type} (problem : Problem) : Lex α := do
  throw (.report ⟨none, none, problem, ← here⟩)

def push (kind : TokenKind) (start : Mark) : Lex Unit :=
  modify fun l => { l with queue := l.queue ++ [⟨kind, start⟩] }

def pushHere (kind : TokenKind) : Lex Unit := do
  push kind (← here)

/-- A candidate can be given up only if something else may stand in its place. -/
def giveUp (candidate : KeyCandidate) : Lex Unit := do
  if candidate.required then
    throw (.report ⟨some .simpleKey, some candidate.mark, .missingColon, ← here⟩)

def dropStaleCandidates : Lex Unit := do
  let mark ← here
  let stale := fun (entry : Int × KeyCandidate) =>
    entry.2.mark.line != mark.line || Lexer.maxKeyLength < mark.index - entry.2.mark.index
  for entry in (← get).candidates do
    if stale entry then giveUp entry.2
  modify fun l => { l with candidates := l.candidates.filter (!stale ·) }

/-- Gives up the candidate of the current flow level. -/
def dropCandidate : Lex Unit := do
  if let some candidate := (← get).candidate? then giveUp candidate
  modify fun l => { l with candidates := l.candidates.filter (·.1 != l.flowLevel) }

/-- Makes the next token a candidate where a key may begin. -/
def saveCandidate : Lex Unit := do
  let l ← get
  if l.keyAllowed then
    dropCandidate
    let mark := l.cursor.mark
    let required := !l.inFlow && l.indent == mark.column
    let candidate : KeyCandidate := ⟨l.taken + l.queue.length, required, mark⟩
    modify fun l => { l with candidates := (l.flowLevel, candidate) :: l.candidates }

def allowKey (allowed : Bool) : Lex Unit :=
  modify fun l => { l with keyAllowed := allowed }

/-- The blocks that a column ends, as the columns around them. -/
def closedBlocks (column : Int) : Int → List Int → Nat × Int × List Int
  | indent, [] => (0, indent, [])
  | indent, next :: outer =>
    if column < indent then
      let (closed, rest) := closedBlocks column next outer
      (closed + 1, rest)
    else (0, indent, next :: outer)

/-- Ends the blocks that are indented deeper than a column. Flow collections know no indentation. -/
def unwind (column : Int) : Lex Unit := do
  let l ← get
  unless l.inFlow do
    let (closed, indent, outer) := closedBlocks column l.indent l.outer
    let ends := List.replicate closed ⟨.blockEnd, l.cursor.mark⟩
    set { l with queue := l.queue ++ ends, indent, outer }

/-- Opens a block at a column unless one is open there; says whether it did. -/
def openBlock (column : Nat) : Lex Bool := do
  let l ← get
  if l.indent < column then
    set { l with indent := column, outer := l.indent :: l.outer }
    return true
  return false

/-- Opens a block here, outside of flow collections and only where a key may begin. -/
def openBlockHere (kind : TokenKind) (refused : Problem) : Lex Unit := do
  unless (← get).inFlow do
    unless (← get).keyAllowed do fail refused
    let mark ← here
    if ← openBlock mark.column then push kind mark

/-- Skips blanks, comments and line ends up to the next token. Outside of flow collections a key may
begin on a new line. -/
def skipToToken : Lex Unit := do
  let inFlow := (← get).inFlow
  let brokeLine ← scan do
    if (← Scan.here).index == 0 && (← Scan.peek) == '\uFEFF' then Scan.skip 1
    Scan.loop false fun broke => do
      Scan.skipWhile (· == ' ')
      if (← Scan.peek) == '#' then Scan.skipWhile (!endsLine ·)
      match ← Scan.lineBreak with
      | [] => return .done broke
      | _ => return .yield true
  if brokeLine && !inFlow then allowKey true

/-- Adds a token for an indicator of some characters and takes it. -/
def indicator (kind : TokenKind) (length : Nat) : Lex Unit := do
  pushHere kind
  scan (.skip length)

/-- Ends all blocks, as a directive and the marks around documents do. -/
def leaveBlocks : Lex Unit := do
  unwind (-1)
  dropCandidate
  allowKey false

def endStream : Lex Unit := do
  leaveBlocks
  pushHere .streamEnd
  modify fun l => { l with candidates := [], finished := true }

def directive : Lex Unit := do
  leaveBlocks
  let start ← here
  push (.directive (← scan .directive)) start

def documentMark (kind : TokenKind) : Lex Unit := do
  leaveBlocks
  indicator kind 3

def openFlow (kind : TokenKind) : Lex Unit := do
  saveCandidate
  modify fun l => { l with flowLevel := l.flowLevel + 1, keyAllowed := true }
  indicator kind 1

def closeFlow (kind : TokenKind) : Lex Unit := do
  dropCandidate
  modify fun l => { l with flowLevel := l.flowLevel - 1, keyAllowed := false }
  indicator kind 1

def flowEntry : Lex Unit := do
  allowKey true
  dropCandidate
  indicator .flowEntry 1

def blockEntry : Lex Unit := do
  openBlockHere .blockSequenceStart .entryNotAllowed
  allowKey true
  dropCandidate
  indicator .blockEntry 1

def key : Lex Unit := do
  openBlockHere .blockMappingStart .keyNotAllowed
  allowKey !(← get).inFlow
  dropCandidate
  indicator .key 1

/-- A colon makes the candidate a key, which may begin a block there. Without a candidate it is the
value of a key that was marked as one, or of an empty key. -/
def value : Lex Unit := do
  let l ← get
  match l.candidate? with
  | some candidate =>
    modify fun l => { l with candidates := l.candidates.filter (·.1 != l.flowLevel) }
    let opened ← if l.inFlow then pure false else openBlock candidate.mark.column
    let start := if opened then [⟨.blockMappingStart, candidate.mark⟩] else []
    let before := candidate.number - l.taken
    let queue := l.queue.take before ++ start ++ ⟨.key, candidate.mark⟩ :: l.queue.drop before
    modify fun l => { l with queue, keyAllowed := false }
  | none =>
    openBlockHere .blockMappingStart .valueNotAllowed
    allowKey !l.inFlow
    dropCandidate
  indicator .value 1

/-- Adds the token of a reading that may be a key. -/
def possibleKey (reading : Scan TokenKind) : Lex Unit := do
  saveCandidate
  allowKey false
  let start ← here
  push (← scan reading) start

def blockScalar (folded : Bool) : Lex Unit := do
  allowKey true
  dropCandidate
  let start ← here
  let parent := (← get).indent
  push (.scalar (← scan (.blockScalar folded parent)) false) start

def plainScalar : Lex Unit := do
  saveCandidate
  let start ← here
  let l ← get
  let (text, atLineStart) ← scan (.plainScalar l.inFlow l.indent)
  allowKey atLineStart
  push (.scalar text true) start

/-- The characters that do not begin a plain scalar, save some of them before text. -/
def isReserved (c : Char) : Bool :=
  isGap c || c ∈ "-?:,[]\x7b\x7d#&*!|>'\"%@\x60".toList

def startsPlain (inFlow : Bool) (c next : Char) : Bool :=
  !isReserved c || (!isGap next && (c == '-' || (!inFlow && (c == '?' || c == ':'))))

/-- Reads the next token and puts it into the queue, behind the ends of the blocks before it. -/
def fetch : Lex Unit := do
  skipToToken
  dropStaleCandidates
  unwind (← here).column
  let atLineStart := (← here).column == 0
  let inFlow := (← get).inFlow
  let c ← scan .peek
  let next ← scan (.peekAt 1)
  let separator ← scan .atSeparator
  if c == endOfText then endStream
  else if c == '%' && atLineStart then directive
  else if c == '-' && atLineStart && separator then documentMark .documentStart
  else if c == '.' && atLineStart && separator then documentMark .documentEnd
  else if c == '[' then openFlow .flowSequenceStart
  else if c == '{' then openFlow .flowMappingStart
  else if c == ']' then closeFlow .flowSequenceEnd
  else if c == '}' then closeFlow .flowMappingEnd
  else if c == ',' then flowEntry
  else if c == '-' && isGap next then blockEntry
  else if c == '?' && (inFlow || isGap next) then key
  else if c == ':' && (inFlow || isGap next) then value
  else if c == '*' then possibleKey (return .alias (← Scan.anchorName .alias))
  else if c == '&' then possibleKey (return .anchor (← Scan.anchorName .anchor))
  else if c == '!' then possibleKey (return .tag (← Scan.tag))
  else if c == '|' && !inFlow then blockScalar false
  else if c == '>' && !inFlow then blockScalar true
  else if c == '\'' then possibleKey (return .scalar (← Scan.quotedScalar false) false)
  else if c == '"' then possibleKey (return .scalar (← Scan.quotedScalar true) false)
  else if startsPlain inFlow c next then plainScalar
  else throw (.report ⟨some .nextToken, none, .cannotStart c, ← here⟩)

end Lex

/-- Reads on until the next token is in the queue, and hands out the tokens that are sure. -/
def Lexer.read : Lex (List Token) := do
  Lex.fetch
  unless (← get).finished do Lex.dropStaleCandidates
  modifyGet Lexer.release

end PhpArray.Yaml
