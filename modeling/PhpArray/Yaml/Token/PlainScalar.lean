import PhpArray.Yaml.Token.QuotedScalar

/-!
Plain scalars. They end before a comment, before a colon that separates a value, inside flow
collections before their indicators, and where the indentation of their block ends.
-/

namespace PhpArray.Yaml.Scan

def isFlowMark (c : Char) : Bool :=
  c ∈ ",[]\x7b\x7d".toList

/-- Whether a plain scalar ends before a character, given the next one. -/
def endsPlain (inFlow : Bool) (c next : Char) : Bool :=
  isGap c || (c == ':' && (isGap next || (inFlow && isFlowMark next))) ||
    (inFlow && (c == '?' || isFlowMark c))

/-- How many characters belong to one run of a plain scalar. -/
def plainRun (inFlow : Bool) : List Char → Nat
  | [] => 0
  | c :: rest =>
    if endsPlain inFlow c (rest.headD endOfText) then 0 else plainRun inFlow rest + 1

/-- Takes line ends and the spaces around them, up to a document separator; the flag tells that one
was met. -/
def plainBreaks : Scan (List Char × Bool) := do
  if ← atSeparator then return ([], true)
  loop ([], false) fun (breaks, _) => do
    skipWhile (· == ' ')
    match ← lineBreak with
    | [] => return .done (breaks, false)
    | line =>
      if ← atSeparator then return .done (breaks, true)
      return .yield (breaks ++ line, false)

/-- What lies between two runs of a plain scalar: the text it stands for, which is empty where the
scalar ends, and whether it crosses a line end. -/
def plainBlanks : Scan (List Char × Bool) := do
  let spaces ← takeWhile (· == ' ')
  match ← lineBreak with
  | [] => return (spaces, false)
  | line =>
    let (breaks, separated) ← plainBreaks
    return (if separated then [] else foldBreaks line breaks, true)

/-- A plain scalar as far as it is read. -/
structure PlainText where
  text : List Char
  blanks : List Char
  /-- Whether the last thing taken was a line end. -/
  atLineStart : Bool

/-- Takes a plain scalar inside a block of the given indentation; the flag tells whether a line end
was taken behind it. -/
def plainScalar (inFlow : Bool) (parent : Int) : Scan (String × Bool) := do
  let scalar ← loop (⟨[], [], false⟩ : PlainText) fun scalar => do
    let run := plainRun inFlow (← get).rest
    if (← peek) == '#' || run == 0 then return .done scalar
    let text := scalar.text ++ scalar.blanks ++ (← take run)
    let (blanks, atLineStart) ← plainBlanks
    let scalar := ⟨text, blanks, atLineStart⟩
    if blanks.isEmpty || (← peek) == '#' ||
        (!inFlow && ((← here).column : Int) < parent + 1) then
      return .done scalar
    return .yield scalar
  return (String.ofList scalar.text, scalar.atLineStart)

end PhpArray.Yaml.Scan
