import PhpArray.Number.Numeral
import PhpArray.Text.Quoted

/-!
The arguments of the command. Options may come before, between and behind other arguments. A long
option may be cut short as long as it is the only one of its beginning, and takes a value behind an
equals sign or from the next argument; short options may share one dash. Two dashes alone end the
options.
-/

namespace PhpArray.CommandLine

inductive Flag where
  | help
  | out
  | pretty
  | indent
  | verbose
deriving DecidableEq, Repr

/-- All spellings of the options, in the order in which messages list them. -/
def spellings : List (String × Flag) :=
  [("-h", .help), ("--help", .help), ("-o", .out), ("--out", .out), ("--pretty", .pretty),
    ("--indent", .indent), ("-v", .verbose), ("--verbose", .verbose)]

def Flag.name (flag : Flag) : String :=
  "/".intercalate ((spellings.filter (·.2 == flag)).map (·.1))

def Flag.takesValue : Flag → Bool
  | .out | .indent => true
  | _ => false

inductive UsageFault where
  | ambiguous (word : String) (candidates : List String)
  | valueMissing (flag : Flag)
  | valueIgnored (flag : Flag) (value : String)
  | notWhole (flag : Flag) (value : String)
  | inputMissing
  | unrecognized (words : List String)
deriving DecidableEq, Repr

def UsageFault.message : UsageFault → String
  | .ambiguous word candidates =>
    "ambiguous option: " ++ word ++ " could match " ++ ", ".intercalate candidates
  | .valueMissing flag => "argument " ++ flag.name ++ ": expected one argument"
  | .valueIgnored flag value =>
    "argument " ++ flag.name ++ ": ignored explicit argument " ++ Text.quoted value
  | .notWhole flag value =>
    "argument " ++ flag.name ++ ": invalid int value: " ++ Text.quoted value
  | .inputMissing => "the following arguments are required: input"
  | .unrecognized words => "unrecognized arguments: " ++ " ".intercalate words

/-- Text that is glued to an option: behind an equals sign, or behind the letter of a short one. -/
structure Attached where
  text : List Char
  behindEquals : Bool
deriving DecidableEq, Repr

/-- An argument by its form. -/
inductive Word where
  | plain (text : String)
  | separator
  | option (flag : Flag) (short : Bool) (attached : Option Attached)
  | unknown (text : String)
deriving DecidableEq, Repr

def flagOf? (spelling : List Char) : Option Flag :=
  spellings.lookup (String.ofList spelling)

def isLong (word : List Char) : Bool :=
  word.take 2 == ['-', '-']

/-- The text before the first equals sign, and what is attached behind it. -/
def splitEquals (word : List Char) : List Char × Option Attached :=
  match word.span (· != '=') with
  | (before, '=' :: text) => (before, some ⟨text, true⟩)
  | (before, _) => (before, none)

/-- The options that a word may stand for: the long ones it begins, or the short one it begins
with. -/
def candidates (word : List Char) : List (String × Flag × Option Attached) :=
  if isLong word then
    let (beginning, attached) := splitEquals word
    (spellings.filter fun s => beginning.isPrefixOf s.1.toList).map fun s => (s.1, s.2, attached)
  else
    (spellings.filter fun s => s.1.toList == word.take 2).map fun s =>
      (s.1, s.2, some ⟨word.drop 2, false⟩)

/-- Whether a word is a minus and a number, which is no option. -/
def isNegativeNumber (word : List Char) : Bool :=
  let isDigit := fun c => (Text.decimalDigit? c).isSome
  let word := if word.getLast? == some '\n' then word.dropLast else word
  match word with
  | '-' :: rest =>
    match rest.dropWhile isDigit with
    | [] => !rest.isEmpty
    | '.' :: fraction => !fraction.isEmpty && fraction.all isDigit
    | _ => false
  | _ => false

def classify (arg : String) : Except UsageFault Word :=
  let word := arg.toList
  if word.head? != some '-' || word.length == 1 then .ok (.plain arg)
  else
    match flagOf? word, splitEquals word with
    | some flag, _ => .ok (.option flag (!isLong word) none)
    | none, (before, attached) =>
      match attached.bind fun _ => flagOf? before with
      | some flag => .ok (.option flag (!isLong word) attached)
      | none =>
        match candidates word with
        | [(_, flag, attached)] => .ok (.option flag (!isLong word) attached)
        | [] =>
          if isNegativeNumber word || word.contains ' ' then .ok (.plain arg)
          else .ok (.unknown arg)
        | several => .error (.ambiguous arg (several.map (·.1)))

/-- All arguments by their form; behind the separator none is an option. -/
def classifyAll : List String → Except UsageFault (List Word)
  | [] => .ok []
  | arg :: rest =>
    if arg = "--" then .ok (.separator :: rest.map .plain)
    else return (← classify arg) :: (← classifyAll rest)

/-- The uses of options that one argument makes. -/
structure Uses where
  complete : List (Flag × Option String)
  /-- The last option, when nothing is attached to it. -/
  last : Option Flag
  /-- A group of letters that are no options. -/
  unknown : Option String

/-- Takes apart what is attached to an option: its value, or more short options. -/
def spread (flag : Flag) (short behindEquals : Bool) (text : List Char) :
    Except UsageFault Uses :=
  if flag.takesValue then .ok ⟨[(flag, some (String.ofList text))], none, none⟩
  else
    match text with
    | [] => .error (.valueIgnored flag "")
    | c :: rest =>
      if !short || behindEquals || c == '-' then
        .error (.valueIgnored flag (String.ofList text))
      else
        match flagOf? ['-', c] with
        | none => .ok ⟨[(flag, none)], none, some (String.ofList ('-' :: text))⟩
        | some next =>
          let uses : Except UsageFault Uses :=
            match rest with
            | [] => .ok ⟨[], some next, none⟩
            | '=' :: value => spread next true true value
            | letters => spread next true false letters
          uses.map fun uses => { uses with complete := (flag, none) :: uses.complete }

/-- What the command is asked to do. -/
structure Request where
  input : String
  out : Option String
  pretty : Bool
  indent : Int
  verbose : Bool
deriving DecidableEq, Repr

/-- Why there is nothing to do. -/
inductive Stop where
  | help
  | usage (fault : UsageFault)
deriving DecidableEq, Repr

/-- The request as far as the arguments are read. -/
structure Reading where
  input : Option String
  out : Option String
  pretty : Bool
  indent : Int
  verbose : Bool
  /-- The arguments that mean nothing. -/
  extra : List String

def Reading.start : Reading :=
  ⟨none, none, false, 4, false, []⟩

def Reading.apply (r : Reading) : Flag × Option String → Except Stop Reading
  | (.help, _) => .error .help
  | (.out, value) => .ok { r with out := value }
  | (.pretty, _) => .ok { r with pretty := true }
  | (.indent, value) =>
    let text := value.getD ""
    match Numeral.read? 10 text.toList with
    | some indent => .ok { r with indent }
    | none => .error (.usage (.notWhole .indent text))
  | (.verbose, _) => .ok { r with verbose := true }

/-- Reads an option, with the next argument as its value if it takes one and none is attached. The
flag tells that it took the argument. -/
def Reading.option (r : Reading) (flag : Flag) (short : Bool) (attached : Option Attached)
    (rest : List Word) : Except Stop (Reading × Bool) := do
  let uses ←
    match attached with
    | none => pure ⟨[], some flag, none⟩
    | some a => (spread flag short a.behindEquals a.text).mapError .usage
  let (last, took) ←
    match uses.last, rest with
    | none, _ => pure ([], false)
    | some flag, rest =>
      if !flag.takesValue then pure ([(flag, none)], false)
      else
        match rest with
        | .plain value :: _ => pure ([(flag, some value)], true)
        | _ => throw (.usage (.valueMissing flag))
  let r ← (uses.complete ++ last).foldlM Reading.apply r
  return ({ r with extra := r.extra ++ uses.unknown.toList }, took)

/-- Reads the arguments in order. The first plain one is the input, and a separator next to it means
nothing more. -/
def Reading.words (r : Reading) : List Word → Except Stop Reading
  | [] => .ok r
  | .plain text :: rest =>
    if r.input.isSome then Reading.words { r with extra := r.extra ++ [text] } rest
    else
      match rest with
      | .separator :: rest => Reading.words { r with input := some text } rest
      | rest => Reading.words { r with input := some text } rest
  | .separator :: rest =>
    match r.input, rest with
    | none, .plain text :: rest => Reading.words { r with input := some text } rest
    | _, rest => Reading.words { r with extra := r.extra ++ ["--"] } rest
  | .unknown text :: rest => Reading.words { r with extra := r.extra ++ [text] } rest
  | .option flag short attached :: rest => do
    match ← r.option flag short attached rest, rest with
    | (r, true), _ :: rest => Reading.words r rest
    | (r, _), rest => Reading.words r rest

def readArguments (args : List String) : Except Stop Request := do
  let words ← (classifyAll args).mapError .usage
  let r ← Reading.start.words words
  match r.input with
  | none => throw (.usage .inputMissing)
  | some input =>
    unless r.extra.isEmpty do throw (.usage (.unrecognized r.extra))
    return ⟨input, r.out, r.pretty, r.indent, r.verbose⟩

end PhpArray.CommandLine
