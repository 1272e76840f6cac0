import PhpArray.Text.Quoted
import PhpArray.Text.Utf8
import PhpArray.Yaml.Token

/-!
What can be wrong with a text. A fault names its cause and the places it concerns; the wording is
in `Fault.message` alone.
-/

namespace PhpArray.Yaml

/-- What was being read, or what an earlier place has to do with the fault. -/
inductive Context where
  | simpleKey
  | nextToken
  | directive
  | directiveUri
  | anchor
  | alias
  | tag
  | tagUri
  | blockScalar
  | quotedScalar
  | doubleQuotedScalar
  | node
  | blockNode
  | flowNode
  | blockCollection
  | blockMapping
  | flowSequence
  | flowMapping
  | firstAnchor (name : String)
  | singleDocument
deriving DecidableEq, Repr

/-- What a character was expected to be, or to begin. -/
inductive Wanted where
  | name
  | digit
  | digitOrPoint
  | digitOrSpace
  | space
  | exclamation
  | closingAngle
  | uri
  | uriEscape
  | hexDigits (count : Nat)
  | commentOrBreak
  | blockIndicator
deriving DecidableEq, Repr

/-- What a token was expected to be. -/
inductive WantedToken where
  | documentStart
  | content
  | blockEnd
  | commaOrBracket
  | commaOrBrace
deriving DecidableEq, Repr

inductive Problem where
  | missingColon
  | entryNotAllowed
  | keyNotAllowed
  | valueNotAllowed
  | cannotStart (c : Char)
  | unexpected (wanted : Wanted) (found : Char)
  | zeroIndentation
  | unknownEscape (c : Char)
  | endOfStream
  | documentSeparator
  | undecodable (fault : Text.Utf8.Fault)
  | unexpectedToken (wanted : WantedToken) (found : TokenKind)
  | duplicateVersion
  | incompatibleVersion
  | duplicateHandle (handle : String)
  | undefinedHandle (handle : String)
  | undefinedAlias (name : String)
  | secondAnchor
  | anotherDocument
deriving DecidableEq, Repr

/-- The stage of reading at which a text is refused. -/
inductive Stage where
  | characters
  | tokens
  | grammar
  | composition
deriving DecidableEq, Repr

structure Report where
  context : Option Context
  contextMark : Option Mark
  problem : Problem
  mark : Mark
deriving DecidableEq, Repr

inductive Fault where
  /-- A character that no text may hold. -/
  | character (c : Char) (position : Nat)
  | report (report : Report)
  /-- An escape for a number that is no code point. -/
  | codePoint (n : Nat)
  /-- A number with so many digits that it is not read. -/
  | longNumber (digits : Nat)
deriving DecidableEq, Repr

def Context.message : Context → String
  | .simpleKey => "while scanning a simple key"
  | .nextToken => "while scanning for the next token"
  | .directive => "while scanning a directive"
  | .directiveUri => "while parsing a directive"
  | .anchor => "while scanning an anchor"
  | .alias => "while scanning an alias"
  | .tag => "while scanning a tag"
  | .tagUri => "while parsing a tag"
  | .blockScalar => "while scanning a block scalar"
  | .quotedScalar => "while scanning a quoted scalar"
  | .doubleQuotedScalar => "while scanning a double-quoted scalar"
  | .node => "while parsing a node"
  | .blockNode => "while parsing a block node"
  | .flowNode => "while parsing a flow node"
  | .blockCollection => "while parsing a block collection"
  | .blockMapping => "while parsing a block mapping"
  | .flowSequence => "while parsing a flow sequence"
  | .flowMapping => "while parsing a flow mapping"
  | .firstAnchor name => "found duplicate anchor " ++ Text.quoted name ++ "; first occurrence"
  | .singleDocument => "expected a single document in the stream"

def Wanted.describe : Wanted → String
  | .name => "alphabetic or numeric character"
  | .digit => "a digit"
  | .digitOrPoint => "a digit or '.'"
  | .digitOrSpace => "a digit or ' '"
  | .space => "' '"
  | .exclamation => "'!'"
  | .closingAngle => "'>'"
  | .uri => "URI"
  | .uriEscape => "URI escape sequence of 2 hexadecimal numbers"
  | .hexDigits count => "escape sequence of " ++ toString count ++ " hexadecimal numbers"
  | .commentOrBreak => "a comment or a line break"
  | .blockIndicator => "chomping or indentation indicators"

/-- What was wanted, and the words that lead to what was found. -/
def WantedToken.describe : WantedToken → String
  | .documentStart => "expected '<document start>', but found "
  | .content => "expected the node content, but found "
  | .blockEnd => "expected <block end>, but found "
  | .commaOrBracket => "expected ',' or ']', but got "
  | .commaOrBrace => "expected ',' or '\x7d', but got "

def quotedCharacter (c : Char) : String :=
  Text.quoted (String.singleton c)

def Problem.message : Problem → String
  | .missingColon => "could not find expected ':'"
  | .entryNotAllowed => "sequence entries are not allowed here"
  | .keyNotAllowed => "mapping keys are not allowed here"
  | .valueNotAllowed => "mapping values are not allowed here"
  | .cannotStart c => "found character " ++ quotedCharacter c ++ " that cannot start any token"
  | .unexpected wanted found =>
    "expected " ++ wanted.describe ++ ", but found " ++ quotedCharacter found
  | .zeroIndentation => "expected indentation indicator in the range 1-9, but found 0"
  | .unknownEscape c => "found unknown escape character " ++ quotedCharacter c
  | .endOfStream => "found unexpected end of stream"
  | .documentSeparator => "found unexpected document separator"
  | .undecodable fault => fault.message
  | .unexpectedToken wanted found => wanted.describe ++ Text.quoted found.name
  | .duplicateVersion => "found duplicate YAML directive"
  | .incompatibleVersion => "found incompatible YAML document (version 1.* is required)"
  | .duplicateHandle handle => "duplicate tag handle " ++ Text.quoted handle
  | .undefinedHandle handle => "found undefined tag handle " ++ Text.quoted handle
  | .undefinedAlias name => "found undefined alias " ++ Text.quoted name
  | .secondAnchor => "second occurrence"
  | .anotherDocument => "but found another document"

def Problem.stage : Problem → Stage
  | .unexpectedToken .. | .duplicateVersion | .incompatibleVersion | .duplicateHandle _
  | .undefinedHandle _ => .grammar
  | .undefinedAlias _ | .secondAnchor | .anotherDocument => .composition
  | _ => .tokens

/-- The lines of a report on a text. The earlier place is left out where it is the same line and
column as the later one. -/
def Report.message (r : Report) (text : List Char) : String :=
  let earlier := r.contextMark.filter fun m =>
    m.line != r.mark.line || m.column != r.mark.column
  "\n".intercalate
    ((r.context.map Context.message).toList ++ (earlier.map (·.describe text)).toList ++
      [r.problem.message, r.mark.describe text])

/-- The place of a report in the stages of reading; a number out of range belongs to none. -/
def Fault.stage? : Fault → Option Stage
  | .character .. => some .characters
  | .report r => some r.problem.stage
  | .codePoint _ | .longNumber _ => none

/-- The last number of the escapes that are refused as code points rather than as numbers. -/
def maxEscapedNumber : Nat := 0x7FFFFFFF

def Fault.message (text : List Char) : Fault → String
  | .character c position =>
    "unacceptable character #x" ++ String.ofList (Text.hexDigits 4 c.toNat) ++
      ": special characters are not allowed\n  in \"<unicode string>\", position " ++
      toString position
  | .report r => r.message text
  | .codePoint n =>
    if n ≤ maxEscapedNumber then "chr() arg not in range(0x110000)"
    else "Python int too large to convert to C int"
  | .longNumber digits =>
    "Exceeds the limit (4300 digits) for integer string conversion: value has " ++
      toString digits ++ " digits; use sys.set_int_max_str_digits() to increase the limit"

end PhpArray.Yaml
