import PhpArray.Yaml.Lexer
import PhpArray.Yaml.Grammar

/-!
From a text to its document. Tokens are built into the graph as soon as they are sure, so that of
two faults the one that is met first is reported.
-/

namespace PhpArray.Yaml

/-- The characters that a text may hold. -/
def isAllowed (c : Char) : Bool :=
  let n := c.toNat
  n == 9 || n == 10 || n == 13 || (0x20 ≤ n && n ≤ 0x7E) || n == 0x85 ||
    (0xA0 ≤ n && n ≤ 0xD7FF) || (0xE000 ≤ n && n ≤ 0xFFFD) || 0x10000 ≤ n

/-- Looks for a character that is not allowed, counting from a position. -/
def checkCharacters : Nat → List Char → Except Fault Unit
  | _, [] => .ok ()
  | position, c :: rest =>
    if isAllowed c then checkCharacters (position + 1) rest else .error (.character c position)

/-- Reads tokens and builds until the lexer has finished. Every turn takes a character of the text,
and one more turn finds its end. -/
def buildAll : Nat → Lexer → List Expectation → Builder → Except Fault Builder
  | 0, _, _, builder => .ok builder
  | turns + 1, lexer, stack, builder => do
    let (tokens, lexer) ← Lexer.read.run lexer
    let (stack, builder) ← (Grammar.acceptAll tokens stack).run builder
    if lexer.finished then .ok builder else buildAll turns lexer stack builder

/-- The document of a text; a text of blanks and comments has none. -/
def Document.read (text : List Char) : Except Fault (Option Document) := do
  checkCharacters 0 text
  let builder ← buildAll (text.length + 1) (.ofText text) [.stream] .empty
  return builder.document?

end PhpArray.Yaml
