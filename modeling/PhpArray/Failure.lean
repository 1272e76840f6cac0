import PhpArray.Files.FileTree
import PhpArray.Yaml.Fault

/-!
Why a conversion fails. Most failures are the document's and are reported to the user; a few are
beyond what a document can be blamed for.
-/

namespace PhpArray

/-- Why a named text cannot be read. -/
inductive ReadFault where
  | refused (refusal : FileRefusal)
  | undecodable (fault : Text.Utf8.Fault)
  /-- The name is not in a collection of named texts. -/
  | notSupplied
deriving DecidableEq, Repr

def ReadFault.message (path : String) : ReadFault → String
  | .refused refusal => refusal.message path
  | .undecodable fault => fault.message
  | .notSupplied => "no such document"

/-- What a node is, as far as a message says it. -/
inductive Shape where
  | scalar
  | sequence
  | mapping
  | bare
  | foreign
  | absent
deriving DecidableEq, Repr

def Shape.name : Shape → String
  | .scalar => "ScalarNode"
  | .sequence => "SequenceNode"
  | .mapping => "MappingNode"
  | .bare => "Node"
  | .foreign => "object"
  | .absent => "NoneType"

/-- Why a node has no place in an array literal. -/
inductive Unsupported where
  | shape
  | includeWithoutPath
  | recursiveAlias
  | collectionKey
  | includeKey
deriving DecidableEq, Repr

def Unsupported.message : Unsupported → String
  | .shape => "unsupported node"
  | .includeWithoutPath => "!include expects a scalar file path"
  | .recursiveAlias => "recursive alias"
  | .collectionKey => "mapping keys must be scalars"
  | .includeKey => "!include is not allowed as a mapping key"

inductive Failure where
  | unreadable (path : String) (fault : ReadFault)
  /-- The text of a file, or of no file, is at fault. -/
  | rejected (path : Option String) (text : List Char) (fault : Yaml.Fault)
  | includeCycle (chain : List String)
  | unsupported (shape : Shape) (reason : Unsupported)
  | negativeIndent (indent : Int)
  /-- A path that no file can have. -/
  | badPath (fault : Path.Fault)
  /-- A text with surrogates that is to be written. -/
  | unencodable (fault : Text.Utf8.Unencodable)
  /-- A number in a text that is neither read nor refused. -/
  | numberRange (fault : Yaml.Fault)
  /-- A number in base sixty with so many parts that no double holds the highest power. -/
  | floatRange
  /-- The budget for nested collections and includes is spent. -/
  | nesting
deriving DecidableEq, Repr

/-- Whether a failure is the document's. -/
def Failure.isConversion : Failure → Bool
  | .unreadable .. | .rejected .. | .includeCycle _ | .unsupported .. => true
  | _ => false

def Failure.message : Failure → String
  | .unreadable path fault =>
    "Failed to load YAML file: " ++ path ++ " with error " ++ fault.message path
  | .rejected path text fault =>
    let source :=
      match path with
      | some path => "file: " ++ path
      | none => "string"
    "Failed to parse YAML " ++ source ++ " with error " ++ fault.message text
  | .includeCycle chain => "Include cycle detected: " ++ " -> ".intercalate chain
  | .unsupported shape reason => "Cannot render " ++ shape.name ++ ": " ++ reason.message
  | .negativeIndent indent => "indent must not be negative, got " ++ toString indent
  | .badPath fault => fault.message
  | .unencodable fault => fault.message
  | .numberRange fault => fault.message []
  | .floatRange => "int too large to convert to float"
  | .nesting => "nested too deeply"

end PhpArray
