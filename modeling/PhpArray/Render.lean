import PhpArray.Files.Path
import PhpArray.Run
import PhpArray.Source

/-!
Documents as PHP array literals. A sequence becomes an array of its items, a mapping an array of its
pairs without those of merge keys, and a scalar tagged as an include becomes the literal of the
document it names. In pretty layout every item, every pair and every closing parenthesis has a line
of its own, indented by its depth.
-/

namespace PhpArray

open Yaml

/-- The tag of scalars that name a document to put in their place. -/
def includeTag : String := "!include"

/-- The key of pairs that are left out. -/
def mergeKey : String := "<<"

/-- How and where a document is rendered. -/
structure Renderer where
  /-- The directory that the paths of includes are read from, at every level of includes. -/
  includeDir : String
  pretty : Bool
  /-- The spaces of one level. -/
  indent : Int
  /-- The depth of the root. -/
  depth : Int
  /-- The documents around this one, as normal absolute paths, outermost first. -/
  chain : List String
  source : Source

def Yaml.Node.shape : Node → Shape
  | .scalar _ => .scalar
  | .sequence .. => .sequence
  | .mapping .. => .mapping
  | .bare _ => .bare
  | .foreign => .foreign

def Yaml.Node.isMergeKey : Node → Bool
  | .scalar s => s.value == mergeKey
  | _ => false

/-- The pairs of a mapping without those of merge keys. -/
def Yaml.Graph.kept (g : Graph) (pairs : List (NodeId × NodeId)) : List (NodeId × NodeId) :=
  pairs.filter fun (key, _) => !(g.node key).isMergeKey

/-- A literal, or null with a note where the text of a scalar is none of its kind. -/
def renderScalar (s : Scalar) : Run String :=
  let kind := Literal.kindOf s.tag
  match Literal.ofText kind s.value with
  | .ok literal => pure literal
  | .error .malformed => do
    Run.note (.unparsed s.value kind)
    return "null"
  | .error .outOfRange => Run.fail .floatRange

namespace Renderer

/-- A renderer for a document that is not included by another. A negative indent is refused. -/
def checked (r : Renderer) : Except Failure Renderer :=
  if r.indent < 0 then .error (.negativeIndent r.indent) else .ok r

/-- Puts a text on a line of its own in pretty layout. Less than no spaces are none. -/
def line (r : Renderer) (depth : Int) (text : String) : String :=
  if r.pretty then
    "\n" ++ String.ofList (List.replicate (depth * r.indent).toNat ' ') ++ text
  else text

@[simp] theorem line_of_dense (r : Renderer) (depth : Int) (text : String)
    (h : r.pretty = false) : r.line depth text = text := by
  simp [line, h]

/-- The literal of parts that are laid out already. -/
def array (r : Renderer) (depth : Int) (parts : List String) : String :=
  "array(" ++ ", ".intercalate parts ++ r.line depth ")"

/-- The literal of a key. Keys are scalars and name no documents. -/
def renderKey (key : Node) : Run String :=
  match key with
  | .scalar s => if s.tag = includeTag then Run.fail (.unsupported .scalar .includeKey)
    else renderScalar s
  | key => Run.fail (.unsupported key.shape .collectionKey)

/-- A pair: the key first, then the value. -/
def pair (r : Renderer) (depth : Int) (key : Node) (value : Unit → Run String) : Run String := do
  let key ← renderKey key
  let value ← value ()
  return r.line depth (key ++ " => " ++ value)

/-- An include: the document is read with its path added to the chain, where it must not be yet. An
empty document gives what is given for it. -/
def included {α : Type} (r : Renderer) (chain : List String) (depth : Int) (name : String)
    (empty : α) (root : List String → Document → Run α) : Run α :=
  let path := Path.join r.includeDir name
  let target := Path.absolute r.source.home path
  if target ∈ chain then Run.fail (.includeCycle (chain ++ [target]))
  else do
    Run.note (.including path depth)
    Run.note (.loading path)
    match ← Run.ofExcept (r.source.load path) with
    | none => return empty
    | some document =>
      let _ ← Run.ofExcept r.checked
      root (chain ++ [target]) document

/-- A collection is read inside of itself and of those around it, of which it must not be one. -/
def enter {α : Type} (shape : Shape) (tag : String) (id : NodeId) (active : List NodeId)
    (inside : List NodeId → Run α) : Run α :=
  if tag = includeTag then Run.fail (.unsupported shape .includeWithoutPath)
  else if id ∈ active then Run.fail (.unsupported shape .recursiveAlias)
  else inside (id :: active)

/-- Renders a node of a graph inside some of its collections. The budget is spent by one for each
collection and each include around a node. -/
def node (r : Renderer) : Nat → List String → Graph → List NodeId → Int → NodeId → Run String
  | 0, _, _, _, _, _ => Run.fail .nesting
  | budget + 1, chain, g, active, depth, id =>
    match g.node id with
    | .scalar s =>
      if s.tag = includeTag then
        r.included chain depth s.value "null" fun chain document =>
          r.node budget chain document.graph [] depth document.root
      else renderScalar s
    | .sequence tag items =>
      enter .sequence tag id active fun active => do
        let items ← items.mapM fun item => do
          let text ← r.node budget chain g active (depth + 1) item
          return r.line (depth + 1) text
        return r.array depth items
    | .mapping tag pairs =>
      enter .mapping tag id active fun active => do
        let pairs ← (g.kept pairs).mapM fun (key, value) =>
          r.pair (depth + 1) (g.node key) fun () =>
            r.node budget chain g active (depth + 1) value
        return r.array depth pairs
    | .bare tag =>
      if tag = includeTag then Run.fail (.unsupported .bare .includeWithoutPath)
      else Run.fail (.unsupported .bare .shape)
    | .foreign => Run.fail (.unsupported .foreign .shape)

/-- The texts of which some may be paths of includes. -/
def texts (r : Renderer) (g : Graph) : List String :=
  g.texts ++ r.source.documents.flatMap fun d => d.graph.texts

/-- The most collections of a document. -/
def mostCollections (r : Renderer) (g : Graph) : Nat :=
  (r.source.documents.map fun d => d.graph.collections).foldl max g.collections

/-- A budget that no rendering spends. Every path is on a chain once, so there are no more on it
than there are texts; and on a way down into a document there are at most its collections and one
more node. -/
def budget (r : Renderer) (g : Graph) : Nat :=
  ((r.texts g).length + 1) * (r.mostCollections g + 1)

/-- The literal of a node of a graph, if a number of levels is enough for it. -/
def renderWithin (r : Renderer) (levels : Nat) (g : Graph) (id : NodeId) : Run String :=
  r.node levels r.chain g [] r.depth id

/-- The literal of a node of a graph. -/
def render (r : Renderer) (g : Graph) (id : NodeId) : Run String :=
  r.renderWithin (r.budget g) g id

/-- The literal of a document, if there is one. -/
def renderDocument (r : Renderer) : Option Document → Run String
  | none => Run.fail (.unsupported .absent .shape)
  | some document => r.render document.graph document.root

/-- The literal of a pair of nodes, at a depth. -/
def renderPair (r : Renderer) (g : Graph) (depth : Int) (key value : NodeId) : Run String :=
  r.pair depth (g.node key) fun () => r.node (r.budget g) r.chain g [] depth value

/-- The literal of the document that an include names, at a depth. -/
def renderInclude (r : Renderer) (depth : Int) (name : String) : Run String :=
  r.included r.chain depth name "null" fun chain document =>
    r.node (r.budget .empty) chain document.graph [] depth document.root

end Renderer

end PhpArray
