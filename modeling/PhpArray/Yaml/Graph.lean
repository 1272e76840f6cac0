/-!
Documents as graphs. An alias makes two places of a document share one node, and a collection may
contain itself, so nodes are numbered and refer to each other by number. A tree is what a reader of
the document sees: shared nodes once for each use, and a mark where a collection is met inside
itself.
-/

namespace PhpArray.Yaml

structure Scalar where
  tag : String
  value : String
deriving DecidableEq, Repr

abbrev NodeId := Nat

inductive Node where
  | scalar (scalar : Scalar)
  | sequence (tag : String) (items : List NodeId)
  | mapping (tag : String) (pairs : List (NodeId × NodeId))
  /-- A node of no kind. -/
  | bare (tag : String)
  /-- Something that is no node at all. -/
  | foreign
deriving DecidableEq, Repr

structure Graph where
  nodes : Array Node
deriving DecidableEq, Repr

namespace Graph

def empty : Graph := ⟨#[]⟩

def node (g : Graph) (id : NodeId) : Node :=
  g.nodes.getD id .foreign

/-- Adds a node; its number is the old count of nodes. -/
def add (g : Graph) (n : Node) : NodeId × Graph :=
  (g.nodes.size, ⟨g.nodes.push n⟩)

/-- Replaces a node, as is done when a collection that was begun is complete. -/
def replace (g : Graph) (id : NodeId) (n : Node) : Graph :=
  ⟨g.nodes.setIfInBounds id n⟩

end Graph

def Node.isCollection : Node → Bool
  | .sequence .. | .mapping .. => true
  | _ => false

/-- The number of collections in a graph. -/
def Graph.collections (g : Graph) : Nat :=
  g.nodes.countP Node.isCollection

/-- The texts of all scalars of a graph. -/
def Graph.texts (g : Graph) : List String :=
  g.nodes.toList.filterMap fun
    | .scalar s => some s.value
    | _ => none

/-- A node of a graph, from which its document is read. -/
structure Document where
  graph : Graph
  root : NodeId
deriving DecidableEq, Repr

inductive Tree where
  | scalar (scalar : Scalar)
  | sequence (tag : String) (items : List Tree)
  | mapping (tag : String) (pairs : List (Tree × Tree))
  /-- The collection that encloses this place at some distance, counted from one. -/
  | enclosing (distance : Nat)
  | bare (tag : String)
  | foreign

/-- The tree below a node, inside of the given collections, innermost first. Collections on a way
down are distinct, so one level more than there are collections is enough. -/
def Graph.unfold (g : Graph) : Nat → List NodeId → NodeId → Tree
  | 0, _, _ => .foreign
  | levels + 1, around, id =>
    match around.idxOf? id with
    | some i => .enclosing (i + 1)
    | none =>
      match g.node id with
      | .scalar s => .scalar s
      | .sequence tag items => .sequence tag (items.map (g.unfold levels (id :: around)))
      | .mapping tag pairs =>
        .mapping tag (pairs.map fun (key, value) =>
          (g.unfold levels (id :: around) key, g.unfold levels (id :: around) value))
      | .bare tag => .bare tag
      | .foreign => .foreign

def Document.tree (d : Document) : Tree :=
  d.graph.unfold (d.graph.collections + 1) [] d.root

end PhpArray.Yaml
