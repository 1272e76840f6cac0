import PhpArray.Yaml.Fault
import PhpArray.Yaml.ImplicitTag

/-!
Building the graph of a document. Nodes arrive in the order of the text. A collection gets its
number when it begins, so that an alias inside it can refer to it, and its children when it ends.
-/

namespace PhpArray.Yaml

/-- What stands in front of a node, and where the node begins. -/
structure Properties where
  anchor : Option String
  /-- The full tag; a lone exclamation mark asks for the tag that the content looks like. -/
  tag : Option String
  start : Mark
deriving DecidableEq, Repr

/-- A collection that has begun. -/
structure OpenCollection where
  id : NodeId
  isMapping : Bool
  tag : String
  /-- The children, last one first; in a mapping keys and values take turns. -/
  children : List NodeId

structure Builder where
  graph : Graph
  anchors : List (String × NodeId × Mark)
  /-- The collections around the next node, innermost first. -/
  around : List OpenCollection
  root : Option (NodeId × Mark)
  /-- What the tag handles of the document stand for. -/
  handles : List (String × String)

def Builder.empty : Builder :=
  ⟨.empty, [], [], none, []⟩

/-- Joins the members of a list in twos. -/
def pairUp {α : Type} : List α → List (α × α)
  | a :: b :: rest => (a, b) :: pairUp rest
  | _ => []

def OpenCollection.node (c : OpenCollection) : Node :=
  if c.isMapping then .mapping c.tag (pairUp c.children.reverse)
  else .sequence c.tag c.children.reverse

/-- The document, once its root is there. -/
def Builder.document? (b : Builder) : Option Document :=
  b.root.map fun root => ⟨b.graph, root.1⟩

abbrev Build := StateT Builder (Except Fault)

namespace Build

/-- The handles of every document that does not define them itself. -/
def commonHandles : List (String × String) :=
  [("!", "!"), ("!!", coreTag "")]

/-- Begins a document with the handles it defines. There may be only one. -/
def beginDocument (handles : List (String × String)) (start : Mark) : Build Unit := do
  if let some (_, mark) := (← get).root then
    throw (.report ⟨some .singleDocument, some mark, .anotherDocument, start⟩)
  modify fun b => { b with handles := handles ++ commonHandles }

/-- Makes a node the next child of the innermost collection, or the root. -/
def attach (id : NodeId) (start : Mark) : Build Unit :=
  modify fun b =>
    match b.around with
    | [] => { b with root := some (id, start) }
    | c :: around => { b with around := { c with children := id :: c.children } :: around }

/-- Adds a node with its properties. An anchor may be used for one node only. -/
def add (properties : Properties) (node : Node) : Build NodeId := do
  if let some anchor := properties.anchor then
    if let some (_, first) := (← get).anchors.lookup anchor then
      throw (.report ⟨some (.firstAnchor anchor), some first, .secondAnchor, properties.start⟩)
  let (id, graph) := (← get).graph.add node
  modify fun b => { b with graph }
  if let some anchor := properties.anchor then
    modify fun b => { b with anchors := (anchor, id, properties.start) :: b.anchors }
  attach id properties.start
  return id

/-- The tag of a scalar. Without one, only a plain scalar is more than a string. -/
def scalarTag (tag : Option String) (value : String) (plain : Bool) : String :=
  match tag with
  | none => if plain then ImplicitTag.ofText value else coreTag "str"
  | some "!" => ImplicitTag.ofText value
  | some tag => tag

def collectionTag (tag : Option String) (isMapping : Bool) : String :=
  match tag with
  | none | some "!" => coreTag (if isMapping then "map" else "seq")
  | some tag => tag

def scalar (properties : Properties) (value : String) (plain : Bool) : Build Unit := do
  let _ ← add properties (.scalar ⟨scalarTag properties.tag value plain, value⟩)

/-- A node of which nothing is written. -/
def missing (start : Mark) : Build Unit :=
  scalar ⟨none, none, start⟩ "" true

/-- Puts a node in another place of the document. -/
def attachAlias (name : String) (start : Mark) : Build Unit := do
  match (← get).anchors.lookup name with
  | some (id, _) => attach id start
  | none => throw (.report ⟨none, none, .undefinedAlias name, start⟩)

def beginCollection (properties : Properties) (isMapping : Bool) : Build Unit := do
  let tag := collectionTag properties.tag isMapping
  let id ← add properties (OpenCollection.node ⟨0, isMapping, tag, []⟩)
  modify fun b => { b with around := ⟨id, isMapping, tag, []⟩ :: b.around }

def endCollection : Build Unit :=
  modify fun b =>
    match b.around with
    | [] => b
    | c :: around => { b with graph := b.graph.replace c.id c.node, around }

end Build

end PhpArray.Yaml
