import PhpArray.Render

/-!
From YAML to a PHP file that returns the document.
-/

namespace PhpArray

/-- The layout of a literal. -/
structure Layout where
  pretty : Bool
  indent : Int
deriving DecidableEq, Repr

/-- A PHP file that returns the value of a literal. -/
def program (literal : String) : String :=
  "<?php\nreturn " ++ literal ++ ";"

/-- The program of a document; an empty document is an empty array. -/
def convertDocument (source : Source) (layout : Layout) (includeDir : String) (chain : List String)
    (document : Option Yaml.Document) : Run String := do
  let renderer ← Run.ofExcept
    (Renderer.checked ⟨includeDir, layout.pretty, layout.indent, 0, chain, source⟩)
  match document with
  | none => return program "array()"
  | some document => return program (← renderer.render document.graph document.root)

/-- Converts a text. Its includes are read from a directory, which is the working directory unless
another is given. -/
def convertText (files : FileTree) (layout : Layout) (includeDir : Option String)
    (text : List Char) : Run String := do
  let document ← Run.ofExcept (parse none text)
  convertDocument files.source layout (includeDir.getD files.homePath) [] document

/-- The directory that the includes of a file are read from. -/
def includeDirOf (files : FileTree) (path : String) : String :=
  Path.parent (Path.absolute files.homePath path)

/-- Converts a file, which is itself the first of the documents that no include may lead back to. -/
def convertFile (files : FileTree) (layout : Layout) (path : String) : Run String := do
  Run.note (.loading path)
  let document ← Run.ofExcept (files.load path)
  let target := Path.absolute files.homePath path
  convertDocument files.source layout (includeDirOf files path) [target] document

end PhpArray
