import PhpArray.Failure
import PhpArray.Yaml.Document

/-!
Where documents come from: from the files of a tree or from named texts.
-/

namespace PhpArray

open Yaml

/-- The document of a text that comes from a path, or from none. -/
def parse (path : Option String) (text : List Char) : Except Failure (Option Document) :=
  match Document.read text with
  | .ok document => .ok document
  | .error fault =>
    match fault.stage? with
    | some _ => .error (.rejected path text fault)
    | none => .error (.numberRange fault)

/-- Finds the document of a path. A document may be empty, which is not a failure. -/
structure Source where
  /-- The directory from which relative paths are read. -/
  home : String
  load : String → Except Failure (Option Document)
  /-- All documents that may be loaded, which bounds how deep includes can nest. -/
  documents : List Document
  /-- Loading nests nothing: only a rendering can run out of levels. -/
  load_ne_nesting : ∀ path, load path ≠ .error .nesting

theorem parse_ne_nesting (path : Option String) (text : List Char) :
    parse path text ≠ .error .nesting := by
  unfold parse
  split
  · simp
  · split <;> simp

namespace FileTree

/-- The text of a file: UTF-8, and every line end a line feed. -/
def readText (t : FileTree) (path : String) : Except Failure (List Char) :=
  match Path.fault? path with
  | some fault => .error (.badPath fault)
  | none =>
    match t.read path with
    | .error refusal => .error (.unreadable path (.refused refusal))
    | .ok bytes =>
      match Text.Utf8.decode bytes with
      | .error fault => .error (.unreadable path (.undecodable fault))
      | .ok text => .ok (Text.unifyLineEnds text)

def load (t : FileTree) (path : String) : Except Failure (Option Document) := do
  parse (some path) (← t.readText path)

theorem load_ne_nesting (t : FileTree) (path : String) : t.load path ≠ .error .nesting := by
  have hread : t.readText path ≠ .error .nesting := by
    unfold readText
    split
    · simp
    · split
      · simp
      · split <;> simp
  unfold load
  cases htext : t.readText path with
  | error failure =>
      intro h
      have hfailure : failure = .nesting := by injection h
      exact hread (hfailure ▸ htext)
  | ok text => exact parse_ne_nesting (some path) text

/-- The document of a file, if it has one. -/
def documentOf? : FileEntry → Option Document
  | .directory => none
  | .file bytes =>
    match Text.Utf8.decode bytes with
    | .error _ => none
    | .ok text => (Document.read (Text.unifyLineEnds text)).toOption.join

def source (t : FileTree) : Source :=
  ⟨t.homePath, t.load, t.entries.filterMap fun entry => documentOf? entry.2, t.load_ne_nesting⟩

end FileTree

/-- Texts by name; a name without a text has an empty document. -/
abbrev NamedTexts := List (String × Option (List Char))

namespace NamedTexts

def load (texts : NamedTexts) (path : String) : Except Failure (Option Document) :=
  match texts.lookup path with
  | none => .error (.unreadable path .notSupplied)
  | some none => .ok none
  | some (some text) => parse (some path) text

theorem load_ne_nesting (texts : NamedTexts) (path : String) :
    load texts path ≠ .error .nesting := by
  unfold load
  split
  · simp
  · simp
  · exact parse_ne_nesting _ _

def source (texts : NamedTexts) (home : String) : Source :=
  ⟨home, load texts, texts.filterMap fun entry =>
    entry.2.bind fun text => (Document.read text).toOption.join, load_ne_nesting texts⟩

end NamedTexts

end PhpArray
