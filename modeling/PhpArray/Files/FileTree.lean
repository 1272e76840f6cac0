import PhpArray.Files.Path
import PhpArray.Text.Lines
import PhpArray.Text.Utf8

/-!
A tree of files and directories, and what a file system does with a path in it. There are no links,
symbolic or hard, so a file or a directory has one place, which is the list of names that lead to it
from the root. The names are as a directory lists them: a byte that is no part of a character in
UTF-8 is a surrogate. Permissions are left out.
-/

namespace PhpArray

inductive FileEntry where
  | file (bytes : List UInt8)
  | directory
deriving DecidableEq, Repr

/-- The place of a file or directory. -/
abbrev Place := List String

structure FileTree where
  /-- The directory from which relative paths are read. -/
  home : Place
  entries : List (Place × FileEntry)

/-- Why the file system refuses a path. -/
inductive FileRefusal where
  | noEntry
  | alreadyThere
  | notDirectory
  | isDirectory
  | nameTooLong
deriving DecidableEq, Repr

def FileRefusal.number : FileRefusal → Nat
  | .noEntry => 2
  | .alreadyThere => 17
  | .notDirectory => 20
  | .isDirectory => 21
  | .nameTooLong => 36

def FileRefusal.words : FileRefusal → String
  | .noEntry => "No such file or directory"
  | .alreadyThere => "File exists"
  | .notDirectory => "Not a directory"
  | .isDirectory => "Is a directory"
  | .nameTooLong => "File name too long"

/-- The refusal of a path in words. -/
def FileRefusal.message (r : FileRefusal) (path : String) : String :=
  "[Errno " ++ toString r.number ++ "] " ++ r.words ++ ": " ++ Text.quoted path

namespace FileTree

/-- The most bytes of one name. -/
def maxNameSize : Nat := 255

/-- The least size of a path that is too long. -/
def pathSizeLimit : Nat := 4096

/-- What is at a place; the root is always there. -/
def find? (t : FileTree) (place : Place) : Option FileEntry :=
  if place = [] then some .directory else t.entries.lookup place

def isDirectoryAt (t : FileTree) (place : Place) : Bool :=
  t.find? place == some .directory

/-- Puts an entry at a place, in front of what was there. -/
def put (t : FileTree) (place : Place) (entry : FileEntry) : FileTree :=
  { t with entries := (place, entry) :: t.entries.filter (·.1 != place) }

/-- What a place holds after an entry was put somewhere. -/
theorem find?_put (t : FileTree) (place other : Place) (entry : FileEntry)
    (hplace : place ≠ []) :
    (t.put place entry).find? other = if other = place then some entry else t.find? other := by
  by_cases hroot : other = []
  · subst hroot
    simp [find?, Ne.symm hplace]
  · by_cases hsame : other = place
    · subst hsame
      simp [find?, put, hroot]
    · have hdiffer : (other == place) = false := by simpa using hsame
      have hlookup : (t.entries.filter (·.1 != place)).lookup other = t.entries.lookup other := by
        induction t.entries with
        | nil => rfl
        | cons head tail ih =>
            obtain ⟨key, value⟩ := head
            by_cases hkey : key = place
            · subst hkey
              simp [List.lookup_cons, ih, hdiffer]
            · simp [hkey, List.lookup_cons, ih]
      simp [find?, put, hroot, hsame, hdiffer, List.lookup_cons, hlookup]

/-- The place of a name in a directory. -/
def below (place : Place) (name : String) : Place :=
  place ++ [Path.entryName name]

theorem below_ne_nil (place : Place) (name : String) : below place name ≠ [] :=
  List.concat_ne_nil _ _

/-- Where a path leads from a place, name by name. Every name is looked up in a directory. -/
def walk (t : FileTree) (place : Place) : List String → Except FileRefusal Place
  | [] => .ok place
  | name :: rest =>
    if !t.isDirectoryAt place then .error .notDirectory
    else if name = "" ∨ name = "." then t.walk place rest
    else if name = ".." then t.walk place.dropLast rest
    else if maxNameSize < Path.byteSize name then .error .nameTooLong
    else
      match t.find? (below place name) with
      | none => .error .noEntry
      | some _ => t.walk (below place name) rest

/-- A way is walked piece by piece. -/
theorem walk_append (t : FileTree) (place : Place) (first second : List String) :
    t.walk place (first ++ second) = (t.walk place first).bind (t.walk · second) := by
  induction first generalizing place with
  | nil => rfl
  | cons name rest ih =>
      have hstay := ih place
      have hup := ih place.dropLast
      have hdown := ih (below place name)
      simp only [List.cons_append, walk]
      split
      · rfl
      · split
        · exact hstay
        · split
          · exact hup
          · split
            · rfl
            · split
              · rfl
              · exact hdown

/-- The place where the reading of a path begins. -/
def origin (t : FileTree) (path : String) : Place :=
  if Path.isAbsolute path.toList then [] else t.home.map Path.entryName

/-- Refuses a path for its length alone. -/
def checkSize (path : String) : Except FileRefusal Unit :=
  if path = "" then .error .noEntry
  else if pathSizeLimit ≤ Path.byteSize path then .error .nameTooLong
  else .ok ()

/-- The place of what a path names. -/
def locate (t : FileTree) (path : String) : Except FileRefusal Place := do
  checkSize path
  t.walk (t.origin path) (Path.names path)

def isPresent (t : FileTree) (path : String) : Bool :=
  (Path.fault? path).isNone && (t.locate path).isOk

def isDirectory (t : FileTree) (path : String) : Bool :=
  (Path.fault? path).isNone &&
    match t.locate path with
    | .ok place => t.isDirectoryAt place
    | .error _ => false

/-- The content of the file that a path names. -/
def read (t : FileTree) (path : String) : Except FileRefusal (List UInt8) := do
  match t.find? (← t.locate path) with
  | some (.file bytes) => .ok bytes
  | some .directory => .error .isDirectory
  | none => .error .noEntry

/-- The directory and the last name of a path that may lead to something new. There is no last name
if the path names a directory by its form. -/
def locateNew (t : FileTree) (path : String) : Except FileRefusal (Place × Option String) := do
  checkSize path
  let reversed := (Path.names path).reverse
  let trimmed := reversed.dropWhile (· == "")
  let place ← t.walk (t.origin path) trimmed.tail.reverse
  if !t.isDirectoryAt place then .error .notDirectory
  else .ok (place, trimmed.head?.filter fun name => name != "." && name != "..")

/-- Makes a directory in an existing one. -/
def makeDirectory (t : FileTree) (path : String) : Except FileRefusal FileTree := do
  match ← t.locateNew path with
  | (_, none) => .error .alreadyThere
  | (place, some name) =>
    if maxNameSize < Path.byteSize name then .error .nameTooLong
    else if (t.find? (below place name)).isSome then .error .alreadyThere
    else .ok (t.put (below place name) .directory)

/-- The place of a file that is opened to be written. It need not be there yet. -/
def locateFile (t : FileTree) (path : String) : Except FileRefusal Place := do
  match ← t.locateNew path with
  | (_, none) => .error .isDirectory
  | (place, some name) =>
    if path.toList.getLast? = some '/' then .error .isDirectory
    else if maxNameSize < Path.byteSize name then .error .nameTooLong
    else if t.isDirectoryAt (below place name) then .error .isDirectory
    else .ok (below place name)

/-- Puts an entry at a place together with the directories above it. -/
def putWithParents (t : FileTree) (place : Place) (entry : FileEntry) : FileTree :=
  let parents := (List.range (place.length - 1)).map fun n => place.take (n + 1)
  let t := parents.foldl (fun t p => if (t.find? p).isSome then t else t.put p .directory) t
  t.put place entry

/-- The directory from which relative paths are read, as a path. -/
def homePath (t : FileTree) : String :=
  "/" ++ "/".intercalate t.home

end FileTree

end PhpArray
