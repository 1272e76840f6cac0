import PhpArray.Text.Utf8

/-!
Paths as text. A path is absolute if it begins with a slash. Nothing here looks at files: `..` is
taken away together with the name before it.
-/

namespace PhpArray.Path

def isAbsolute (path : List Char) : Bool :=
  path.head? == some '/'

/-- The names between the slashes, empty ones included. -/
def names (path : String) : List String :=
  (path.toList.splitOn '/').map String.ofList

/-- The path that another path names when it is read from a directory. -/
def join (base path : String) : String :=
  if isAbsolute path.toList then path
  else if base.toList.getLast?.all (· == '/') then base ++ path
  else base ++ "/" ++ path

/-- The slashes a normal path keeps in front: one of any number, but two stay two. -/
def leadingSlashes (path : List Char) : Nat :=
  let slashes := (path.takeWhile (· == '/')).length
  if slashes = 2 then 2 else min slashes 1

/-- Adds a name to a path given as names, last one first. At the root there is nothing above. -/
def addName (rooted : Bool) (above : List String) (name : String) : List String :=
  if name = "" ∨ name = "." then above
  else if name = ".." then
    match above with
    | [] => if rooted then [] else [name]
    | last :: rest => if last = ".." then name :: above else rest
  else name :: above

/-- The path without empty names, without `.` and, as far as it can be, without `..`. -/
def normalize (path : String) : String :=
  let slashes := leadingSlashes path.toList
  let kept := ((names path).foldl (addName (slashes != 0)) []).reverse
  let text := String.ofList (List.replicate slashes '/') ++ "/".intercalate kept
  if text = "" then "." else text

/-- The normal absolute path of a path that is read from a directory. -/
def absolute (directory path : String) : String :=
  normalize (join directory path)

/-- The text before the last name, without slashes at its end unless it is all slashes; and the last
name. -/
def split (path : String) : String × String :=
  let reversed := path.toList.reverse
  let name := reversed.takeWhile (· != '/')
  let before := reversed.dropWhile (· != '/')
  let trimmed := before.dropWhile (· == '/')
  (String.ofList (if trimmed.isEmpty then before else trimmed).reverse, String.ofList name.reverse)

def parent (path : String) : String :=
  (split path).1

/-- How many bytes a path has, or a name in it. -/
def byteSize (path : String) : Nat :=
  (Text.Utf8.encodeBytes (Text.codePoints path.toList)).length

/-- A name in the form in which a directory lists it. Surrogates that stand for bytes may spell out
a character. -/
def entryName (name : String) : String :=
  let points := Text.codePoints name.toList
  if points.any Text.isByteEscape then
    String.ofList ((Text.Utf8.decodeBytes 0 (Text.Utf8.encodeBytes points)).flatMap
      Text.ofCodePoint)
  else name

/-- Why no file can have a path, whatever files there are. -/
inductive Fault where
  /-- It holds the null character. -/
  | null
  /-- It holds surrogates that stand for no bytes. -/
  | unencodable (fault : Text.Utf8.Unencodable)
deriving DecidableEq, Repr

def Fault.message : Fault → String
  | .null => "embedded null byte"
  | .unencodable fault => fault.message

/-- What is wrong with a path by itself. Surrogates are looked for first. -/
def fault? (path : String) : Option Fault :=
  match Text.Utf8.unencodable? Text.isByteEscape 0 (Text.codePoints path.toList) with
  | some fault => some (.unencodable fault)
  | none => if path.toList.contains '\x00' then some .null else none

end PhpArray.Path
