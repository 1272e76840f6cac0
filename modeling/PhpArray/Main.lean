import PhpArray.CommandLine.Command

/-!
The executable. The command is a function of a file tree, and the tree on disk is too large to hand
over. So the executable grows a tree of its own: it calls the command, looks on disk for the
documents that were asked for, and calls it again until nothing new is asked for. What the command
added to the tree is then written to disk.
-/

namespace PhpArray.CommandLine

/-- A text from outside as a text of code points. -/
def textOf (s : String) : String :=
  String.ofList (s.toList.flatMap fun c => Text.ofCodePoint c.toNat)

/-- The characters of a text without surrogates, such as can name a file. -/
def plain? (text : String) : Option String :=
  let points := Text.codePoints text.toList
  if points.any Text.isSurrogate then none else some (String.ofList (points.map Char.ofNat))

/-- The characters of a text, with surrogates written as escapes. -/
def visible (text : String) : String :=
  String.ofList ((Text.codePoints text.toList).flatMap fun n =>
    if Text.isSurrogate n then '\\' :: 'u' :: Text.hexDigits 4 n else [Char.ofNat n])

/-- What is on disk under a path. -/
def diskEntry? (path : String) : IO (Option FileEntry) := do
  let some path := plain? path | return none
  try
    let file ← IO.FS.realPath path
    if ← file.isDir then return some .directory
    return some (.file (← IO.FS.readBinFile file).toList)
  catch _ => return none

/-- The normal place of a path. -/
def placeOf (path : String) : Place :=
  ((Path.names (Path.normalize path)).filter (· != "")).map Path.entryName

/-- Adds what is on disk on the way along a path. -/
def addFromDisk (files : FileTree) (path : String) : IO FileTree := do
  let names := Path.names (Path.join files.homePath path)
  (List.range names.length).foldlM (fun files n => do
    let place := placeOf ("/".intercalate (names.take (n + 1)))
    match ← diskEntry? ("/" ++ "/".intercalate place) with
    | some entry => return files.put place entry
    | none => return files) files

/-- The paths that the arguments themselves name. -/
def namedPaths (args : List String) : List String :=
  match readArguments args with
  | .ok request => request.input :: request.out.toList
  | .error _ => []

/-- Calls the command until it asks for no document that was not looked for. -/
partial def settle (files : FileTree) (input : List Char) (args known : List String) :
    IO (FileTree × Effect) := do
  let effect := call files .complete input args
  match effect.loads.filter (!known.contains ·) with
  | [] => return (files, effect)
  | missing =>
    let files ← missing.foldlM addFromDisk files
    settle files input args (missing ++ known)

/-- Writes to disk what the command added to the tree. -/
def writeAdded (before after : FileTree) : IO Unit := do
  for (place, entry) in after.entries.reverse do
    unless before.find? place == some entry do
      if let some path := plain? ("/" ++ "/".intercalate place) then
        match entry with
        | .directory => IO.FS.createDirAll path
        | .file bytes => IO.FS.writeBinFile path (ByteArray.mk bytes.toArray)

partial def readAll (input : IO.FS.Stream) (text : String) : IO String := do
  let line ← input.getLine
  if line.isEmpty then return text else readAll input (text ++ line)

def execute (args : List String) : IO UInt32 := do
  let args := args.map textOf
  let home := placeOf (textOf (← IO.currentDir).toString)
  let files ← (namedPaths args).foldlM addFromDisk ⟨home, []⟩
  let input ← if (namedPaths args).contains "-" then readAll (← IO.getStdin) "" else pure ""
  let (files, effect) ← settle files input.toList args (namedPaths args)
  try
    writeAdded files effect.files
  catch e =>
    IO.eprintln ("Writing output failed: " ++ toString e)
    return 1
  IO.eprint (visible effect.errors)
  IO.print (visible effect.output)
  match effect.status with
  | .ok status => return UInt32.ofNat status
  | .error failure =>
    IO.eprintln (visible failure.message)
    return 1

end PhpArray.CommandLine

def main (args : List String) : IO UInt32 :=
  PhpArray.CommandLine.execute args
