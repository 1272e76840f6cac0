import PhpArray.Files.FileTree

/-!
Saving a file together with the directories it needs. A failure may leave directories behind that
were made before it, and a file that was opened but not written to its end.
-/

namespace PhpArray

/-- Why a file system stops writing a file that is open. -/
inductive WriteRefusal where
  | inputOutput
  | tooLarge
  | noSpace
  | quotaExceeded
deriving DecidableEq, Repr

def WriteRefusal.number : WriteRefusal → Nat
  | .inputOutput => 5
  | .tooLarge => 27
  | .noSpace => 28
  | .quotaExceeded => 122

def WriteRefusal.words : WriteRefusal → String
  | .inputOutput => "Input/output error"
  | .tooLarge => "File too large"
  | .noSpace => "No space left on device"
  | .quotaExceeded => "Disk quota exceeded"

/-- The refusal in words. The path of the file is not in it. -/
def WriteRefusal.message (r : WriteRefusal) : String :=
  "[Errno " ++ toString r.number ++ "] " ++ r.words

/-- How the writing of an open file goes. -/
inductive Writing where
  | complete
  /-- It stops behind some of the bytes, or behind all of them when the file is closed. -/
  | stops (count : Nat) (refusal : WriteRefusal)
deriving DecidableEq, Repr

/-- Why a file is not saved. -/
inductive SaveFault where
  | path (fault : Path.Fault)
  | refused (refusal : FileRefusal) (path : String)
  | unencodable (fault : Text.Utf8.Unencodable)
  | stopped (refusal : WriteRefusal)
deriving DecidableEq, Repr

/-- The bytes that an open file holds after a text was written to it, and why they are not all. A
text that cannot be encoded is not written at all. -/
def Writing.written (writing : Writing) (text : String) : List UInt8 × Option SaveFault :=
  match Text.Utf8.encode text with
  | .error fault => ([], some (.unencodable fault))
  | .ok bytes =>
    match writing with
    | .complete => (bytes, none)
    | .stops count refusal => (bytes.take count, some (.stopped refusal))

/-- Whether the fault is that something is there already. -/
def SaveFault.isPresence : SaveFault → Bool
  | .refused .alreadyThere _ => true
  | _ => false

namespace FileTree

/-- Makes one directory; it may be there already. -/
def ensureDirectory (t : FileTree) (path : String) : FileTree × Option SaveFault :=
  match Path.fault? path with
  | some fault => (t, some (.path fault))
  | none =>
    match t.makeDirectory path with
    | .ok t => (t, none)
    | .error refusal => if t.isDirectory path then (t, none) else (t, some (.refused refusal path))

/-- The path above, passing over a slash at the end, and the last name. -/
def splitLast (path : String) : String × String :=
  let (above, name) := Path.split path
  if name = "" then Path.split above else (above, name)

/-- Makes a directory and those above it. Every level has a shorter path, so the length of the path
bounds the levels. -/
def ensureDirectories : Nat → FileTree → String → FileTree × Option SaveFault
  | 0, t, _ => (t, none)
  | levels + 1, t, path =>
    let (above, name) := splitLast path
    if above ≠ "" ∧ name ≠ "" ∧ !t.isPresent above then
      match ensureDirectories levels t above with
      | (t, fault) =>
        if fault.any (!·.isPresence) then (t, fault)
        else if name = "." then (t, none)
        else t.ensureDirectory path
    else t.ensureDirectory path

/-- Makes the directories above a path. -/
def ensureParents (t : FileTree) (path : String) : FileTree × Option SaveFault :=
  let parent := Path.parent path
  if parent = "" then (t, none) else ensureDirectories (parent.length + 1) t parent

/-- Makes the directories above a path and opens the file there, which is empty then. -/
def openFile (t : FileTree) (path : String) : FileTree × Except SaveFault Place :=
  match t.ensureParents path with
  | (t, some fault) => (t, .error fault)
  | (t, none) =>
    match Path.fault? path with
    | some fault => (t, .error (.path fault))
    | none =>
      match t.locateFile path with
      | .error refusal => (t, .error (.refused refusal path))
      | .ok place => (t.put place (.file []), .ok place)

/-- Saves a text under a path. What the file held before is lost as soon as it is open. -/
def save (t : FileTree) (path : String) (writing : Writing) (text : String) :
    FileTree × Option SaveFault :=
  match t.openFile path with
  | (t, .error fault) => (t, some fault)
  | (t, .ok place) =>
    let (bytes, fault) := writing.written text
    (t.put place (.file bytes), fault)

end FileTree

end PhpArray
