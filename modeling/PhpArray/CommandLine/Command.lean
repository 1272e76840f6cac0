import PhpArray.CommandLine.Arguments
import PhpArray.Convert
import PhpArray.Files.Save

/-!
The command: it converts a file or its input and writes the program to its output or to a file. The
exit status is 0 if the program was written, 1 if the conversion or the writing failed, and 2 if the
arguments ask for something that there is not. The input is a text already. The output is in UTF-8
and takes all that is printed.
-/

namespace PhpArray.CommandLine

/-- What a call of the command leaves behind. -/
structure Effect where
  /-- The exit status, or a failure that the command does not answer for. -/
  status : Except Failure Nat
  output : String
  errors : String
  files : FileTree
  /-- The documents that were asked for. -/
  loads : List String

def programName : String := "yaml2php.py"

def usage : String :=
  "usage: " ++ programName ++ " [-h] [-o OUT] [--pretty] [--indent INDENT] [-v] input\n"

def help : String :=
  usage ++ "\n" ++
  "Convert a YAML document into a PHP file that returns the equivalent array\n" ++
  "literal.\n" ++
  "\n" ++
  "positional arguments:\n" ++
  "  input              Path to the YAML file, or - to read YAML from stdin\n" ++
  "                     (includes then resolve against ./)\n" ++
  "\n" ++
  "options:\n" ++
  "  -h, --help         show this help message and exit\n" ++
  "  -o OUT, --out OUT  Output path for the generated PHP file (default: write to\n" ++
  "                     stdout)\n" ++
  "  --pretty           Emit multi-line, indented output instead of a single line\n" ++
  "  --indent INDENT    Spaces per nesting level when --pretty is given (default:\n" ++
  "                     4)\n" ++
  "  -v, --verbose      Log file loads and include resolution to stderr\n"

/-- The line of a note in the log. -/
def logLine : Note → String
  | .loading path => "DEBUG yaml2php_lib.loader: Loading YAML file " ++ path ++ "\n"
  | .including path depth =>
    "DEBUG yaml2php_lib.emitter: Including " ++ path ++ " at depth " ++ toString depth ++ "\n"
  | .unparsed value kind =>
    "DEBUG yaml2php_lib.emitter: Scalar " ++ Text.quoted value ++ " does not parse as " ++
      kind.name ++ ", rendering null\n"

/-- The conversion that a request asks for; a dash stands for the input of the command. -/
def Request.convert (request : Request) (files : FileTree) (input : List Char) : Run String :=
  let layout : Layout := ⟨request.pretty, request.indent⟩
  if request.input = "-" then convertText files layout none (Text.unifyLineEnds input)
  else convertFile files layout request.input

/-- What is left behind when a text is printed and the command ends well. A text that cannot be
encoded is not printed at all. -/
def printed (text log : String) (files : FileTree) (loads : List String) : Effect :=
  match Text.Utf8.encode text with
  | .ok _ => ⟨.ok 0, text, log, files, loads⟩
  | .error fault => ⟨.error (.unencodable fault), "", log, files, loads⟩

/-- The line that is printed when a file was written. -/
def completionLine (path : String) : String :=
  "Conversion completed. Output at: " ++ path ++ "\n"

/-- The message for a fault in saving, if the command answers for the fault. -/
def saveAnswer : SaveFault → Except Failure String
  | .path fault => .error (.badPath fault)
  | .refused refusal path => .ok (refusal.message path)
  | .unencodable fault => .error (.unencodable fault)
  | .stopped refusal => .ok refusal.message

/-- Writes a finished program. The log and the loads are those of the conversion. -/
def writeProgram (files : FileTree) (writing : Writing) (out : Option String)
    (program log : String) (loads : List String) : Effect :=
  match out with
  | none => printed (program ++ "\n") log files loads
  | some path =>
    match files.save path writing (program ++ "\n") with
    | (files, none) => printed (completionLine path) log files loads
    | (files, some fault) =>
      match saveAnswer fault with
      | .ok message =>
        ⟨.ok 1, "", log ++ "Writing output failed: " ++ message ++ "\n", files, loads⟩
      | .error failure => ⟨.error failure, "", log, files, loads⟩

/-- Carries out a request. -/
def Request.run (request : Request) (files : FileTree) (writing : Writing) (input : List Char) :
    Effect :=
  if request.indent < 0 then
    ⟨.ok 2, "", "Invalid --indent value: " ++ toString request.indent ++
      ". Expect a non-negative integer.\n", files, []⟩
  else
    let run := request.convert files input
    let log := if request.verbose then String.join (run.notes.map logLine) else ""
    match run.outcome with
    | .ok program => writeProgram files writing request.out program log run.loads
    | .error failure =>
      if failure.isConversion then
        ⟨.ok 1, "", log ++ "Conversion failed: " ++ failure.message ++ "\n", files, run.loads⟩
      else ⟨.error failure, "", log, files, run.loads⟩

/-- Calls the command with arguments and an input. How far a file is written is not for the command
to say. -/
def call (files : FileTree) (writing : Writing) (input : List Char) (args : List String) : Effect :=
  match readArguments args with
  | .ok request => request.run files writing input
  | .error .help => ⟨.ok 0, help, "", files, []⟩
  | .error (.usage fault) =>
    ⟨.ok 2, "", usage ++ programName ++ ": error: " ++ fault.message ++ "\n", files, []⟩

end PhpArray.CommandLine
