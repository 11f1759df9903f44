import BracketScript.Render

/-! The command line names a source file and says what to show of it. Arguments are read
from left to right; the first one that is wrong, or that asks for the version or for help,
ends the reading. What the program then does depends only on the bytes of the file. -/
namespace BracketScript

structure Request where
  file : String
  emit : Emit
  format : Format
  verbose : Bool
deriving DecidableEq

/-- The result of reading the arguments: a request to carry out, or an exit with a fixed text. -/
inductive Invocation where
  | show (request : Request)
  | version
  | help
  | misuse
deriving DecidableEq

structure Arguments where
  file : Option String
  emit : Option Emit
  format : Option Format
  verbose : Bool
deriving DecidableEq

inductive ValueOption where
  | emit
  | format
deriving DecidableEq

inductive FlagOption where
  | verbose
  | version
  | help
deriving DecidableEq

inductive Switch where
  | value (option : ValueOption)
  | flag (option : FlagOption)
deriving DecidableEq

def Emit.ofName? : String → Option Emit
  | "ast" => some .ast
  | "tokens" => some .tokens
  | _ => none

def Format.ofName? : String → Option Format
  | "json" => some .json
  | "tree" => some .tree
  | "debug" => some .debug
  | _ => none

def Switch.ofLetter? : Char → Option Switch
  | 'e' => some (.value .emit)
  | 'f' => some (.value .format)
  | 'v' => some (.flag .verbose)
  | 'V' => some (.flag .version)
  | 'h' => some (.flag .help)
  | _ => none

def Switch.ofWord? : String → Option Switch
  | "emit" => some (.value .emit)
  | "format" => some (.value .format)
  | "verbose" => some (.flag .verbose)
  | "version" => some (.flag .version)
  | "help" => some (.flag .help)
  | _ => none

namespace Arguments

def empty : Arguments := ⟨none, none, none, false⟩

def setValue (a : Arguments) (option : ValueOption) (value : String) :
    Except Invocation Arguments :=
  match option with
  | .emit =>
    match a.emit, Emit.ofName? value with
    | none, some emit => .ok { a with emit := some emit }
    | _, _ => .error .misuse
  | .format =>
    match a.format, Format.ofName? value with
    | none, some format => .ok { a with format := some format }
    | _, _ => .error .misuse

def setFlag (a : Arguments) (option : FlagOption) : Except Invocation Arguments :=
  match option with
  | .verbose => if a.verbose then .error .misuse else .ok { a with verbose := true }
  | .version => .error .version
  | .help => .error .help

def setFile (a : Arguments) (file : String) : Except Invocation Arguments :=
  if a.file.isSome || file.isEmpty then .error .misuse else .ok { a with file := some file }

/-- A group of letters behind one dash. An option with a value takes the rest of the group, less a
leading equals sign, or else stays open for the next argument. -/
def setLetters (a : Arguments) : List Char → Except Invocation (Arguments × Option ValueOption)
  | [] => .ok (a, none)
  | c :: cs =>
    match Switch.ofLetter? c with
    | none => .error .misuse
    | some (.flag option) => do setLetters (← a.setFlag option) cs
    | some (.value option) =>
      match cs with
      | [] => .ok (a, some option)
      | '=' :: value => do return (← a.setValue option (String.ofList value), none)
      | value => do return (← a.setValue option (String.ofList value), none)

def setWord (a : Arguments) (word : List Char) :
    Except Invocation (Arguments × Option ValueOption) :=
  let name := String.ofList (word.takeWhile (· != '='))
  match Switch.ofWord? name, word.dropWhile (· != '=') with
  | none, _ => .error .misuse
  | some (.flag option), [] => do return (← a.setFlag option, none)
  | some (.flag _), _ :: _ => .error .misuse
  | some (.value option), [] => .ok (a, some option)
  | some (.value option), _ :: value => do
    return (← a.setValue option (String.ofList value), none)

def setFiles (a : Arguments) : List String → Except Invocation Arguments
  | [] => .ok a
  | file :: files => do setFiles (← a.setFile file) files

/-- Reads the arguments from left to right. `open?` is an option that still waits for its value, and
a lone dash is an ordinary argument. -/
def setAll (a : Arguments) (open? : Option ValueOption) :
    List String → Except Invocation Arguments
  | [] => if open?.isSome then .error .misuse else .ok a
  | argument :: rest =>
    match open?, argument.toList with
    | none, ['-', '-'] => a.setFiles rest
    | none, '-' :: '-' :: word => do
      let (a, open?) ← a.setWord word
      setAll a open? rest
    | none, '-' :: c :: letters => do
      let (a, open?) ← a.setLetters (c :: letters)
      setAll a open? rest
    | none, _ => do setAll (← a.setFile argument) none rest
    | some option, _ => do setAll (← a.setValue option argument) none rest

/-- The defaults are the program as a document. A missing file is a misuse. -/
def invocation (a : Arguments) : Invocation :=
  match a.file with
  | none => .misuse
  | some file => .show ⟨file, a.emit.getD .ast, a.format.getD .json, a.verbose⟩

end Arguments

def Invocation.ofArguments (arguments : List String) : Invocation :=
  match Arguments.empty.setAll none arguments with
  | .ok a => a.invocation
  | .error invocation => invocation

inductive FileFault where
  | missing
  | directory
  | notDirectory
  | notText
  | other (reason : String)
deriving DecidableEq

def FileFault.reason : FileFault → String
  | missing => "No such file or directory (os error 2)"
  | directory => "Is a directory (os error 21)"
  | notDirectory => "Not a directory (os error 20)"
  | notText => "stream did not contain valid UTF-8"
  | other reason => reason

/-- The exit code and what is written to both streams. -/
structure Response where
  exitCode : UInt8
  stdout : String
  stderr : String
deriving DecidableEq

namespace Response

def version : Response := ⟨0, "cardstock 0.1.0\n", ""⟩

def usage : String := "Usage: cardstock [OPTIONS] <FILE>\n"

def help : Response :=
  ⟨0, usage ++ "  -e, --emit <EMIT>      ast or tokens\n" ++
    "  -f, --format <FORMAT>  json, tree or debug\n" ++
    "  -v, --verbose\n  -h, --help\n  -V, --version\n", ""⟩

def misuse : Response := ⟨2, "", usage⟩

/-- Appends a line break, unless the message ends in one. -/
def endLine (message : String) : String :=
  if message.toList.getLast? = some '\n' then message else message ++ "\n"

def failure (notes message : String) : Response := ⟨1, "", notes ++ endLine message⟩

def notesText (verbose : Bool) (notes : List String) : String :=
  if verbose then String.join (notes.map (· ++ "\n")) else ""

/-- Text goes to the output. A report goes to the errors, after the notes if these are wanted. -/
def ofRendering (verbose : Bool) (rendering : Rendering) : Response :=
  let notes := notesText verbose rendering.notes
  match rendering.outcome with
  | .ok text => ⟨0, text ++ "\n", notes⟩
  | .error text => failure notes text

end Response

def decodeText (bytes : ByteArray) : Except FileFault String :=
  match String.fromUTF8? bytes with
  | some text => .ok text
  | none => .error .notText

def Request.respond (r : Request) (bytes : Except FileFault ByteArray) : Response :=
  match bytes.bind decodeText with
  | .error fault => .failure "" ("could not read " ++ r.file ++ ": " ++ fault.reason)
  | .ok content => .ofRendering r.verbose (render ⟨r.file, content⟩ r.emit r.format)

def respond (files : String → Except FileFault ByteArray) (arguments : List String) : Response :=
  match Invocation.ofArguments arguments with
  | .show request => request.respond (files request.file)
  | .version => .version
  | .help => .help
  | .misuse => .misuse

end BracketScript
