import BracketScript.CommandLine

/-! The program: it reads the file that the arguments name, and writes the response. -/
namespace BracketScript

def readBytes (file : String) : IO (Except FileFault ByteArray) := do
  try
    return .ok (← IO.FS.readBinFile file)
  catch
    | .noFileOrDirectory .. => return .error .missing
    | .inappropriateType .. => return .error .directory
    | e => return .error (.other (toString e))

def Response.write (r : Response) : IO UInt32 := do
  (← IO.getStdout).putStr r.stdout
  (← IO.getStderr).putStr r.stderr
  return r.exitCode.toUInt32

end BracketScript

def main (arguments : List String) : IO UInt32 := do
  match BracketScript.Invocation.ofArguments arguments with
  | .show request =>
    let bytes ← BracketScript.readBytes request.file
    (request.respond bytes).write
  | _ => (BracketScript.respond (fun _ => .error .missing) arguments).write
