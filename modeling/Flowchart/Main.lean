import Flowchart.CommandLine

/-! The program as it runs on a machine. -/
namespace Flowchart.CommandLine

/-- The reason behind a failure of the machine. -/
def FileError.ofMachine : IO.Error → FileError
  | .permissionDenied .. => .denied
  | .inappropriateType _ code _ => if code = 21 then .isFolder else .notFolder
  | .invalidArgument _ code _ => if code = 36 then .tooLong else .missing
  | _ => .missing

/-- All that is left in a stream. -/
partial def readAll (stream : IO.FS.Stream) (text : String) : IO String := do
  let line ← stream.getLine
  if line.isEmpty then return text else readAll stream (text ++ line)

instance : Surroundings IO where
  present path := do
    try
      let _ ← IO.FS.realPath (String.ofList path)
      return (← (IO.FS.Handle.mk (String.ofList path) .read).toBaseIO).toBool
    catch _ => return false
  read path := do
    try return .ok (← IO.FS.readFile (String.ofList path)).toList
    catch e => return .error (.ofMachine e)
  write path content := do
    try
      IO.FS.writeFile (String.ofList path) (String.ofList content)
      return .ok ()
    catch e => return .error (.ofMachine e)
  input := return (← readAll (← IO.getStdin) "").toList
  print text := do (← IO.getStdout).putStr (String.ofList text)
  complain text := do (← IO.getStderr).putStr (String.ofList text)

end Flowchart.CommandLine

/-- Runs the program with the arguments of the command line. -/
def main (args : List String) : IO UInt32 := do
  match ← Flowchart.CommandLine.run (args.map String.toList) with
  | .ok code => return code.toUInt32
  | .error e =>
    (← IO.getStderr).putStr (String.ofList ((e.message?.getD "cannot read the text") ++ ['\n']))
    return 1
