import ReportTree.CommandLine.Program

/-!
# The executable

Collects what the program looks at, runs it and prints what it says.
-/

namespace ReportTree.CommandLine

/-- What an error of the system says about a path. -/
def foundOfError : IO.Error → Disk.Found
  | .inappropriateType _ code _ =>
    if code = 21 then .directory else .blocked
  | .invalidArgument _ code _ => if code = 36 then .tooLong else .missing
  | _ => .missing

/-- What stands at a path. -/
def look (path : Text) : IO Disk.Found := do
  if path.contains (.scalar '\x00') then return .invalid .zero
  try
    return .file (← IO.FS.readBinFile path.toString).toList
  catch e => return foundOfError e

/-- All that is left of a stream. -/
def readAll (stream : IO.FS.Stream) : IO ByteArray := do
  let mut bytes := ByteArray.empty
  repeat
    let more ← stream.read 65536
    if more.isEmpty then break
    bytes := bytes ++ more
  return bytes

/-- The surroundings of the program when it is called with these words. -/
def surroundings (words : List Text) : IO Surroundings := do
  let place := Text.ofString (toString (← IO.currentDir))
  let found ← (lookedAt place words).mapM fun path => return (path, ← look path)
  let stdin ← IO.getStdin
  let input ← if words.contains standardInput then readAll stdin else pure .empty
  let environment ← consulted.mapM fun name =>
    return (← IO.getEnv name.toString).map fun value => (name, Text.ofString value)
  return {
    disk := fun path => (found.lookup path).getD .missing
    place := place
    input := input.toList
    environment := environment.reduceOption
    terminal := ← (← IO.getStdout).isTty }

end ReportTree.CommandLine

open ReportTree CommandLine in
/-- Runs the program with the words that it is called with. -/
def main (args : List String) : IO UInt32 := do
  let words := args.map Text.ofString
  let outcome := run (← surroundings words) words
  IO.print outcome.out.toString
  IO.eprint outcome.err.toString
  if let .crash c := outcome.ending then IO.eprintln c.message.toString
  return outcome.ending.number.toUInt32
