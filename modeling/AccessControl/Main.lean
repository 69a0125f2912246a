import AccessControl.CommandLine

/-! # The program

The outer layer of the command line: files are those of the machine, the environment is that of the
process, and the outcome of `CommandLine.run` becomes output and exit status. -/

namespace AccessControl.CommandLine

/-- What is at a path on the machine; what cannot be reached counts as missing. -/
def lookAt (path : String) : IO (Option Entry) := do
  try
    let place ← IO.FS.realPath path
    if ← place.isDir then
      let entries ← place.readDir
      return some (.directory (entries.toList.map (·.fileName)))
    else
      return some (.file (.ofBytes (← IO.FS.readBinFile place)))
  catch _ => return none

def machine : FileSystem IO := ⟨lookAt⟩

/-- A variable of the environment, written as a name, an equals sign and a value. -/
def variableOf (text : List Char) : String × String :=
  (.ofList (text.takeWhile (· != '=')), .ofList ((text.dropWhile (· != '=')).drop 1))

/-- The variables of the environment of the process. -/
def environmentVariables : IO (List (String × String)) := do
  match ← machine.readText? "/proc/self/environ" with
  | some text => return (Text.split '\x00' text.toList).map variableOf
  | none => return []

end AccessControl.CommandLine

/-- The program does what the words after its name say. -/
def main (words : List String) : IO UInt32 := do
  let outcome ← AccessControl.CommandLine.run AccessControl.CommandLine.machine
    (← AccessControl.CommandLine.environmentVariables) words
  IO.print outcome.output
  if outcome.complaint != "" then IO.eprintln outcome.complaint
  return outcome.exit.toUInt32
