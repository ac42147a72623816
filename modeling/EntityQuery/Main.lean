import EntityQuery.CommandLine

/-!
# The program

Reads variables, arguments and documents, and prints the plan or the report of a failure.
-/

open EntityQuery

/-- The wording of a system error. Its number may come negated. -/
def systemCause (code : UInt32) (details : String) : String :=
  let number := min code.toNat (UInt32.size - code.toNat)
  match PathFault.ofNumber? number with
  | some fault => fault.message
  | none => PathFault.systemMessage details number

/-- The wording of an error; one that is none of the system is about the encoding of a text. -/
def causeOf : IO.Error → String
  | .noFileOrDirectory _ code details | .inappropriateType _ code details
  | .invalidArgument _ code details | .permissionDenied _ code details
  | .resourceExhausted _ code details | .noSuchThing _ code details
  | .otherError code details => systemCause code details
  | _ => "stream did not contain valid UTF-8"

/-- Reads the file of a path, or the standard input for a dash. -/
def readDocument (path : String) : IO (Except String String) := do
  try
    if path = CommandLine.inputPath then return .ok (← (← IO.getStdin).readToEnd)
    else return .ok (← IO.FS.readFile path)
  catch e => return .error (causeOf e)

/-- The variables that settings come from. -/
def variableNames : List String :=
  ["RUSTODATA_ENTITY_ALIAS_PREFIX", "RUSTODATA_RELATIONSHIP_ALIAS_PREFIX",
    "RUSTODATA_MAX_PAGE_SIZE", "RUSTODATA_JOIN_KIND", "LOG_LEVEL", "RUST_LOG"]

/-- Runs the program. -/
def main (arguments : List String) : IO UInt32 := do
  let settings ← variableNames.filterMapM fun name => do
    return (← IO.getEnv name).map fun value => (name, value)
  let outcome ← CommandLine.run readDocument (fun name => settings.lookup name) arguments
  IO.print outcome.output
  if let some report := outcome.report then IO.eprintln report
  return outcome.exitCode.toUInt32
