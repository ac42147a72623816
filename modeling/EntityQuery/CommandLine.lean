import EntityQuery.CommandLine.FileTree
import EntityQuery.CommandLine.LogFilter
import EntityQuery.Config.Basic
import EntityQuery.Json.Printer
import EntityQuery.Json.Reader
import EntityQuery.Model.Document
import EntityQuery.Plan
import EntityQuery.Request.Document

/-!
# The command line

The program takes two documents, a model and a request, and prints the plan. Settings come from
variables. How documents are read is left to the caller.
-/

namespace EntityQuery

/-- Why a run fails: what was tried, and the cause if there is more to say. -/
structure Failure where
  context : String
  cause : Option String
  deriving DecidableEq, Repr

/-- The text with every line moved to the right. -/
def indented (text : String) : String :=
  String.ofList (text.toList.flatMap fun c => if c = '\n' then "\n    ".toList else [c])

/-- The report of a failure. -/
def Failure.report (f : Failure) : String :=
  "Error: " ++ f.context ++
    match f.cause with
    | none => ""
    | some cause => "\n\nCaused by:\n    " ++ indented cause

/-- What a run leaves behind. -/
structure Outcome where
  exitCode : Nat
  output : String
  report : Option String
  deriving DecidableEq, Repr

namespace CommandLine

/-- The summary of how the program is called. -/
def usage : String := "usage: rustodata <metadata.json> <request.json | ->"

/-- The failure of settings. -/
def configFailure (e : ConfigError) : Failure := ⟨"invalid configuration", some e.message⟩

/-- The compiler and the paths of both documents. A log filter of its own replaces the log level
unchecked. -/
def prepare (lookup : String → Option String) (arguments : List String) :
    Except Failure (Compiler × String × String) := do
  let config ← (Config.ofVariables lookup).mapError configFailure
  if (lookup "RUST_LOG").isNone && !LogFilter.isValid config.logLevel then
    .error ⟨"invalid log level filter: " ++ config.logLevel, none⟩
  else
    match arguments with
    | [model, request] =>
      let compiler ← (Compiler.ofConfig config).mapError configFailure
      return (compiler, model, request)
    | _ => .error ⟨usage, none⟩

/-- The printed plan of a request document on a model document. -/
def compileDocuments (compiler : Compiler) (modelText requestText : String) :
    Except Failure String := do
  let model ← match (Json.parse? modelText).bind Model.ofJson? with
    | some m => .ok m
    | none => .error ⟨"failed to parse metadata document", none⟩
  let request ← match (Json.parse? requestText).bind Request.ofJson? with
    | some r => .ok r
    | none => .error ⟨"failed to parse request descriptor", none⟩
  let plan ← (compiler.compile model request).mapError fun e =>
    ⟨"failed to compile request for " ++ request.entitySet, some e.message⟩
  return plan.toJson.pretty ++ "\n"

/-- The path that stands for the standard input. -/
def inputPath : String := "-"

/-- The failure to read the document of a path. -/
def readFailure (path cause : String) : Failure :=
  ⟨"failed to read " ++ (if path = inputPath then "request from stdin" else path), some cause⟩

/-- Reads both documents, the model first, and compiles them. -/
def execute {m : Type → Type} [Monad m] (read : String → m (Except String String))
    (compiler : Compiler) (modelPath requestPath : String) : m (Except Failure String) := do
  match ← read modelPath with
  | .error cause => return .error (readFailure modelPath cause)
  | .ok modelText =>
    match ← read requestPath with
    | .error cause => return .error (readFailure requestPath cause)
    | .ok requestText => return compileDocuments compiler modelText requestText

/-- The outcome of a run. -/
def outcome : Except Failure String → Outcome
  | .ok output => ⟨0, output, none⟩
  | .error failure => ⟨1, "", some failure.report⟩

/-- Runs the program with a way to read the document of a path. -/
def run {m : Type → Type} [Monad m] (read : String → m (Except String String))
    (lookup : String → Option String) (arguments : List String) : m Outcome := do
  match prepare lookup arguments with
  | .error failure => return outcome (.error failure)
  | .ok (compiler, modelPath, requestPath) =>
    return outcome (← execute read compiler modelPath requestPath)

/-- The documents that a run can read: files, and the standard input. -/
structure Documents where
  files : FileTree
  input : String
  deriving DecidableEq, Repr

/-- Reads the document of a path. A dash takes all that is left of the standard input. -/
def Documents.read (path : String) : StateM Documents (Except String String) := do
  let documents ← get
  if path = inputPath then
    set { documents with input := "" }
    return .ok documents.input
  else return (documents.files.read path).mapError PathFault.message

end CommandLine

end EntityQuery
