import EntityQuery.Json.Record
import EntityQuery.Statement.Assembly

/-!
# Query plans

A compiler with valid settings turns a request on a model into a plan: a statement with the window
of rows to take from it, or nothing at all for an empty page.
-/

namespace EntityQuery

/-- What to do for a request. -/
inductive Plan where
  | empty
  | statement (text : String) (skip top : Option UInt32)
  deriving DecidableEq, Repr

namespace Plan

/-- The statement of a plan. -/
def statement? : Plan → Option String
  | .empty => none
  | .statement text _ _ => some text

/-- Writes a plan. -/
def toJson : Plan → Json
  | .empty => .object [("kind", .string "empty")]
  | .statement text skip top =>
    Json.ofMembers [("kind", some (.string "statement")), ("statement", some (.string text)),
      ("skip", skip.map Json.ofUInt32), ("top", top.map Json.ofUInt32)]

end Plan

/-- Why a request has no plan. -/
inductive CompileError where
  | request (cause : RequestError)
  | render (cause : RenderError)
  | statement (cause : StatementError)
  deriving DecidableEq, Repr

/-- The wording of the error. -/
def CompileError.message : CompileError → String
  | .request cause => cause.message
  | .render cause => cause.message
  | .statement cause => cause.message

/-- A compiler has valid settings. -/
structure Compiler where
  config : Config
  valid : config.validate = .ok ()

namespace Compiler

/-- The compiler with the given settings, if they are valid. -/
def ofConfig (config : Config) : Except ConfigError Compiler :=
  match h : config.validate with
  | .ok () => .ok ⟨config, h⟩
  | .error e => .error e

/-- The number of rows to take at most: what the request asks for, within the limit for pages. -/
def pageSize (top limit : Option UInt32) : Option UInt32 :=
  match top, limit with
  | some top, some limit => some (min top limit)
  | some top, none => some top
  | none, limit => limit

/-- The plan of a resolved request. -/
def planOf (c : Compiler) (r : ResolvedRequest) : Except CompileError Plan := do
  match ← (StatementContext.ofRequest? c.config r).mapError .render with
  | none => return .empty
  | some context =>
    let text ← context.statement.mapError .statement
    if r.count then return .statement text none none
    else return .statement text r.skip (pageSize r.top c.config.maxPageSize)

/-- The plan of a request. An empty page needs no model. -/
def compile (c : Compiler) (model : Model) (r : Request) : Except CompileError Plan :=
  if r.top = some 0 then .ok .empty
  else
    match model.resolve r with
    | .error e => .error (.request e)
    | .ok resolved => c.planOf resolved

end Compiler

end EntityQuery
