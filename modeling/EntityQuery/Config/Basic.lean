import EntityQuery.Statement.JoinKind
import EntityQuery.Text.Digits

/-!
# Configuration

The prefixes of aliases, a limit for pages, the kind of joins and the log level, with the variables
they are set by.
-/

namespace EntityQuery

/-- The settings of the compiler. -/
structure Config where
  entityAliasPrefix : String
  relationshipAliasPrefix : String
  maxPageSize : Option UInt32
  joinKind : JoinKind
  logLevel : String
  deriving DecidableEq, Repr

/-- The two kinds of aliases. -/
inductive AliasKind where
  | entity
  | relationship
  deriving DecidableEq, Repr

/-- How an error message names a kind of alias. -/
def AliasKind.text : AliasKind → String
  | .entity => "entity"
  | .relationship => "relationship"

/-- Why settings are refused. -/
inductive ConfigError where
  | pageSize (text : String) (fault : Text.NumberFault)
  | joinKind (text : String)
  | aliasPrefix (kind : AliasKind) (text : String)
  | equalPrefixes (text : String)
  | zeroPageSize
  deriving DecidableEq, Repr

namespace Config

/-- The variable that sets the limit for pages. -/
def pageSizeVariable : String := "RUSTODATA_MAX_PAGE_SIZE"

end Config

/-- The wording of the error. -/
def ConfigError.message (e : ConfigError) : String :=
  "configuration error: " ++
    match e with
    | .pageSize text fault =>
      "invalid " ++ Config.pageSizeVariable ++ " '" ++ text ++ "': " ++ fault.message
    | .joinKind text => "invalid join kind '" ++ text ++ "' (expected 'inner' or 'left')"
    | .aliasPrefix kind text =>
      kind.text ++ " alias prefix must be non-empty and alphabetic, got '" ++ text ++ "'"
    | .equalPrefixes text =>
      "entity and relationship alias prefixes must differ, both are '" ++ text ++ "'"
    | .zeroPageSize => "max page size must be positive"

/-- Reads a kind of joins, in any case. -/
def JoinKind.read (text : String) : Except ConfigError JoinKind :=
  match JoinKind.ofText? text with
  | some k => .ok k
  | none => .error (.joinKind text)

namespace Config

/-- The settings that apply where nothing is said. -/
def standard : Config := ⟨"E", "R", none, .inner, "info"⟩

/-- The settings that variables give, in a fixed order; the first fault decides. -/
def ofVariables (lookup : String → Option String) : Except ConfigError Config := do
  let maxPageSize ← match lookup pageSizeVariable with
    | some text => ((Text.readUInt32 text).mapError (.pageSize text)).map some
    | none => .ok standard.maxPageSize
  let joinKind ← match lookup "RUSTODATA_JOIN_KIND" with
    | some text => JoinKind.read text
    | none => .ok standard.joinKind
  return {
    entityAliasPrefix := (lookup "RUSTODATA_ENTITY_ALIAS_PREFIX").getD standard.entityAliasPrefix
    relationshipAliasPrefix :=
      (lookup "RUSTODATA_RELATIONSHIP_ALIAS_PREFIX").getD standard.relationshipAliasPrefix
    maxPageSize
    joinKind
    logLevel := (lookup "LOG_LEVEL").getD standard.logLevel }

/-- An alias prefix must be a non-empty text of letters. -/
def validatePrefix (kind : AliasKind) (text : String) : Except ConfigError Unit :=
  if Text.isLetters text then .ok () else .error (.aliasPrefix kind text)

/-- Whether aliases are identifiers that cannot be taken for each other, case aside, and pages can
hold something. -/
def validate (c : Config) : Except ConfigError Unit := do
  validatePrefix .entity c.entityAliasPrefix
  validatePrefix .relationship c.relationshipAliasPrefix
  if Text.equalIgnoringCase c.entityAliasPrefix c.relationshipAliasPrefix then
    .error (.equalPrefixes c.entityAliasPrefix)
  else if c.maxPageSize = some 0 then .error .zeroPageSize
  else .ok ()

end Config

end EntityQuery
