/-!
# JSON values

An object keeps its members in the order they are written, repeated names among them. Of the numbers
only the natural ones, written as plain digits, have a value here; all others keep their text. So
does what is well formed but stands for no text.
-/

namespace EntityQuery

/-- A number. -/
inductive JsonNumber where
  | natural (value : Nat)
  | other (text : String)
  deriving DecidableEq, Repr

/-- A JSON value. A string that escapes half of a surrogate pair, and an object with such a name,
are kept as they are written: they may be passed over, but nothing can be read from them. -/
inductive Json where
  | null
  | bool (value : Bool)
  | number (value : JsonNumber)
  | string (value : String)
  | array (items : List Json)
  | object (members : List (String × Json))
  | verbatim (text : String)
  deriving Repr

namespace Json

/-- A natural number. -/
def natural (n : Nat) : Json := .number (.natural n)

/-- The members that are present, as an object. -/
def ofMembers (members : List (String × Option Json)) : Json :=
  .object (members.filterMap fun (name, value?) => value?.map fun value => (name, value))

/-- A list, left out where it is empty. -/
def nonEmpty (items : List Json) : Option Json :=
  if items.isEmpty then none else some (.array items)

end Json

end EntityQuery
