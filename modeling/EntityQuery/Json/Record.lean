import EntityQuery.Json.Basic
import EntityQuery.Text.Digits

/-!
# Records in JSON documents

A record is written as an object, in which unknown members are passed over and a known one stands at
most once, or as an array of its fields in their order, of which the last ones may be missing.
-/

namespace EntityQuery.Json

/-- The value of the first member of a name. -/
def member? (name : String) : List (String × Json) → Option Json
  | [] => none
  | (n, v) :: ms => if n = name then some v else member? name ms

/-- How many members have a name. -/
def memberCount (name : String) (members : List (String × Json)) : Nat :=
  (members.filter fun m => m.1 == name).length

/-- The values of the named fields, in the order of the names; a field may be missing. -/
def fields? (names : List String) : Json → Option (List (Option Json))
  | .object members =>
    if names.all (fun name => decide (memberCount name members ≤ 1)) then
      some (names.map fun name => member? name members)
    else none
  | .array items =>
    if items.length ≤ names.length then
      some (items.map some ++ List.replicate (names.length - items.length) none)
    else none
  | _ => none

/-- A field that must be present. -/
def required {α : Type} (read : Json → Option α) : Option Json → Option α
  | none => none
  | some v => read v

/-- A field with a value for its absence. -/
def defaulted {α : Type} (value : α) (read : Json → Option α) : Option Json → Option α
  | none => some value
  | some v => read v

/-- A field that may be absent or null. -/
def optional {α : Type} (read : Json → Option α) : Option Json → Option (Option α)
  | none => some none
  | some .null => some none
  | some v => (read v).map some

/-- A string. -/
def string? : Json → Option String
  | .string s => some s
  | _ => none

/-- A truth value. -/
def bool? : Json → Option Bool
  | .bool b => some b
  | _ => none

/-- A natural number of 32 bits. -/
def uint32? : Json → Option UInt32
  | .number (.natural n) => if n ≤ Text.maxUInt32 then some (UInt32.ofNat n) else none
  | _ => none

/-- Reads every value of a list. -/
def each? {α : Type} (read : Json → Option α) : List Json → Option (List α)
  | [] => some []
  | v :: vs =>
    match read v, each? read vs with
    | some a, some as => some (a :: as)
    | _, _ => none

/-- An array of readable values. -/
def list? {α : Type} (read : Json → Option α) : Json → Option (List α)
  | .array items => each? read items
  | _ => none

/-- A name that stands for a value: a string, or an object with the name as its one member, which is
null. -/
def name? : Json → Option String
  | .string s => some s
  | .object [(s, .null)] => some s
  | _ => none

/-- The number of a 32-bit field. -/
def ofUInt32 (n : UInt32) : Json := .natural n.toNat

/-- An array of strings. -/
def ofStrings (items : List String) : Json := .array (items.map .string)

end EntityQuery.Json
