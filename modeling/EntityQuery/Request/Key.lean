import EntityQuery.Model.Basic
import EntityQuery.Request.Basic
import EntityQuery.Token.Lexer

/-!
# Keys of entities

The key predicates of a request must give every key property of an entity type exactly one value,
and the value must be a literal that the property can hold.
-/

namespace EntityQuery

/-- Why key predicates do not address an entity. -/
inductive KeyFault where
  | undefinedProperty
  | unnamedCount (count : Nat)
  | mixed
  | notKey (name : String)
  | givenTwice (name : String)
  | missing (name : String)
  | lexical (cause : LexicalError)
  | notLiteral (text : String)
  | notPrimitive (name : String)
  | notNullable (name : String)
  | wrongType (text : String) (type : SimpleType) (name : String)
  | tooLong (text : String) (maxLength : UInt32) (name : String)
  deriving DecidableEq, Repr

/-- The wording of the fault. -/
def KeyFault.message : KeyFault → String
  | .undefinedProperty => "key refers to an undefined property"
  | .unnamedCount count =>
    "an unnamed key value needs exactly one key property, found " ++ count.repr
  | .mixed => "named and unnamed key values cannot be mixed"
  | .notKey name => "'" ++ name ++ "' is not a key property"
  | .givenTwice name => "key property '" ++ name ++ "' given twice"
  | .missing name => "missing value for key property '" ++ name ++ "'"
  | .lexical cause => cause.message
  | .notLiteral text => "'" ++ text ++ "' is not a literal"
  | .notPrimitive name => "key property '" ++ name ++ "' is not primitive"
  | .notNullable name => "key property '" ++ name ++ "' is not nullable"
  | .wrongType text type name =>
    text ++ " is not a valid " ++ type.name ++ " for key property '" ++ name ++ "'"
  | .tooLong text maxLength name =>
    text ++ " exceeds the maximum length " ++ maxLength.toNat.repr ++ " of key property '" ++
      name ++
      "'"

/-- A key property and its value. -/
structure ResolvedKey where
  property : Property
  value : Literal
  deriving DecidableEq, Repr

/-- A key property and the text given for it so far. -/
structure KeySlot where
  property : Property
  text : Option String
  deriving DecidableEq, Repr

namespace KeySlot

/-- Puts a text into the first slot of a name. -/
def fill (name text : String) : List KeySlot → Except KeyFault (List KeySlot)
  | [] => .error (.notKey name)
  | slot :: rest =>
    if slot.property.name = name then
      match slot.text with
      | none => .ok ({ slot with text := some text } :: rest)
      | some _ => .error (.givenTwice name)
    else (fill name text rest).map fun slots => slot :: slots

/-- Puts the texts of named predicates into their slots. -/
def fillAll (slots : List KeySlot) : List KeyPredicate → Except KeyFault (List KeySlot)
  | [] => .ok slots
  | ⟨none, _⟩ :: _ => .error .mixed
  | ⟨some name, text⟩ :: rest =>
    match fill name text slots with
    | .error e => .error e
    | .ok slots => fillAll slots rest

/-- The slots of key properties, filled by predicates. One predicate may leave out the name of the
only key property. -/
def assign (properties : List Property) (predicates : List KeyPredicate) :
    Except KeyFault (List KeySlot) :=
  match predicates with
  | [⟨none, text⟩] =>
    match properties with
    | [p] => .ok [⟨p, some text⟩]
    | _ => .error (.unnamedCount properties.length)
  | _ => fillAll (properties.map fun p => ⟨p, none⟩) predicates

/-- The literal that a text is. -/
def readLiteral (text : String) : Except KeyFault Literal :=
  match tokenize text with
  | .error e => .error (.lexical e)
  | .ok [t] =>
    match t.literal? with
    | some value => .ok value
    | none => .error (.notLiteral text)
  | .ok _ => .error (.notLiteral text)

/-- Whether a property can hold a literal that was written as `text`. -/
def check (p : Property) (value : Literal) (text : String) : Except KeyFault Unit :=
  match p.type with
  | .complex _ => .error (.notPrimitive p.name)
  | .simple type =>
    if value.isNull then
      if p.facets.isNullable then .ok () else .error (.notNullable p.name)
    else if type.accepts value.type then
      match p.facets.maxLength, value.length? with
      | some maxLength, some length =>
        if maxLength.toNat < length then .error (.tooLong text maxLength p.name) else .ok ()
      | _, _ => .ok ()
    else .error (.wrongType text type p.name)

/-- The key of a slot. -/
def resolve (slot : KeySlot) : Except KeyFault ResolvedKey :=
  match slot.text with
  | none => .error (.missing slot.property.name)
  | some text =>
    match readLiteral text with
    | .error e => .error e
    | .ok value => (check slot.property value text).map fun () => ⟨slot.property, value⟩

/-- The keys of all slots; the first fault decides. -/
def resolveAll : List KeySlot → Except KeyFault (List ResolvedKey)
  | [] => .ok []
  | slot :: rest =>
    match resolve slot with
    | .error e => .error e
    | .ok key => (resolveAll rest).map fun keys => key :: keys

end KeySlot

/-- The key values that predicates give to an entity type, in the order of its key. -/
def resolveKeys (t : EntityType) (predicates : List KeyPredicate) :
    Except KeyFault (List ResolvedKey) :=
  if predicates.isEmpty then .ok []
  else if t.keyProperties.length ≠ t.key.length then .error .undefinedProperty
  else
    match KeySlot.assign t.keyProperties predicates with
    | .error e => .error e
    | .ok slots => KeySlot.resolveAll slots

end EntityQuery
