import EntityQuery.Text.Blank
import EntityQuery.Text.Case
import EntityQuery.Text.Digits
import EntityQuery.Text.Pieces
import EntityQuery.Text.Word

/-!
# Log filters

A log filter is a list of directives, divided by commas. A directive is a level, or it says what it
is about and then a level: `target[span{field=value}]=level`, where a target or a span is enough.
Only the form of a filter is checked here; the values of fields are taken as they are.
-/

namespace EntityQuery.LogFilter

/-- The names of levels. -/
def levels : List String := ["off", "error", "warn", "info", "debug", "trace"]

/-- A level is given by its name in any case, or by a number up to 5. -/
def isLevel (text : String) : Bool :=
  levels.any (Text.equalIgnoringCase text) ||
    match Text.readUInt32 text with
    | .ok n => decide (n ≤ 5)
    | .error _ => false

/-- The part of a directive that a character stands in. -/
inductive Region where
  | target
  | span
  | fields
  deriving DecidableEq, Repr

/-- The region after a character. -/
def Region.after (r : Region) (c : Char) : Region :=
  match r with
  | .target => if c = '[' then .span else .target
  | .span => if c = '\x7b' then .fields else if c = ']' then .target else .span
  | .fields => if c = '\x7d' then .span else .fields

/-- The directives of a filter; a comma between fields divides nothing. -/
def directives (r : Region) : List Char → List (List Char)
  | [] => [[]]
  | c :: cs =>
    if c = ',' ∧ r ≠ .fields then [] :: directives .target cs
    else Text.consPiece c (directives (r.after c) cs)

/-- What may follow target and span: nothing, or an equals sign and a level, which may be left out
but not stand among blanks. -/
def isLevelPart (hasBlanks : Bool) : List Char → Bool
  | [] => true
  | '=' :: level => !hasBlanks && (level.isEmpty || isLevel (String.ofList level))
  | _ => false

/-- What may follow an opening bracket: the name of a span, its fields in braces, the closing
bracket, and then a level. -/
def isSpanPart (hasBlanks : Bool) (cs : List Char) : Bool :=
  match cs.dropWhile fun c => c != ']' && c != '\x7b' with
  | ']' :: rest => isLevelPart hasBlanks rest
  | '\x7b' :: rest =>
    match rest.dropWhile (· != '\x7d') with
    | '\x7d' :: ']' :: rest' =>
      (Text.pieces ',' (rest.takeWhile (· != '\x7d'))).all (fun field => !field.isEmpty) &&
        isLevelPart hasBlanks rest'
    | _ => false
  | _ => false

/-- A character that a target may start with. -/
def isTargetStart (c : Char) : Bool := Text.isWordPart c || c == '-' || c == ':'

/-- The text without the blanks around it. -/
def trim (cs : List Char) : List Char :=
  ((cs.dropWhile Text.isBlank).reverse.dropWhile Text.isBlank).reverse

/-- Whether a text is a directive. A text without a level of its own that is no level is a
target. -/
def isDirective (text : List Char) : Bool :=
  let hasBlanks := trim text != text
  match trim text with
  | [] => false
  | c :: cs =>
    if c = '[' then isSpanPart hasBlanks cs
    else if isTargetStart c then
      match cs.dropWhile fun c => c != '=' && c != '[' with
      | '[' :: span => isSpanPart hasBlanks span
      | rest => isLevelPart hasBlanks rest
    else false

/-- Whether a filter can be used; empty directives are passed over. -/
def isValid (text : String) : Bool :=
  (directives .target text.toList).all fun d => d.isEmpty || isDirective d

end EntityQuery.LogFilter
