import EntityQuery.Json.Basic
import EntityQuery.Text.Digits
import EntityQuery.Text.Hex

/-!
# Reading JSON texts

Each reader takes the characters from where it starts and answers with what it read and with the
number of characters it took. An escape of half a surrogate pair stands for no character, and the
string around it for no text.
-/

namespace EntityQuery.Json

/-- The blanks between the parts of a text. -/
def isBlank (c : Char) : Bool := c == ' ' || c == '\n' || c == '\r' || c == '\t'

/-- The number of blanks at the start. -/
def blanks (cs : List Char) : Nat := (cs.takeWhile isBlank).length

/-- The value of four hexadecimal digits at the start. -/
def readUnit? : List Char → Option Nat
  | a :: b :: c :: d :: _ => do
    return 4096 * (← Text.hexValue? a) + 256 * (← Text.hexValue? b) + 16 * (← Text.hexValue? c) +
      (← Text.hexValue? d)
  | _ => none

/-- Reads what follows the `u` of an escape: a character, the two halves of one, or a lone half. -/
def readUnicodeEscape? (cs : List Char) : Option (Option Char × Nat) := do
  let high ← readUnit? cs
  if 0xD800 ≤ high ∧ high < 0xDC00 then
    match cs.drop 4 with
    | '\\' :: 'u' :: rest =>
      match readUnit? rest with
      | some low =>
        if 0xDC00 ≤ low ∧ low < 0xE000 then
          return (some (Char.ofNat (0x10000 + (high - 0xD800) * 0x400 + (low - 0xDC00))), 10)
        else return (none, 4)
      | none => return (none, 4)
    | _ => return (none, 4)
  else if 0xDC00 ≤ high ∧ high < 0xE000 then return (none, 4)
  else return (some (Char.ofNat high), 4)

/-- Reads what follows a backslash. -/
def readEscape? : List Char → Option (Option Char × Nat)
  | '"' :: _ => some (some '"', 1)
  | '\\' :: _ => some (some '\\', 1)
  | '/' :: _ => some (some '/', 1)
  | 'b' :: _ => some (some '\x08', 1)
  | 'f' :: _ => some (some '\x0c', 1)
  | 'n' :: _ => some (some '\n', 1)
  | 'r' :: _ => some (some '\r', 1)
  | 't' :: _ => some (some '\t', 1)
  | 'u' :: cs => (readUnicodeEscape? cs).map fun (c, n) => (c, n + 1)
  | _ => none

/-- A text after a further character, where both are there. -/
def consText (c : Option Char) (content : Option (List Char)) : Option (List Char) :=
  match c, content with
  | some c, some cs => some (c :: cs)
  | _, _ => none

/-- Reads what follows an opening quotation mark, up to and with the closing one. -/
def readString? : List Char → Option (Option (List Char) × Nat)
  | [] => none
  | c :: cs =>
    if c = '"' then some (some [], 1)
    else if c = '\\' then
      match readEscape? cs with
      | none => none
      | some (d, n) =>
        (readString? (cs.drop n)).map fun (content, m) => (consText d content, m + n + 1)
    else if c.toNat < 0x20 then none
    else (readString? cs).map fun (content, m) => (consText (some c) content, m + 1)
termination_by cs => cs.length
decreasing_by
  · simp only [List.length_drop, List.length_cons]
    omega
  · simp

/-- Members after a further one, where it has a name. -/
def consMember (name : Option (List Char)) (value : Json)
    (members : Option (List (String × Json))) :
    Option (List (String × Json)) :=
  match name, members with
  | some name, some ms => some ((String.ofList name, value) :: ms)
  | _, _ => none

/-- The number of characters of an optional fraction; none if its point has no digit after it. -/
def fractionSize? : List Char → Option Nat
  | '.' :: cs =>
    let n := (cs.takeWhile Char.isDigit).length
    if n = 0 then none else some (n + 1)
  | _ => some 0

/-- The number of characters of an optional exponent; none if it has no digit. -/
def exponentSize? : List Char → Option Nat
  | c :: cs =>
    if c = 'e' ∨ c = 'E' then
      let sign := match cs with
        | s :: _ => if s = '+' ∨ s = '-' then 1 else 0
        | [] => 0
      let n := ((cs.drop sign).takeWhile Char.isDigit).length
      if n = 0 then none else some (n + sign + 1)
    else some 0
  | [] => some 0

/-- Reads a number. -/
def readNumber? (cs : List Char) : Option (JsonNumber × Nat) := do
  let sign := if cs.head? = some '-' then 1 else 0
  let digits := (cs.drop sign).takeWhile Char.isDigit
  if digits.isEmpty || (decide (1 < digits.length) && digits.head? == some '0') then none
  else
    let size := sign + digits.length
    let fraction ← fractionSize? (cs.drop size)
    let exponent ← exponentSize? (cs.drop (size + fraction))
    if sign + fraction + exponent = 0 then return (.natural (Text.digitsValue digits), size)
    else
      let total := size + fraction + exponent
      return (.other (String.ofList (cs.take total)), total)

/-- Reads one of the three words. -/
def readWord? (cs : List Char) : Option (Json × Nat) :=
  if "null".toList.isPrefixOf cs then some (.null, 4)
  else if "true".toList.isPrefixOf cs then some (.bool true, 4)
  else if "false".toList.isPrefixOf cs then some (.bool false, 5)
  else none

mutual

/-- Reads a value after blanks. -/
def readValue? (cs : List Char) : Option (Json × Nat) :=
  match cs with
  | [] => none
  | c :: rest =>
    if isBlank c then (readValue? rest).map fun (v, n) => (v, n + 1)
    else if c = '"' then
      (readString? rest).map fun
        | (some content, n) => (.string (String.ofList content), n + 1)
        | (none, n) => (.verbatim (String.ofList (cs.take (n + 1))), n + 1)
    else if c = '[' then
      let k := blanks rest
      if rest[k]? = some ']' then some (.array [], k + 2)
      else (readItems? rest).map fun (items, n) => (.array items, n + 1)
    else if c = '\x7b' then
      let k := blanks rest
      if rest[k]? = some '\x7d' then some (.object [], k + 2)
      else
        (readMembers? rest).map fun
          | (some members, n) => (.object members, n + 1)
          | (none, n) => (.verbatim (String.ofList (cs.take (n + 1))), n + 1)
    else if c = '-' ∨ c.isDigit then
      (readNumber? cs).map fun (value, n) => (.number value, n)
    else readWord? cs
termination_by 2 * cs.length

/-- Reads the items of an array and its closing bracket. -/
def readItems? (cs : List Char) : Option (List Json × Nat) :=
  match readValue? cs with
  | none => none
  | some (v, n) =>
    let k := n + blanks (cs.drop n)
    match h : cs.drop k with
    | ']' :: _ => some ([v], k + 1)
    | ',' :: rest => (readItems? rest).map fun (vs, m) => (v :: vs, k + 1 + m)
    | _ => none
termination_by 2 * cs.length + 1
decreasing_by
  · omega
  · have := congrArg List.length h
    simp only [List.length_drop, List.length_cons] at this
    omega

/-- Reads the members of an object and its closing brace. -/
def readMembers? (cs : List Char) : Option (Option (List (String × Json)) × Nat) :=
  let start := blanks cs
  match _hs : cs.drop start with
  | '"' :: nameText =>
    match readString? nameText with
    | none => none
    | some (name, size) =>
      let colon := size + blanks (nameText.drop size)
      match _hc : nameText.drop colon with
      | ':' :: valueText =>
        match readValue? valueText with
        | none => none
        | some (v, n) =>
          let k := n + blanks (valueText.drop n)
          let total := start + colon + k + 3
          match _hv : valueText.drop k with
          | '\x7d' :: _ => some (consMember name v (some []), total)
          | ',' :: rest => (readMembers? rest).map fun (ms, m) => (consMember name v ms, total + m)
          | _ => none
      | _ => none
  | _ => none
termination_by 2 * cs.length
decreasing_by
  · have h1 := congrArg List.length _hs
    have h2 := congrArg List.length _hc
    simp only [List.length_drop, List.length_cons] at h1 h2
    omega
  · have h1 := congrArg List.length _hs
    have h2 := congrArg List.length _hc
    have h3 := congrArg List.length _hv
    simp only [List.length_drop, List.length_cons] at h1 h2 h3
    omega

end

/-- Reads a text that is one value between blanks. -/
def parse? (text : String) : Option Json :=
  let cs := text.toList
  match readValue? cs with
  | none => none
  | some (v, n) => if (cs.drop n).all isBlank then some v else none

end EntityQuery.Json
