import EntityQuery.Literal.Numeral
import EntityQuery.Literal.Typed
import EntityQuery.Text.Blank
import EntityQuery.Token.Basic

/-!
# Cutting an expression into tokens

Blanks separate tokens and are dropped. At any other character a piece of text is cut off, which
starts with that character: a piece has a content, or it is no token and ends the work.
-/

namespace EntityQuery

/-- The piece of text at the start of a text: its content, or none if it is no token, and the number
of characters that it has after its first one. -/
structure Piece where
  content : Option TokenContent
  extra : Nat
  deriving DecidableEq, Repr

namespace Piece

/-- The piece of a numeral. A numeral that runs into a word is no token, and neither is the word. -/
def numeral (c : Char) (cs : List Char) : Piece :=
  let (n, rest) := Numeral.scan (c :: cs)
  let tail := rest.takeWhile Text.isWordPart
  if tail.isEmpty then ⟨n.literal?.map .literal, n.chars.length - 1⟩
  else ⟨none, n.chars.length + tail.length - 1⟩

/-- The content of a word on its own. -/
def wordContent (word : List Char) : TokenContent :=
  if word = "null".toList then .literal .null
  else if word = "true".toList then .literal (.boolean true)
  else if word = "false".toList then .literal (.boolean false)
  else .identifier

/-- The piece of a word, with the quoted text after it if the word announces one. -/
def word (c : Char) (cs : List Char) : Piece :=
  let tail := cs.takeWhile Text.isWordPart
  match LiteralTag.ofWord? (c :: tail), cs.drop tail.length with
  | some tag, '\'' :: rest =>
    match Text.unquote rest with
    | some (body, n) => ⟨(tag.literal? body).map .literal, tail.length + 1 + n⟩
    | none => ⟨none, cs.length⟩
  | _, _ => ⟨some (wordContent (c :: tail)), tail.length⟩

/-- The piece of a quoted text. -/
def quotedText (cs : List Char) : Piece :=
  match Text.unquote cs with
  | some (content, n) => ⟨some (.literal (.string (String.ofList content))), n⟩
  | none => ⟨none, cs.length⟩

/-- The piece at a character that is not blank. -/
def first (c : Char) (cs : List Char) : Piece :=
  if c = '(' then ⟨some .openParen, 0⟩
  else if c = ')' then ⟨some .closeParen, 0⟩
  else if c = ',' then ⟨some .comma, 0⟩
  else if c = '/' then ⟨some .slash, 0⟩
  else if c = '.' then ⟨some .dot, 0⟩
  else if c = '\'' then quotedText cs
  else if c = '-' then if cs.head?.any Char.isDigit then numeral c cs else ⟨some .minus, 0⟩
  else if c.isDigit then numeral c cs
  else if Text.isWordStart c then word c cs
  else ⟨none, 0⟩

end Piece

/-- The number of bytes of a text. -/
def utf8Size (cs : List Char) : Nat := cs.foldr (fun c size => c.utf8Size + size) 0

/-- The characters of the first `n` bytes of a text, if a character ends there. -/
def takeBytes? : Nat → List Char → Option (List Char)
  | 0, _ => some []
  | _ + 1, [] => none
  | n + 1, c :: cs =>
    if c.utf8Size ≤ n + 1 then (takeBytes? (n + 1 - c.utf8Size) cs).map (c :: ·) else none

/-- The error at the start of a text of which `size` bytes are no token. It names a byte or more of
the text and no more than there are, and nothing if a character is cut. -/
def LexicalError.within (position : Nat) (text : List Char) (size : Nat) : LexicalError :=
  ⟨position, String.ofList ((takeBytes? (min (max size 1) (utf8Size text)) text).getD [])⟩

/-- The tokens of a text that starts at the given byte offset. -/
def tokensFrom (position : Nat) : List Char → Except LexicalError (List Token)
  | [] => .ok []
  | c :: cs =>
    if Text.isBlank c then tokensFrom (position + c.utf8Size) cs
    else
      let piece := Piece.first c cs
      let text := c :: cs.take piece.extra
      match piece.content with
      | none => .error (.within position (c :: cs) (utf8Size text))
      | some content =>
        match tokensFrom (position + utf8Size text) (cs.drop piece.extra) with
        | .error e => .error e
        | .ok tokens => .ok (⟨content, position, String.ofList text⟩ :: tokens)
termination_by cs => cs.length
decreasing_by
  · simp
  · simp only [List.length_drop, List.length_cons]
    omega

/-- The tokens of an expression. -/
def tokenize (input : String) : Except LexicalError (List Token) := tokensFrom 0 input.toList

end EntityQuery
