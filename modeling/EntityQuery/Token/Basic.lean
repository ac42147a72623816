import EntityQuery.Literal.Basic

/-!
# Tokens

A token is a piece of an expression's text with the byte offset it starts at. Operators and method
names are identifiers; what they mean is for the parser to find out.
-/

namespace EntityQuery

/-- The kinds of tokens. -/
inductive TokenKind where
  | literal
  | identifier
  | openParen
  | closeParen
  | comma
  | slash
  | dot
  | minus
  deriving DecidableEq, Repr

/-- How an error message names a kind. -/
def TokenKind.text : TokenKind → String
  | .literal => "literal"
  | .identifier => "identifier"
  | .openParen => "'('"
  | .closeParen => "')'"
  | .comma => "','"
  | .slash => "'/'"
  | .dot => "'.'"
  | .minus => "'-'"

/-- What a token stands for; only a literal has more to it than its text. -/
inductive TokenContent where
  | literal (value : Literal)
  | identifier
  | openParen
  | closeParen
  | comma
  | slash
  | dot
  | minus
  deriving DecidableEq, Repr

/-- The kind of a content. -/
def TokenContent.kind : TokenContent → TokenKind
  | .literal _ => .literal
  | .identifier => .identifier
  | .openParen => .openParen
  | .closeParen => .closeParen
  | .comma => .comma
  | .slash => .slash
  | .dot => .dot
  | .minus => .minus

/-- A content, the byte offset of its text, and the text. -/
structure Token where
  content : TokenContent
  position : Nat
  text : String
  deriving DecidableEq, Repr

namespace Token

/-- The kind of a token. -/
def kind (t : Token) : TokenKind := t.content.kind

/-- The literal of a literal token. -/
def literal? (t : Token) : Option Literal :=
  match t.content with
  | .literal value => some value
  | _ => none

/-- Whether the token is the identifier `word`. -/
def isWord (t : Token) (word : String) : Bool := t.kind == .identifier && t.text == word

end Token

/-- The text at a position is no token. -/
structure LexicalError where
  position : Nat
  text : String
  deriving DecidableEq, Repr

/-- The wording of a lexical error. -/
def LexicalError.message (e : LexicalError) : String :=
  "Invalid token at position " ++ e.position.repr ++ ": '" ++ e.text ++ "'"

end EntityQuery
