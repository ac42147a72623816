import EntityQuery.Token.Lexer

/-!
# Token streams

A stream is a cursor between the tokens already taken and those still to come, over an input whose
length in bytes is the position after the last token. A token is taken off the front of the tokens
to come, and whoever reads them is left with fewer.
-/

namespace EntityQuery

/-- What stands where a token was looked for. -/
inductive Found where
  | token (text : String)
  | endOfInput
  deriving DecidableEq, Repr

/-- How an error message names what was found. -/
def Found.text : Found → String
  | .token text => "'" ++ text ++ "'"
  | .endOfInput => "end of input"

/-- What was looked for: a kind of token, or an expression. -/
inductive Expected where
  | kind (value : TokenKind)
  | expression
  deriving DecidableEq, Repr

/-- How an error message names what was looked for. -/
def Expected.text : Expected → String
  | .kind k => k.text
  | .expression => "expression"

/-- Another token than the expected one. -/
structure UnexpectedToken where
  position : Nat
  expected : Expected
  found : Found
  deriving DecidableEq, Repr

/-- The wording of the error. -/
def UnexpectedToken.message (e : UnexpectedToken) : String :=
  "Unexpected token at position " ++ e.position.repr ++ ": expected " ++ e.expected.text ++
    ", found " ++ e.found.text

/-- The position of the first of the tokens, or of the end of the input. -/
def positionOf (inputSize : Nat) : List Token → Nat
  | [] => inputSize
  | t :: _ => t.position

/-- What stands first. -/
def foundOf : List Token → Found
  | [] => .endOfInput
  | t :: _ => .token t.text

/-- The error of tokens that do not start as expected. -/
def unexpected (inputSize : Nat) (expected : Expected) (tokens : List Token) : UnexpectedToken :=
  ⟨positionOf inputSize tokens, expected, foundOf tokens⟩

/-- The tokens left after reading at least one of them. -/
abbrev Shorter (tokens : List Token) := { rest : List Token // rest.length < tokens.length }

/-- The tokens left after reading any number of them. -/
abbrev NoLonger (tokens : List Token) := { rest : List Token // rest.length ≤ tokens.length }

/-- The first of the tokens and those behind it, if it passes the test. -/
def takeIf? (test : Token → Bool) (tokens : List Token) : Option (Token × Shorter tokens) :=
  match tokens with
  | t :: rest => if test t then some (t, ⟨rest, by simp⟩) else none
  | [] => none

/-- The first of the tokens, which must be of the given kind, and those behind it. -/
def takeKind (inputSize : Nat) (kind : TokenKind) (tokens : List Token) :
    Except UnexpectedToken (Token × Shorter tokens) :=
  match takeIf? (fun t => t.kind == kind) tokens with
  | some taken => .ok taken
  | none => .error (unexpected inputSize (.kind kind) tokens)

/-- The tokens taken, the last one first, the tokens to come, and the length of the input. -/
structure TokenStream where
  taken : List Token
  pending : List Token
  inputSize : Nat
  deriving DecidableEq, Repr

namespace TokenStream

/-- The stream at the start of an expression. -/
def ofText (input : String) : Except LexicalError TokenStream :=
  (tokenize input).map fun tokens => ⟨[], tokens, utf8Size input.toList⟩

/-- The token at the cursor. -/
def peek? (s : TokenStream) : Option Token := s.pending.head?

/-- The token taken last. -/
def previous? (s : TokenStream) : Option Token := s.taken.head?

/-- The stream behind a token, where the given ones are still to come. -/
def behind (s : TokenStream) (t : Token) (rest : List Token) : TokenStream :=
  { s with taken := t :: s.taken, pending := rest }

/-- Takes the token at the cursor. -/
def advance (s : TokenStream) : Option Token × TokenStream :=
  match takeIf? (fun _ => true) s.pending with
  | some (t, rest) => (some t, s.behind t rest.val)
  | none => (none, s)

/-- The byte offset of the cursor. -/
def position (s : TokenStream) : Nat := positionOf s.inputSize s.pending

/-- Whether all tokens are taken. -/
def isEmpty (s : TokenStream) : Bool := s.pending.isEmpty

/-- Takes the token at the cursor if it passes the test. -/
def acceptIf (s : TokenStream) (test : Token → Bool) : Bool × TokenStream :=
  match takeIf? test s.pending with
  | some (t, rest) => (true, s.behind t rest.val)
  | none => (false, s)

/-- Takes a token of the given kind if it is next. -/
def accept (s : TokenStream) (kind : TokenKind) : Bool × TokenStream :=
  s.acceptIf fun t => t.kind == kind

/-- Takes the given identifier if it is next. -/
def acceptWord (s : TokenStream) (word : String) : Bool × TokenStream :=
  s.acceptIf fun t => t.isWord word

/-- Takes a token of the given kind, which must be next. -/
def expect (s : TokenStream) (kind : TokenKind) : Except UnexpectedToken (Token × TokenStream) :=
  (takeKind s.inputSize kind s.pending).map fun x => (x.1, s.behind x.1 x.2.val)

end TokenStream

end EntityQuery
