/-!
# Single-quoted text

A quoted text stands between single quotes, and a quote inside it is written twice.
-/

namespace EntityQuery.Text

/-- Doubles every quote. -/
def doubleQuotes : List Char → List Char
  | [] => []
  | c :: cs => if c = '\'' then '\'' :: '\'' :: doubleQuotes cs else c :: doubleQuotes cs

/-- The quoted form of a text. -/
def quoted (text : String) : String :=
  String.ofList ('\'' :: (doubleQuotes text.toList ++ ['\'']))

/-- Reads the characters after an opening quote: the content, and how many characters were taken up
to and with the closing quote; none if the text ends before it. -/
def unquote : List Char → Option (List Char × Nat)
  | [] => none
  | '\'' :: '\'' :: cs => (unquote cs).map fun (content, n) => ('\'' :: content, n + 2)
  | '\'' :: _ => some ([], 1)
  | c :: cs => (unquote cs).map fun (content, n) => (c :: content, n + 1)

end EntityQuery.Text
