/-!
# Pieces of a text

A mark that occurs `n` times divides a text into `n + 1` pieces, some of which may be empty.
-/

namespace EntityQuery.Text

/-- Puts a character before the first piece. -/
def consPiece (c : Char) : List (List Char) → List (List Char)
  | [] => [[c]]
  | piece :: rest => (c :: piece) :: rest

/-- The pieces between the marks. -/
def pieces (mark : Char) : List Char → List (List Char)
  | [] => [[]]
  | c :: cs => if c = mark then [] :: pieces mark cs else consPiece c (pieces mark cs)

end EntityQuery.Text
