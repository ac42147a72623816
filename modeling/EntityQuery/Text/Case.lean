/-!
# Letters and their case

Only the letters `A` to `Z` and `a` to `z` have a case here, as in the keywords this is for.
-/

namespace EntityQuery.Text

/-- Whether two texts differ at most in the case of their letters. -/
def equalIgnoringCase (a b : String) : Bool :=
  a.toList.map Char.toLower == b.toList.map Char.toLower

/-- A non-empty text of letters. -/
def isLetters (text : String) : Bool := !text.toList.isEmpty && text.toList.all Char.isAlpha

end EntityQuery.Text
