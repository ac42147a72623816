import EntityQuery.Text.Alphabetic
import EntityQuery.Text.Numeric

/-!
# Characters of a word

A word starts with an alphabetic character or `_` and goes on with these and with numeric
characters.
-/

namespace EntityQuery.Text

/-- A character that can start a word. -/
def isWordStart (c : Char) : Bool := isAlphabetic c || c == '_'

/-- A character that can continue a word. -/
def isWordPart (c : Char) : Bool := isAlphabetic c || isNumeric c || c == '_'

/-- Every character that starts a word also continues one. -/
theorem isWordPart_of_isWordStart {c : Char} (h : isWordStart c = true) : isWordPart c = true := by
  simp only [isWordStart, Bool.or_eq_true] at h
  simp only [isWordPart, Bool.or_eq_true]
  rcases h with h | h
  · exact .inl (.inl h)
  · exact .inr h

end EntityQuery.Text
