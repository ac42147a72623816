import EntityQuery.Text.Hex

/-!
# Globally unique identifiers

Sixteen bytes, written as lower-case hexadecimal digits in groups of 8, 4, 4, 4 and 12.
-/

namespace EntityQuery

/-- Sixteen bytes. -/
structure Guid where
  bytes : List UInt8
  deriving DecidableEq, Repr

namespace Guid

/-- The groups of digits joined by hyphens. -/
def text (g : Guid) : String :=
  let group (start size : Nat) : String := Text.hexText ((g.bytes.drop start).take size)
  group 0 4 ++ "-" ++ group 4 2 ++ "-" ++ group 6 2 ++ "-" ++ group 8 2 ++ "-" ++ group 10 6

/-- Reads thirty-two digits. -/
def ofDigits? (cs : List Char) : Option Guid :=
  if cs.length = 32 then (Text.hexBytes? cs).map Guid.mk else none

/-- Reads five groups of digits joined by hyphens. -/
def ofGroups? (cs : List Char) : Option Guid :=
  if cs.length = 36 ∧ [8, 13, 18, 23].all (fun i => cs[i]? == some '-') then
    ofDigits? (cs.take 8 ++ (cs.drop 9).take 4 ++ (cs.drop 14).take 4 ++ (cs.drop 19).take 4 ++
      cs.drop 24)
  else none

/-- The name that may stand before the groups. -/
def urnName : List Char := "urn:uuid:".toList

/-- Reads a GUID: plain digits, groups, groups in braces, or groups after `urn:uuid:` in any
case. -/
def ofText? (cs : List Char) : Option Guid :=
  if cs.length = 32 then ofDigits? cs
  else if cs.length = 38 ∧ cs.head? = some '\x7b' ∧ cs.getLast? = some '\x7d' then
    ofGroups? ((cs.drop 1).take 36)
  else if cs.length = 45 ∧ (cs.take 9).map Char.toLower = urnName then ofGroups? (cs.drop 9)
  else ofGroups? cs

end Guid

end EntityQuery
