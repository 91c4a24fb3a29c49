/-!
# Source regions

The line and column range an element was read from, ends included. A region whose first line is 0 points nowhere and contains no position.
-/

namespace NedCheck

structure Region where
  startLine : Nat := 0
  startColumn : Nat := 0
  endLine : Nat := 0
  endColumn : Nat := 0
deriving DecidableEq, Repr, Inhabited

namespace Region

def isEmpty (region : Region) : Bool := region.startLine = 0

/-- Positions are ordered by line, then by column. -/
def contains (region : Region) (line column : Nat) : Bool :=
  !region.isEmpty && region.startLine ≤ line && line ≤ region.endLine &&
    !(line = region.startLine && column < region.startColumn) &&
    !(line = region.endLine && region.endColumn < column)

theorem not_contains_of_isEmpty {region : Region} (h : region.isEmpty = true) (line column : Nat) :
    region.contains line column = false := by
  simp [contains, h]

end Region

end NedCheck
