/-!
# Classes of characters as ranges of code points

A class that follows no formula is a list of ranges, both ends included.
-/

namespace Schemata
namespace Text

/-- First and last code points of the runs that make up a class. -/
abbrev Ranges := List (Nat × Nat)

/-- Membership of a character in a class. -/
def Ranges.contains (ranges : Ranges) (c : Char) : Bool :=
  ranges.any fun range => range.1 ≤ c.toNat && c.toNat ≤ range.2

theorem Ranges.contains_iff {ranges : Ranges} {c : Char} :
    ranges.contains c = true ↔ ∃ range ∈ ranges, range.1 ≤ c.toNat ∧ c.toNat ≤ range.2 := by
  simp [Ranges.contains]

end Text
end Schemata
