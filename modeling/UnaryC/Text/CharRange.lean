/-! Ranges of characters, by code point, and classes of characters given as lists of ranges. -/
namespace UnaryC.Text

/-- The code points from `first` to `last`, both included. -/
structure CharRange where
  first : Nat
  last : Nat

namespace CharRange

def contains (r : CharRange) (c : Char) : Bool :=
  decide (r.first ≤ c.toNat) && decide (c.toNat ≤ r.last)

/-- Membership in the class that a list of ranges makes up. -/
def anyContains (ranges : List CharRange) (c : Char) : Bool :=
  ranges.any (·.contains c)

theorem contains_iff {r : CharRange} {c : Char} :
    r.contains c = true ↔ r.first ≤ c.toNat ∧ c.toNat ≤ r.last := by
  simp [contains]

theorem anyContains_iff {ranges : List CharRange} {c : Char} :
    anyContains ranges c = true ↔ ∃ r ∈ ranges, r.first ≤ c.toNat ∧ c.toNat ≤ r.last := by
  simp [anyContains, contains_iff]

end CharRange

end UnaryC.Text
