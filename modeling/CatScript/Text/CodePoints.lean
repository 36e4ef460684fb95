/-! # Sets of code points

A set of characters is written as a list of closed ranges of code points.  `covers_iff` says that a
character is in the set exactly when one of the ranges holds its code point. -/
set_option autoImplicit false
namespace CatScript.Text

def covers (ranges : List (Nat × Nat)) (c : Char) : Bool :=
  ranges.any fun range => range.1 ≤ c.toNat && c.toNat ≤ range.2

theorem covers_iff (ranges : List (Nat × Nat)) (c : Char) :
    covers ranges c = true ↔ ∃ range ∈ ranges, range.1 ≤ c.toNat ∧ c.toNat ≤ range.2 := by
  simp [covers]

end CatScript.Text
