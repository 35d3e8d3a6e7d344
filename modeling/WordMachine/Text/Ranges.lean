/-!
# Sets of characters given by ranges

A character class of a standard is a list of closed ranges of code points. `inRanges` is its
membership test; the classes themselves stand in modules of their own.
-/

namespace WordMachine.Text

/-- A closed range of code points. -/
abbrev CodeRange := Nat × Nat

/-- Whether the code point `n` lies in one of the closed ranges `rs`. -/
def codeInRanges (rs : List CodeRange) (n : Nat) : Bool :=
  rs.any fun r => r.1 ≤ n && n ≤ r.2

/-- Whether the character `c` lies in one of the closed ranges `rs`. -/
def inRanges (rs : List CodeRange) (c : Char) : Bool :=
  codeInRanges rs c.toNat

theorem inRanges_iff {rs : List CodeRange} {c : Char} :
    inRanges rs c = true ↔ ∃ r ∈ rs, r.1 ≤ c.toNat ∧ c.toNat ≤ r.2 := by
  simp [inRanges, codeInRanges]

end WordMachine.Text
