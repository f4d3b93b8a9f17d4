/-!
# Blank characters

The characters that a text may consist of and still count as empty: the white space of Unicode
together with the four ASCII separators.
-/

namespace MolangCompiler

/-- Ranges of blank code points, in increasing order. -/
def blankRanges : List (Nat × Nat) := [
  (9, 13), (28, 32), (133, 133), (160, 160), (5760, 5760), (8192, 8202), (8232, 8233),
  (8239, 8239), (8287, 8287), (12288, 12288)]

/-- Whether a character is blank. -/
def isBlank (c : Char) : Bool :=
  blankRanges.any fun r => decide (r.1 ≤ c.toNat ∧ c.toNat ≤ r.2)

end MolangCompiler
