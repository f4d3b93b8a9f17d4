/-!
# Runs of code points

Large sets of characters are given by the lengths of runs of consecutive code points, from zero on:
one that lies outside the set, one inside, and so on in turn.
-/

namespace MolangCompiler

/-- Whether a code point lies in a set that is given by the lengths of its runs. -/
def inRuns : List Nat → Nat → Bool
  | outside :: inside :: rest, n =>
    if n < outside then false
    else if n < outside + inside then true
    else inRuns rest (n - (outside + inside))
  | _, _ => false

end MolangCompiler
