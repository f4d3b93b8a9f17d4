import MolangCompiler.Number.Scaled

/-!
# Single precision

Every value that a routine computes is rounded to single precision: 24 significant bits, no bit
below `2 ^ -149`, ties to the even neighbour, and infinity from `2 ^ 128` on.  Values stay
doubles, so a rounded value is a fixed point of `single`.
-/

namespace MolangCompiler

/-- `n / 2 ^ k`, rounded to the nearest integer and to the even one of two nearest. -/
def shiftRound (n k : Nat) : Nat :=
  let quotient := n / twoTo k
  let rest := n % twoTo k
  if 2 * rest < twoTo k then quotient
  else if 2 * rest = twoTo k then quotient + quotient % 2
  else quotient + 1

namespace Scaled

/-- How many low bits of the significand single precision has no room for. -/
def excessBits (s : Scaled) : Nat :=
  (max (s.exponent + s.significand.log2 - 23) (-149) - s.exponent).toNat

/-- The nearest number with the bits that single precision has room for. -/
def toSingle (s : Scaled) : Scaled :=
  ⟨s.negative, shiftRound s.significand s.excessBits, s.exponent + s.excessBits⟩

end Scaled

/-- The nearest single precision value of a double. -/
def single (x : Float) : Float :=
  match Scaled.ofFloat? x with
  | none => x
  | some s =>
    let r := s.toSingle
    if r.significand ≠ 0 ∧ 128 ≤ r.exponent + r.significand.log2 then Scaled.infinity s.negative
    else r.toFloat

end MolangCompiler
