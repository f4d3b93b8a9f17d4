import MolangCompiler.Number.Scaled

/-!
# Integers next to a double, and remainders

Rounding to an integer and taking a remainder are exact: both are computed on the significand.
An integer result of zero is the positive zero; a remainder has the sign of the dividend.
-/

namespace MolangCompiler

namespace Scaled

/-- The largest integer that is not above the number. -/
def floor (s : Scaled) : Int :=
  if s.negative && !s.isIntegral then s.truncate - 1 else s.truncate

/-- The smallest integer that is not below the number. -/
def ceil (s : Scaled) : Int :=
  if !s.negative && !s.isIntegral then s.truncate + 1 else s.truncate

/-- The remainder of the division that rounds its quotient toward zero. -/
def remainder (a b : Scaled) : Scaled :=
  let e := min a.exponent b.exponent
  let m := a.significand * twoTo (a.exponent - e).toNat
  let n := b.significand * twoTo (b.exponent - e).toNat
  ⟨a.negative, m % n, e⟩

end Scaled

/-- The double moved to an integer chosen by `pick`; infinities and not-a-number stay as they
are, and so do doubles without a fractional part. -/
def toIntegral (pick : Scaled → Int) (x : Float) : Float :=
  match Scaled.ofFloat? x with
  | none => x
  | some s => if 0 ≤ s.exponent then x else doubleOfInt (pick s)

/-- Whether a double is an integer. -/
def isInteger (x : Float) : Bool :=
  match Scaled.ofFloat? x with
  | none => false
  | some s => s.isIntegral

end MolangCompiler
