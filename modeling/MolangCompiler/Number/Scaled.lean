/-!
# Doubles as scaled integers

A finite double is a signed significand times a power of two.  `Scaled` holds the three parts, so
that rounding, remainders and decimal digits can be computed exactly on natural numbers.
`Scaled.ofFloat?` takes a double apart and `Scaled.toFloat` puts one together again.
-/

namespace MolangCompiler

/-- Two to the power of `n`. -/
def twoTo (n : Nat) : Nat := Nat.pow 2 n

theorem twoTo_succ (n : Nat) : twoTo (n + 1) = twoTo n * 2 := rfl

theorem twoTo_pos (n : Nat) : 0 < twoTo n := Nat.pow_pos (by decide)

/-- Ten to the power of `n`. -/
def tenTo (n : Nat) : Nat := Nat.pow 10 n

/-- The number `± significand · 2 ^ exponent`. -/
structure Scaled where
  negative : Bool
  significand : Nat
  exponent : Int
  deriving Repr, DecidableEq

namespace Scaled

/-- The bit patterns of a double's sign. -/
def signBits (negative : Bool) : Nat := if negative then twoTo 63 else 0

/-- The infinity of the given sign. -/
def infinity (negative : Bool) : Float :=
  Float.ofBits (UInt64.ofNat (signBits negative + 2047 * twoTo 52))

/-- The parts of a finite double; `none` for infinities and for not-a-number. -/
def ofFloat? (x : Float) : Option Scaled :=
  let bits := x.toBits.toNat
  let negative := decide (twoTo 63 ≤ bits)
  let field : Nat := bits / twoTo 52 % 2048
  let fraction : Nat := bits % twoTo 52
  if field = 2047 then none
  else if field = 0 then some ⟨negative, fraction, -1074⟩
  else some ⟨negative, fraction + twoTo 52, field - 1075⟩

/-- The double with the given parts, whose significand has at most 53 bits and whose exponent is
at least -1074.  Values of `2 ^ 1024` and beyond become infinite. -/
def toFloat (s : Scaled) : Float :=
  let top := s.exponent + s.significand.log2
  if s.significand = 0 then Float.ofBits (UInt64.ofNat (signBits s.negative))
  else if 1024 ≤ top then infinity s.negative
  else if top < -1022 then
    Float.ofBits (UInt64.ofNat
      (signBits s.negative + s.significand * twoTo (s.exponent + 1074).toNat))
  else
    Float.ofBits (UInt64.ofNat
      (signBits s.negative + (top + 1022).toNat * twoTo 52
        + s.significand * twoTo (52 - s.significand.log2)))

/-- The integer next to the scaled number in the direction of zero. -/
def truncate (s : Scaled) : Int :=
  let size := s.significand * twoTo s.exponent.toNat / twoTo (-s.exponent).toNat
  if s.negative then -Int.ofNat size else Int.ofNat size

/-- Whether the scaled number is an integer. -/
def isIntegral (s : Scaled) : Bool :=
  s.significand % twoTo (-s.exponent).toNat == 0

end Scaled

/-- Not-a-number. -/
def notANumber : Float := Float.ofBits 0x7FF8000000000000

/-- An integer of at most 53 bits as a double; zero is the positive zero. -/
def doubleOfInt (n : Int) : Float := Scaled.toFloat ⟨decide (n < 0), n.natAbs, 0⟩

end MolangCompiler
