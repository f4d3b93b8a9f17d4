import MolangCompiler.Number.Integral
import MolangCompiler.Number.Single

/-!
# Numeric helpers

The functions that routines call by name.  They are made of functions of a library that fail where
they have no value or one that is too large; guards and handlers see to it that none of the helpers
fails on any number.  Arithmetic is done in double precision; the routine rounds the result to
single precision.
-/

namespace MolangCompiler

/-- A numeric helper. -/
inductive Helper where
  | div | mod | pow | sqrt | ln | exp | sin | cos | atan2 | round | floor | ceil | trunc
  | abs | min | max | single
  deriving Repr, DecidableEq, Inhabited

namespace Helper

/-- All helpers. -/
def all : List Helper :=
  [div, mod, pow, sqrt, ln, exp, sin, cos, atan2, round, floor, ceil, trunc, abs, min, max, single]

/-- The name by which a routine calls a helper. -/
def name : Helper → String
  | div => "_div" | mod => "_mod" | pow => "_pow" | sqrt => "_sqrt" | ln => "_ln" | exp => "_exp"
  | sin => "_sin" | cos => "_cos" | atan2 => "_atan2" | round => "_round" | floor => "_floor"
  | ceil => "_ceil" | trunc => "_trunc" | abs => "_abs" | min => "_min" | max => "_max"
  | single => "_f32"

/-- The helper called by a name. -/
def ofName? (s : String) : Option Helper := all.find? (·.name == s)

/-- How many numbers a helper takes. -/
def arity : Helper → Nat
  | div | mod | pow | atan2 | min | max => 2
  | _ => 1

/-! ## The numeric library -/

/-- The circle number, in double precision. -/
def circle : Float := 3.141592653589793

/-- The infinity with the sign of `x`. -/
def infinityLike (x : Float) : Float := Scaled.infinity (decide (twoTo 63 ≤ x.toBits.toNat))

/-- Why a function of the library has no value. -/
inductive MathError where
  | domain
  | overflow
  | zeroDivision

namespace Library

/-- The value of a function, too large if it is infinite though its arguments are not. -/
def bounded (arguments : Bool) (x : Float) : Except MathError Float :=
  if arguments && x.isInf then .error .overflow else .ok x

def divide (a b : Float) : Except MathError Float :=
  if b == 0 then .error .zeroDivision else .ok (a / b)

/-- Remainder with the sign of the dividend; there is none of an infinity or for the divisor zero.
-/
def remainder (a b : Float) : Except MathError Float :=
  if (b == 0 && a == a) || (a.isInf && b == b) then .error .domain
  else .ok <| match Scaled.ofFloat? a, Scaled.ofFloat? b with
    | some s, some t => (s.remainder t).toFloat
    | _, _ => a

/-- Power; fractional powers of negative numbers and negative powers of zero do not exist. -/
def power (a b : Float) : Except MathError Float :=
  if a.isFinite && b.isFinite && ((a < 0 && !isInteger b) || (a == 0 && b < 0)) then .error .domain
  else bounded (a.isFinite && b.isFinite) (Float.pow a b)

def root (a : Float) : Except MathError Float := if a < 0 then .error .domain else .ok a.sqrt

def logarithm (a : Float) : Except MathError Float := if a ≤ 0 then .error .domain else .ok a.log

/-- A function of an angle in degrees, which must not be infinite. -/
def ofDegrees (f : Float → Float) (a : Float) : Except MathError Float :=
  if a.isInf then .error .domain else .ok (f (a * (circle / 180)))

/-- The integer chosen by `pick` for `a + shift`; infinities are too large, and not-a-number has
none. -/
def integer (pick : Scaled → Int) (shift a : Float) : Except MathError Float :=
  if a.isInf then .error .overflow else if a.isNaN then .error .domain
  else .ok (toIntegral pick (a + shift))

end Library

/-! ## The functions -/

/-- Calls a function of the library where it may be called, and returns something else elsewhere. -/
def guarded (guard : Bool) (call : Except MathError Float) (other : Float) :
    Except MathError Float :=
  if guard then call else .ok other

/-- Division; zero divided by zero is not-a-number, anything else divided by zero is infinite. -/
def divide (a b : Float) : Except MathError Float :=
  guarded (!b == 0) (Library.divide a b) (if a == 0 || a != a then notANumber
    else infinityLike a * (if twoTo 63 ≤ b.toBits.toNat then -1 else 1))

/-- Remainder; not-a-number where there is none. -/
def remainder (a b : Float) : Except MathError Float :=
  guarded (!(b == 0 || a.isInf || a != a || b != b)) (Library.remainder a b) notANumber

/-- Power; not-a-number where there is none, and the positive infinity where it is too large. -/
def power (a b : Float) : Except MathError Float :=
  match Library.power a b with
  | .error .domain => .ok notANumber
  | .error .overflow => .ok (Scaled.infinity false)
  | r => r

/-- Square root; not-a-number below zero. -/
def root (a : Float) : Except MathError Float := guarded (0 ≤ a) (Library.root a) notANumber

/-- Natural logarithm; the negative infinity at zero and not-a-number below. -/
def logarithm (a : Float) : Except MathError Float :=
  guarded (0 < a) (Library.logarithm a) (if a == 0 then Scaled.infinity true else notANumber)

/-- Exponential; the positive infinity where it is too large. -/
def exponential (a : Float) : Except MathError Float :=
  match Library.bounded a.isFinite a.exp with
  | .error .overflow => .ok (Scaled.infinity false)
  | r => r

/-- A function of an angle in degrees; not-a-number at infinite angles. -/
def ofDegrees (f : Float → Float) (a : Float) : Except MathError Float :=
  guarded a.isFinite (Library.ofDegrees f a) notANumber

/-- The integer chosen by `pick` for `a + shift`; infinities and not-a-number stay. -/
def integer (pick : Scaled → Int) (shift a : Float) : Except MathError Float :=
  guarded a.isFinite (Library.integer pick shift a) a

/-- The angle of the point `(x, y)` in degrees. -/
def angle (y x : Float) : Float := Float.atan2 y x * (180 / circle)

/-- The smaller of two numbers, the first of two equal ones; not-a-number if either is. -/
def smaller (a b : Float) : Float :=
  if a != a || b != b then notANumber else if a ≤ b then a else b

/-- The larger of two numbers, the first of two equal ones; not-a-number if either is. -/
def larger (a b : Float) : Float :=
  if a != a || b != b then notANumber else if b ≤ a then a else b

/-- What a helper does with numbers, `none` if it is not given as many as it takes. -/
def outcome? : Helper → List Float → Option (Except MathError Float)
  | div, [a, b] => divide a b
  | mod, [a, b] => remainder a b
  | pow, [a, b] => power a b
  | sqrt, [a] => root a
  | ln, [a] => logarithm a
  | exp, [a] => exponential a
  | sin, [a] => ofDegrees Float.sin a
  | cos, [a] => ofDegrees Float.cos a
  | atan2, [y, x] => some (.ok (angle y x))
  | round, [a] => integer Scaled.floor 0.5 a
  | floor, [a] => integer Scaled.floor 0 a
  | ceil, [a] => integer Scaled.ceil 0 a
  | trunc, [a] => integer Scaled.truncate 0 a
  | abs, [a] => some (.ok a.abs)
  | min, [a, b] => some (.ok (smaller a b))
  | max, [a, b] => some (.ok (larger a b))
  | single, [a] => some (.ok (MolangCompiler.single a))
  | _, _ => none

/-- The value of a helper. -/
def result? (h : Helper) (values : List Float) : Option Float :=
  match h.outcome? values with
  | some (.ok x) => some x
  | _ => none

end Helper

/-- Whether a number counts as true: every number but zero does, not-a-number included. -/
def isTrue (x : Float) : Bool := x != 0

end MolangCompiler
