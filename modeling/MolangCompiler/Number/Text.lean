import MolangCompiler.Number.Shortest
import MolangCompiler.Number.Single

/-!
# Numbers as text

A double is written with the fewest digits that read back, in positional notation for decimal
exponents from -4 to 15 and in scientific notation otherwise.  Positional text always has a
decimal point; a scientific exponent has a sign and at least two digits.
-/

namespace MolangCompiler

/-- The text of a positive decimal with digits `ds` whose point stands after the first `point`
digits. -/
def placePoint (ds : List Char) (point : Int) : List Char :=
  if point ≤ -4 ∨ 16 < point then
    let exponent := point - 1
    let tail := match ds.drop 1 with
      | [] => []
      | rest => '.' :: rest
    let size := Nat.toDigits 10 exponent.natAbs
    let padded := List.replicate (2 - size.length) '0' ++ size
    ds.take 1 ++ tail ++ 'e' :: (if exponent < 0 then '-' else '+') :: padded
  else if point ≤ 0 then '0' :: '.' :: List.replicate (-point).toNat '0' ++ ds
  else
    let whole := ds.take point.toNat
    let filled := whole ++ List.replicate (point.toNat - whole.length) '0'
    let rest := ds.drop point.toNat
    filled ++ '.' :: (if rest.isEmpty then ['0'] else rest)

/-- The text of a positive decimal; zeros at the end of its digits are left out. -/
def Decimal.text (d : Decimal) : String :=
  let ds := Nat.toDigits 10 d.digits
  let shown := (ds.reverse.dropWhile (· == '0')).reverse
  String.ofList (placePoint shown (ds.length + d.exponent))

/-- The text of a double. -/
def numberText (x : Float) : String :=
  match Scaled.ofFloat? x with
  | none => if x.isNaN then "nan" else if x < 0 then "-inf" else "inf"
  | some s =>
    let size := if s.significand = 0 then "0.0" else (shortest s.significand s.exponent).text
    if s.negative then "-" ++ size else size

/-- The text of a value inside a routine, where it is single precision. -/
def literalText (x : Float) : String :=
  let r := single x
  if r.isNaN then "float('nan')"
  else if r.isInf then (if 0 < r then "float('inf')" else "float('-inf')")
  else numberText r

end MolangCompiler
