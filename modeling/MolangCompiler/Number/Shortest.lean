import MolangCompiler.Number.Scaled

/-!
# Shortest decimal digits

A positive double `m · 2 ^ q` stands for an interval of reals, those that round to it; its ends
belong to it when `m` is even.  `shortest` finds the fewest decimal digits that fall into that
interval, and among decimals of that length the one nearest to the double.  On the grid of
decimals with a given number of digits it is enough to look at the two neighbours of the double.
All comparisons are made on natural numbers.
-/

namespace MolangCompiler

/-- The decimal `digits · 10 ^ exponent`. -/
structure Decimal where
  digits : Nat
  exponent : Int
  deriving Repr, DecidableEq

namespace Shortest

/-- Compares `a · 10 ^ g` with `b · 2 ^ q`. -/
def compareScaled (a : Nat) (g : Int) (b : Nat) (q : Int) : Ordering :=
  compare (a * tenTo g.toNat * twoTo (-q).toNat) (b * twoTo q.toNat * tenTo (-g).toNat)

/-- The exponent `p` with `10 ^ (p - 1) ≤ m · 2 ^ q < 10 ^ p`. -/
def magnitude (m : Nat) (q : Int) : Int :=
  let guess := (q + m.log2) * 30103 / 100000
  if compareScaled 1 (guess - 1) m q = .gt then guess - 1
  else if compareScaled 1 guess m q = .gt then guess
  else if compareScaled 1 (guess + 1) m q = .gt then guess + 1
  else guess + 2

/-- Whether the decimal `c · 10 ^ g` rounds to the double `m · 2 ^ q`.  Bounds are given in
quarters of the double's last place: the lower gap is half as wide at a power of two. -/
def roundsTo (m : Nat) (q : Int) (c : Nat) (g : Int) : Bool :=
  let below := if m = twoTo 52 ∧ -1074 < q then 4 * m - 1 else 4 * m - 2
  let low := compareScaled c g below (q - 2)
  let high := compareScaled c g (4 * m + 2) (q - 2)
  if m % 2 = 0 then low != .lt && high != .gt else low == .gt && high == .lt

/-- The decimal with `n` digits that rounds to the double and is nearest to it, if there is one;
of two equally near ones the even one. -/
def withDigits? (m : Nat) (q : Int) (p : Int) (n : Nat) : Option Decimal :=
  let g := p - n
  let c := m * twoTo q.toNat * tenTo (-g).toNat / (twoTo (-q).toNat * tenTo g.toNat)
  match roundsTo m q c g, roundsTo m q (c + 1) g with
  | true, false => some ⟨c, g⟩
  | false, true => some ⟨c + 1, g⟩
  | false, false => none
  | true, true =>
    match compareScaled (2 * c + 1) g (2 * m) q with
    | .gt => some ⟨c, g⟩
    | .lt => some ⟨c + 1, g⟩
    | .eq => some ⟨c + c % 2, g⟩

/-- The shortest decimal among those with `n` to `n + more` digits, the exact neighbour of the
longest kind if none of them rounds back. -/
def search (m : Nat) (q : Int) (p : Int) : (n more : Nat) → Decimal
  | n, 0 => (withDigits? m q p n).getD ⟨m * twoTo q.toNat, 0⟩
  | n, more + 1 => (withDigits? m q p n).getD (search m q p (n + 1) more)

end Shortest

/-- The shortest decimal that reads back as the double `m · 2 ^ q`, for `m > 0`.  Seventeen digits
always suffice. -/
def shortest (m : Nat) (q : Int) : Decimal := Shortest.search m q (Shortest.magnitude m q) 1 16

end MolangCompiler
