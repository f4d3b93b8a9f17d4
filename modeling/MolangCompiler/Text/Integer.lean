import MolangCompiler.Text.Blank
import MolangCompiler.Text.Digit

/-!
# Reading an integer

An integer is written as an optional sign and decimal digits of any script, with single
underscores allowed between digits and white space around the whole.  The four ASCII separators,
blank as they are, do not count as white space here.  A numeral of more than `maxDigits` digits
is refused, whatever its value.
-/

namespace MolangCompiler

/-- The longest numeral that is read or written. -/
def maxDigits : Nat := 4300

/-- White space that may stand around an integer. -/
def isMargin (c : Char) : Bool := isBlank c && !(decide (28 ≤ c.toNat) && decide (c.toNat ≤ 31))

/-- The digits of a numeral with the underscores between them removed; `none` unless the text
starts and ends with a digit and no two underscores meet. -/
def numeralDigits? : List Char → Option (List Nat)
  | [] => none
  | [c] => (digitValue? c).map ([·])
  | c :: '_' :: rest => do return (← digitValue? c) :: (← numeralDigits? rest)
  | c :: d :: rest => do return (← digitValue? c) :: (← numeralDigits? (d :: rest))

/-- The natural number a numeral spells. -/
def readNatural? (cs : List Char) : Option Nat := do
  let digits ← numeralDigits? cs
  if digits.length ≤ maxDigits then some (digits.foldl (fun n d => 10 * n + d) 0) else none

/-- The integer a text spells, `none` if it spells none. -/
def readInteger? (text : List Char) : Option Int :=
  let trimmed := ((text.dropWhile isMargin).reverse.dropWhile isMargin).reverse
  match trimmed with
  | '-' :: rest => (readNatural? rest).map fun n => -Int.ofNat n
  | '+' :: rest => (readNatural? rest).map Int.ofNat
  | cs => (readNatural? cs).map Int.ofNat

end MolangCompiler
