import MolangCompiler.Helper

/-!
# Operators

The infix operators of the language with their spelling and binding strength.  Arithmetic and
comparisons take both operands; the two logical operators look at the second one only if the
first leaves the result open.
-/

namespace MolangCompiler

/-- Arithmetic and comparison of two numbers. -/
inductive BinaryOp where
  | add | sub | mul | div | lt | le | gt | ge | eq | ne
  deriving Repr, DecidableEq, Inhabited

namespace BinaryOp

/-- All arithmetic and comparison operators. -/
def all : List BinaryOp := [add, sub, mul, div, lt, le, gt, ge, eq, ne]

/-- The spelling of an operator, in sources and in routines alike. -/
def symbol : BinaryOp → String
  | add => "+" | sub => "-" | mul => "*" | div => "/" | lt => "<" | le => "<=" | gt => ">"
  | ge => ">=" | eq => "==" | ne => "!="

/-- The operator with a given spelling. -/
def ofSymbol? (s : String) : Option BinaryOp := all.find? (·.symbol == s)

/-- Whether an operator compares its operands. -/
def isComparison : BinaryOp → Bool
  | add | sub | mul | div => false
  | _ => true

/-- One for a statement that holds, zero for one that does not. -/
def ofBool (b : Bool) : Float := if b then 1 else 0

/-- The value of an operator: arithmetic is rounded to single precision, a comparison is zero or
one. -/
def apply : BinaryOp → Float → Float → Float
  | add, a, b => single (a + b)
  | sub, a, b => single (a - b)
  | mul, a, b => single (a * b)
  | div, a, b => single ((Helper.div.result? [a, b]).getD notANumber)
  | lt, a, b => ofBool (a < b)
  | le, a, b => ofBool (a ≤ b)
  | gt, a, b => ofBool (b < a)
  | ge, a, b => ofBool (b ≤ a)
  | eq, a, b => ofBool (a == b)
  | ne, a, b => ofBool (a != b)

end BinaryOp

/-- Conjunction and disjunction. -/
inductive LogicalOp where
  | and | or
  deriving Repr, DecidableEq, Inhabited

namespace LogicalOp

/-- The spelling of an operator in sources. -/
def symbol : LogicalOp → String
  | and => "&&" | or => "||"

/-- The operator with a given spelling. -/
def ofSymbol? (s : String) : Option LogicalOp := [and, or].find? (·.symbol == s)

end LogicalOp

/-- Any operator that stands between two operands. -/
inductive Operator where
  | binary (op : BinaryOp)
  | logical (op : LogicalOp)
  deriving Repr, DecidableEq, Inhabited

namespace Operator

/-- The spelling of an operator. -/
def symbol : Operator → String
  | binary op => op.symbol
  | logical op => op.symbol

/-- Binding strength: an operator takes operands from the operators below it. -/
def level : Operator → Nat
  | logical .or => 1
  | logical .and => 2
  | binary .eq | binary .ne => 3
  | binary .lt | binary .le | binary .gt | binary .ge => 4
  | binary .add | binary .sub => 5
  | binary .mul | binary .div => 6

end Operator

end MolangCompiler
