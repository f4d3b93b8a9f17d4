import MolangCompiler.Proofs.Signs
import MolangCompiler.Resolve

/-!
# Printing expressions

Each construct has a level, loosest first: the ternary, the six levels of operators, the signs, and
what is closed by itself.  A part is put in parentheses if its level is below the least one that its
place admits.  A binary operator admits its own level on the left and only tighter ones on the
right; the condition of a ternary must be tighter than a ternary, its branches are free.
Parentheses may also be put where they are not needed: `extra` chooses the parts that get them.
-/

namespace MolangCompiler

/-- How the names of context values and of host functions are written. -/
structure Spelling where
  /-- The text of a context value, given by its local and its canonical name. -/
  read : Nat → String → String
  /-- The text of a query that calls a host function with a number of arguments and of results. -/
  call : String → Nat → Int → String

def isNegative (x : Float) : Bool := decide (twoTo 63 ≤ x.toBits.toNat)

/-- The operators by how tightly they bind, loosest first. -/
def Operator.tiers : List (List Operator) := [
  [.logical .or],
  [.logical .and],
  [.binary .eq, .binary .ne],
  [.binary .lt, .binary .le, .binary .gt, .binary .ge],
  [.binary .add, .binary .sub],
  [.binary .mul, .binary .div]]

def Operator.tier (op : Operator) : Nat := Operator.tiers.findIdx (·.contains op) + 1

theorem Operator.tier_eq_level (op : Operator) : op.tier = op.level := by
  cases op with
  | binary op | logical op => cases op <;> decide

namespace Expr

def signLevel : Nat := Operator.tiers.length + 1

def level : Expr → Nat
  | .ternary _ _ _ => 0
  | .logical op _ _ => (Operator.logical op).tier
  | .binary op _ _ => (Operator.binary op).tier
  | .negate _ | .not _ => signLevel
  | .constant [x] => if isNegative x then signLevel else signLevel + 1
  | _ => signLevel + 1

/-- The tokens of an expression at a place that admits the given level and tighter ones, from its
tokens without parentheses around it. -/
def placed (extra : Expr → Bool) (least : Nat) (e : Expr) (ls : List Lexeme) : List Lexeme :=
  if e.level < least ∨ extra e then .openParen :: (ls ++ [.closeParen]) else ls

section

variable (names : Spelling) (extra : Expr → Bool)

mutual

/-- The tokens of an expression without parentheses around it. -/
def lexemes : Expr → List Lexeme
  | .constant [x] =>
    if isNegative x then [.operator (.binary .sub), .number (-x)] else [.number x]
  | .localRead index name => [.name (names.read index name)]
  | .negate e => .operator (.binary .sub) :: placed extra signLevel e (lexemes e)
  | .not e => .not :: placed extra signLevel e (lexemes e)
  | .binary op l r =>
    placed extra (Operator.binary op).tier l (lexemes l) ++
      .operator (.binary op) :: placed extra ((Operator.binary op).tier + 1) r (lexemes r)
  | .logical op l r =>
    placed extra (Operator.logical op).tier l (lexemes l) ++
      .operator (.logical op) :: placed extra ((Operator.logical op).tier + 1) r (lexemes r)
  | .ternary condition yes no =>
    placed extra 1 condition (lexemes condition) ++
      .question :: (placed extra 0 yes (lexemes yes) ++ .colon :: placed extra 0 no (lexemes no))
  | .vector (first :: rest) =>
    .openBracket :: (placed extra 0 first (lexemes first) ++ (lexemesBehind rest ++
      [.closeBracket]))
  | .hostCall function [] width => [.name (names.call function 0 width), .openParen, .closeParen]
  | .hostCall function (first :: rest) width =>
    .name (names.call function (rest.length + 1) width) :: .openParen ::
      (placed extra 0 first (lexemes first) ++ (lexemesBehind rest ++ [.closeParen]))
  | _ => []

def lexemesBehind : List Expr → List Lexeme
  | [] => []
  | e :: rest => .comma :: (placed extra 0 e (lexemes e) ++ lexemesBehind rest)

end

/-- **The tokens of an expression** that stands by itself. -/
def printed (e : Expr) : List Lexeme := placed extra 0 e (e.lexemes names extra)

end

section

variable (dict : Dictionary) (names : Spelling)

mutual

/-- The expressions that have a source: their names are spelled as they are resolved, their numbers
have single precision, no sign stands before a number that could take it, and widths agree. -/
def Printable : Expr → Prop
  | .constant values => ∃ x, values = [x] ∧ single x = x
  | .localRead index name => canonicalName (names.read index name) = name ∧
      ∃ rest, nameParts name = ("c", rest) ∧ rest ≠ "" ∧
        lastOf? dict.setting.context rest = some index
  | .negate e => Printable e ∧ e.width = 1 ∧ ∀ values, e ≠ .constant values
  | .not e => Printable e ∧ e.width = 1
  | .binary _ l r | .logical _ l r => Printable l ∧ l.width = 1 ∧ Printable r ∧ r.width = 1
  | .ternary condition yes no => Printable condition ∧ condition.width = 1 ∧ Printable yes ∧
      Printable no ∧ yes.width = no.width
  | .vector elements => elements ≠ [] ∧ AllPrintable elements
  | .hostCall function args width => AllPrintable args ∧
      Query.find? dict.queries (canonicalName (names.call function args.length width)) =
        some (.host function args.length width)
  | _ => False

/-- All expressions of a list have a source and are single values. -/
def AllPrintable : List Expr → Prop
  | [] => True
  | e :: rest => Printable e ∧ e.width = 1 ∧ AllPrintable rest

end

end

end Expr

end MolangCompiler
