import MolangCompiler.Namespace
import MolangCompiler.Number.Text
import MolangCompiler.Operator

/-!
# Expression trees

A parsed source is a tree whose names are resolved: variables are records with a place in the
store, temps and context values are locals of the routine, and query calls are expanded.  An
expression produces a fixed number of values, its width.  A statement sequence is an expression
too: its value comes from a `return`, or is zeros.
-/

namespace MolangCompiler

mutual

/-- An expression. -/
inductive Expr where
  /-- One or more numbers. -/
  | constant (values : List Float)
  /-- A context value, a temp or a bound value. -/
  | localRead (index : Nat) (name : String)
  /-- The values of an actor variable. -/
  | variableRead (v : Variable)
  | negate (operand : Expr)
  | not (operand : Expr)
  | binary (op : BinaryOp) (left right : Expr)
  | logical (op : LogicalOp) (left right : Expr)
  | ternary (condition yes no : Expr)
  /-- Several single values side by side. -/
  | vector (elements : List Expr)
  | helperCall (helper : Helper) (args : List Expr)
  /-- A call of a host function, made each time the expression is evaluated. -/
  | hostCall (function : String) (args : List Expr) (width : Int)
  /-- Sets a local to a value and goes on with the body. -/
  | bind (index : Nat) (value body : Expr)
  | sequence (statements : List Stmt) (width : Int)

/-- A statement. -/
inductive Stmt where
  /-- Evaluates an expression and drops its values. -/
  | discard (value : Expr)
  | assignLocal (index : Nat) (value : Expr)
  | assignVariable (v : Variable) (value : Expr)
  | ret (value : Expr)

end

instance : Inhabited Expr := ⟨.constant [0]⟩

namespace Expr

/-- How many values an expression produces. -/
def width : Expr → Int
  | constant values => values.length
  | localRead .. => 1
  | variableRead v => v.size
  | negate _ | not _ | binary .. | logical .. => 1
  | ternary _ yes _ => yes.width
  | vector elements => elements.length
  | helperCall .. => 1
  | hostCall _ _ width => width
  | bind _ _ body => body.width
  | sequence _ width => width

mutual

/-- Whether the values of an expression are known before it runs. -/
def isConstant : Expr → Bool
  | constant _ => true
  | binary _ left right => left.isConstant && right.isConstant
  | vector elements => allConstant elements
  | helperCall _ args => allConstant args
  | _ => false

/-- Whether the values of all expressions of a list are known beforehand. -/
def allConstant : List Expr → Bool
  | [] => true
  | e :: rest => e.isConstant && allConstant rest

end

/-- A constant of the given values, rounded to single precision; it needs at least one. -/
def constantOf (values : List Float) : Except TreeProblem Expr :=
  if values.isEmpty then .error .noValues else .ok (constant (values.map single))

/-- The kind of an expression, as messages name it. -/
def kind : Expr → String
  | constant _ => "Constant"
  | localRead .. => "LocalRead"
  | variableRead _ => "ActorVariableRead"
  | negate _ => "Negate"
  | not _ => "Not"
  | binary .. => "BinaryOp"
  | logical .. => "LogicalOp"
  | ternary .. => "Ternary"
  | vector _ => "VectorLiteral"
  | helperCall .. => "HelperCall"
  | hostCall .. => "RuntimeCall"
  | bind .. => "Let"
  | sequence .. => "StatementSequence"

/-! ## Text of simple trees -/

/-- Items between brackets. -/
def bracketed (items : List String) : String := "[" ++ String.intercalate ", " items ++ "]"

mutual

/-- The text of a tree that is made of constants, reads, binary operators and helper calls;
other trees have none. -/
def describe? : Expr → Option String
  | constant values => some ("Constant(" ++ bracketed (values.map numberText) ++ ")")
  | localRead index name => some ("LocalRead(" ++ toString index ++ ", " ++ quoted name ++ ")")
  | variableRead v => some ("ActorVariableRead(" ++ quoted v.name ++ ")")
  | binary op left right => do
    let l ← left.describe?
    let r ← right.describe?
    return "BinaryOp(" ++ quoted op.symbol ++ ", " ++ l ++ ", " ++ r ++ ")"
  | helperCall helper args => do
    let items ← describeAll? args
    return "HelperCall(" ++ quoted helper.name ++ ", " ++ bracketed items ++ ")"
  | _ => none

/-- The texts of all trees of a list. -/
def describeAll? : List Expr → Option (List String)
  | [] => some []
  | e :: rest => do
    let first ← e.describe?
    let others ← describeAll? rest
    return first :: others

end

end Expr

/-- The kind of a statement, as messages name it. -/
def Stmt.kind : Stmt → String
  | .discard _ => "ExpressionStatement"
  | .assignLocal .. => "LocalAssign"
  | .assignVariable .. => "ActorVariableAssign"
  | .ret _ => "Return"

end MolangCompiler
