import MolangCompiler.Query.Template

/-!
# Queries

A query is a function that sources can call.  It is expanded while the source is read: given its
arguments, it supplies the expression that takes the place of the call.  Queries that call a host
function expand to a call which is made each time the expression is evaluated.

`Query.defaults` are the mathematical functions that every instance offers unless it is told
otherwise.
-/

namespace MolangCompiler

/-- A query. -/
inductive Query where
  /-- Calls a numeric helper. -/
  | helper (name : String) (arity : Nat)
  /-- Stands for numbers and takes no arguments. -/
  | constant (values : List Float)
  /-- Calls a host function that returns the given number of values. -/
  | host (function : String) (arity : Nat) (width : Int)
  /-- Restricts a value to a range. -/
  | clamp
  /-- Interpolates between two values. -/
  | lerp
  /-- Expands a template; with an arity it checks its arguments first, and with a text it
  reports that text instead of expanding. -/
  | template (arity : Option Nat) (report : Option String) (tree : Template)

namespace Query

/-- A query that is not a template. -/
def Direct (query : Query) : Prop := ∀ arity report tree, query ≠ .template arity report tree

/-- The queries of every instance, by name. -/
def defaults : List (String × Query) := [
  ("math.abs", .helper "_abs" 1), ("math.ceil", .helper "_ceil" 1),
  ("math.floor", .helper "_floor" 1), ("math.round", .helper "_round" 1),
  ("math.trunc", .helper "_trunc" 1), ("math.sqrt", .helper "_sqrt" 1),
  ("math.sin", .helper "_sin" 1), ("math.cos", .helper "_cos" 1),
  ("math.atan2", .helper "_atan2" 2), ("math.exp", .helper "_exp" 1),
  ("math.ln", .helper "_ln" 1), ("math.pow", .helper "_pow" 2),
  ("math.min", .helper "_min" 2), ("math.max", .helper "_max" 2),
  ("math.mod", .helper "_mod" 2), ("math.clamp", .clamp), ("math.lerp", .lerp),
  ("math.pi", .constant [Helper.circle])]

/-- Queries by canonical name, each name once.  Of several spellings of a name the one that first
appears last counts, and of several queries for one spelling the last one. -/
def table (queries : List (String × Query)) : List (String × Query) :=
  merged ((merged queries).map fun (name, query) => (canonicalName name, query))

/-- The query of a name in a table. -/
def find? (queries : List (String × Query)) (name : String) : Option Query :=
  (queries.find? (·.1 == canonicalName name)).map (·.2)

/-- Checks that a call has the right number of arguments and that each is a single value; the
call is named as in the source from `start` to `stop`. -/
def checkArguments (st : Setting) (args : List Expr) (arity start stop : Nat) : Reading Unit := do
  let name := String.ofList ((st.source.toList.drop start).take (stop - start))
  if args.length ≠ arity then
    Reading.fail st (.argumentCount name arity args.length) start stop
  if args.any (·.width != 1) then Reading.fail st (.argumentWidth name) start stop

/-- A helper called by its name. -/
def helperExpr (name : String) (args : List Expr) : Reading Expr :=
  match Helper.ofName? name with
  | some h => return .helperCall h args
  | none => throw (.tree (.unknownHelper name))

/-- `min (max value low) high` -/
def clampExpr : List Expr → Expr
  | [value, low, high] => .helperCall .min [.helperCall .max [value, low], high]
  | args => .vector args

/-- `a + (b - a) * t`, with `a` evaluated once and kept in a local. -/
def lerpExpr (index : Nat) : List Expr → Expr
  | [a, b, t] =>
    let kept := Expr.localRead index ""
    .bind index a (.binary .add kept (.binary .mul (.binary .sub b kept) t))
  | args => .vector args

/-- What a call of a query expands to.  The name of the query stands in the source from `start`
to `stop`. -/
def expand (query : Query) (st : Setting) (actor : List (String × Float)) (args : List Expr)
    (start stop : Nat) : Reading Node := do
  match query with
  | helper name arity =>
    checkArguments st args arity start stop
    return .expr (← helperExpr name args)
  | constant values =>
    checkArguments st args 0 start stop
    return .expr (← Reading.ofTree (Expr.constantOf values))
  | host function arity width =>
    checkArguments st args arity start stop
    return .expr (.hostCall function args width)
  | clamp =>
    checkArguments st args 3 start stop
    return .expr (clampExpr args)
  | lerp =>
    checkArguments st args 3 start stop
    return .expr (lerpExpr (← Reading.freshLocal st) args)
  | template arity report tree =>
    match arity with
    | some n => checkArguments st args n start stop
    | none => pure ()
    match report with
    | some text => Reading.fail st (.reported text) start stop
    | none => tree.expand ⟨st, args, actor⟩

end Query

end MolangCompiler
