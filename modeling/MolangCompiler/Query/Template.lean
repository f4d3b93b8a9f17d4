import MolangCompiler.Scope

/-!
# Templates

A template is a tree with holes, given as data: it describes the expression that a query expands
to.  Holes stand for the arguments of the call, for temps, for properties of the actor, and for
locals that are fresh in each expansion and shared by equal labels.  Building a template checks
what its data left open: operators, helpers and sizes.  Parts are built in the order in which they
are listed.
-/

namespace MolangCompiler

/-- A local of a template: a given one, or one that is fresh in each expansion. -/
inductive LocalRef where
  | index (i : Nat)
  | label (text : String)

/-- A tree with holes. -/
inductive Template where
  | constant (values : List Float)
  | localRead (ref : LocalRef) (name : String)
  | variableRead (name : String) (size : Int)
  | negate (operand : Template)
  | not (operand : Template)
  | binary (symbol : String) (left right : Template)
  | logical (symbol : String) (left right : Template)
  | ternary (condition yes no : Template)
  | vector (elements : List Template)
  | helperCall (helper : String) (args : List Template)
  | hostCall (function : String) (args : List Template) (width : Int)
  | bind (ref : LocalRef) (value body : Template)
  | sequence (statements : List Template) (width : Int)
  | discard (value : Template)
  | assignLocal (ref : LocalRef) (value : Template)
  | assignVariable (name : String) (size : Int) (value : Template)
  | ret (value : Template)
  /-- The argument of the call at a position. -/
  | argument (i : Nat)
  | temp (name : String)
  /-- A number that the actor supplies. -/
  | actor (key : String)
  /-- Something that is neither an expression nor a statement. -/
  | foreign (kind : String)

/-- What a template builds. -/
inductive Node where
  | expr (e : Expr)
  | stmt (s : Stmt)
  | foreign (kind : String)

/-- The kind of what was built, as messages name it. -/
def Node.kind : Node → String
  | expr e => e.kind
  | stmt s => s.kind
  | foreign kind => kind

/-- What the holes of a template stand for. -/
structure Filling where
  setting : Setting
  args : List Expr
  actor : List (String × Float)

/-- The scope in which a template is expanded and the locals of its labels. -/
structure Expansion where
  scope : Scope
  labels : List (String × Nat)

/-- Expanding a template. -/
abbrev Expanding := EStateM Failure Expansion

namespace Expanding

/-- Runs an operation on the scope. -/
def onScope {α : Type} (act : Reading α) : Expanding α :=
  onPart Expansion.scope (fun s x => { x with scope := s }) act

/-- A part that must be an expression. -/
def expr : Node → Expanding Expr
  | .expr e => return e
  | node => throw (.misplaced node.kind)

/-- A part that must be a statement. -/
def stmt : Node → Expanding Stmt
  | .stmt s => return s
  | node => throw (.misplaced node.kind)

/-- The local that a reference stands for. -/
def localOf (fill : Filling) : LocalRef → Expanding Nat
  | .index i => return i
  | .label text => do
    match (← get).labels.find? (·.1 == text) with
    | some (_, index) => return index
    | none =>
      let index ← onScope (Reading.freshLocal fill.setting)
      modify fun x => { x with labels := x.labels ++ [(text, index)] }
      return index

end Expanding

open Expanding

mutual

/-- Builds a template. -/
def Template.build (fill : Filling) : Template → Expanding Node
  | .constant values => return .expr (← onScope (Reading.ofTree (Expr.constantOf values)))
  | .localRead ref name => return .expr (.localRead (← localOf fill ref) name)
  | .variableRead name size =>
    return .expr (.variableRead (← onScope (Reading.obtainVariable name size)))
  | .negate operand => return .expr (.negate (← expr (← operand.build fill)))
  | .not operand => return .expr (.not (← expr (← operand.build fill)))
  | .binary symbol left right => do
    let l ← expr (← left.build fill)
    let r ← expr (← right.build fill)
    match BinaryOp.ofSymbol? symbol with
    | some op => return .expr (.binary op l r)
    | none => throw (.tree (.unknownBinary symbol))
  | .logical symbol left right => do
    let l ← expr (← left.build fill)
    let r ← expr (← right.build fill)
    match LogicalOp.ofSymbol? symbol with
    | some op => return .expr (.logical op l r)
    | none => throw (.tree (.unknownLogical symbol))
  | .ternary condition yes no => do
    let c ← expr (← condition.build fill)
    let y ← expr (← yes.build fill)
    let n ← expr (← no.build fill)
    return .expr (.ternary c y n)
  | .vector elements => do
    return .expr (.vector (← (← buildAll fill elements).mapM expr))
  | .helperCall name args => do
    let nodes ← (← buildAll fill args).mapM expr
    match Helper.ofName? name with
    | some helper => return .expr (.helperCall helper nodes)
    | none => throw (.tree (.unknownHelper name))
  | .hostCall function args width => do
    return .expr (.hostCall function (← (← buildAll fill args).mapM expr) width)
  | .bind ref value body => do
    let index ← localOf fill ref
    let v ← expr (← value.build fill)
    let b ← expr (← body.build fill)
    return .expr (.bind index v b)
  | .sequence statements width => do
    return .expr (.sequence (← (← buildAll fill statements).mapM stmt) width)
  | .discard value => return .stmt (.discard (← expr (← value.build fill)))
  | .assignLocal ref value => do
    let index ← localOf fill ref
    return .stmt (.assignLocal index (← expr (← value.build fill)))
  | .assignVariable name size value => do
    let v ← onScope (Reading.obtainVariable name size)
    return .stmt (.assignVariable v (← expr (← value.build fill)))
  | .ret value => return .stmt (.ret (← expr (← value.build fill)))
  | .argument i =>
    match fill.args.drop i with
    | e :: _ => return .expr e
    | [] => throw .missingArgument
  | .temp name => return .expr (.localRead (← onScope (Reading.tempLocal fill.setting name)) name)
  | .actor key =>
    match lastOf? fill.actor key with
    | some value => return .expr (← onScope (Reading.ofTree (Expr.constantOf [value])))
    | none => throw (.unknownVariable key)
  | .foreign kind => return .foreign kind

/-- Builds the templates of a list in order. -/
def Template.buildAll (fill : Filling) : List Template → Expanding (List Node)
  | [] => return []
  | t :: rest => do
    let first ← t.build fill
    let others ← buildAll fill rest
    return first :: others

end

/-- Builds a template in a scope. -/
def Template.expand (t : Template) (fill : Filling) : Reading Node := fun s =>
  match t.build fill ⟨s, []⟩ with
  | .ok node x => .ok node x.scope
  | .error e x => .error e x.scope

end MolangCompiler
