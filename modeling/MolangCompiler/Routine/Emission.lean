import MolangCompiler.Expr
import MolangCompiler.Listing
import MolangCompiler.Routine.Code

/-!
# Writing a routine

An expression is written in one of two ways.  As a scalar it becomes `Code`, after lines that
prepare it; as a region it becomes lines that store its values in the scratch buffer.  `Emission`
holds both ways of writing one expression, and `Expr.emission` computes them from those of its
parts.

The parts of an operation are written from left to right.  If a later part needs lines of its own,
the parts before it would be evaluated after those lines, so their values are set aside in fresh
locals first; constants stay where they are.
-/

namespace MolangCompiler

/-- A routine while it is being written. -/
structure Draft where
  listing : Listing Line
  layout : Layout

/-- Writing lines; a problem in the tree leaves the lines written so far. -/
abbrev Writing := EStateM TreeProblem Draft

namespace Writing

/-- Adds a line. -/
def line (l : Line) : Writing Unit := modify fun d => { d with listing := d.listing.line l }

/-- Adds a line that does one thing. -/
def act (a : Action) : Writing Unit := line (.act a)

/-- The place of the next line. -/
def mark : Writing Nat := return (← get).listing.mark

/-- Inserts a line at an earlier place. -/
def insertAct (position : Nat) (a : Action) : Writing Unit :=
  modify fun d => { d with listing := d.listing.insert position (.act a) }

/-- Hands out a fresh local. -/
def freshLocal : Writing Nat := do
  let (index, layout) := (← get).layout.reserveLocals 1
  modify fun d => { d with layout := layout }
  return index

/-- Hands out an output region. -/
def reserve (width : Int) : Writing Int := do
  match (← get).layout.reserve width with
  | .error problem => throw problem
  | .ok (base, layout) =>
    modify fun d => { d with layout := layout }
    return base

/-- Takes back an output region. -/
def release (base : Int) : Writing Unit := do
  match (← get).layout.release base with
  | .error problem => throw problem
  | .ok layout => modify fun d => { d with layout := layout }

/-- The name of a host function in the routine. -/
def callee (function : String) : Writing Callee := do
  let (name, layout) := (← get).layout.bind function "fn"
  modify fun d => { d with layout := layout }
  return ⟨name, function⟩

/-- Writes a header and, one level deeper, a body.  The level is restored even if the body has a
problem. -/
def block (header : Line) (body : Writing Unit) : Writing Unit := fun d =>
  let opened := { d with listing := (d.listing.line header).indent }
  match body opened with
  | .ok () d' => .ok () { d' with listing := d'.listing.dedent }
  | .error problem d' => .error problem { d' with listing := d'.listing.dedent }

end Writing

/-- Both ways of writing an expression. -/
structure Emission where
  /-- How many values the expression produces. -/
  width : Int
  /-- Whether its values are known beforehand. -/
  constant : Bool
  /-- Lines that prepare the expression, and the expression itself. -/
  scalar : Writing Code
  /-- Lines that store the values from a slot on. -/
  into : Int → Writing Unit

namespace LogicalOp

/-- The test that the left operand leaves the result open. -/
def openTest (left : Code) : LogicalOp → Test
  | and => .holds left
  | or => .fails left

/-- The result that the left operand settles by itself. -/
def settled : LogicalOp → Float
  | and => 0
  | or => 1

end LogicalOp

namespace Emission

open Writing

/-- Stores a scalar in a slot. -/
def storeScalar (scalar : Writing Code) (slot : Int) : Writing Unit := do
  let value ← scalar
  act (.setSlot slot value)

/-- An expression that produces one value. -/
def ofScalar (constant : Bool) (scalar : Writing Code) : Emission :=
  ⟨1, constant, scalar, storeScalar scalar⟩

/-- The problem of writing an expression as a scalar that produces another number of values. -/
def notScalar (kind : String) (width : Int) : Writing Code := throw (.notScalar kind width)

/-- An expression that is a scalar if it produces one value and is stored value by value
otherwise. -/
def byWidth (kind : String) (width : Int) (constant : Bool) (scalar : Writing Code)
    (into : Int → Writing Unit) : Emission :=
  if width = 1 then ⟨width, constant, scalar, storeScalar scalar⟩
  else ⟨width, constant, notScalar kind width, into⟩

/-! ## Parts of an operation -/

/-- Writes scalars from left to right, each with the place behind its own lines. -/
def inOrder : List Emission → Writing (List (Bool × Code × Nat))
  | [] => return []
  | e :: rest => do
    let code ← e.scalar
    let place ← mark
    let others ← inOrder rest
    return (e.constant, code, place) :: others

/-- Sets aside, from right to left, every part that is not constant and has lines behind its own;
`last` is the place behind all lines. -/
def setAside (last : Nat) : List (Bool × Code × Nat) → Writing (List Code)
  | [] => return []
  | (constant, code, place) :: rest => do
    let others ← setAside last rest
    if !constant && decide (place < last) then
      let index ← freshLocal
      insertAct place (.setLocal index code)
      return .readLocal index :: others
    else return code :: others

/-- Writes the parts of an operation from left to right, so that each is evaluated before the
lines of the next. -/
def operands (parts : List Emission) : Writing (List Code) := do
  let written ← inOrder parts
  let last ← mark
  setAside last written

/-! ## Kinds of expressions -/

/-- Numbers. -/
def ofConstant (values : List Float) : Emission where
  width := values.length
  constant := true
  scalar := match values with
    | [value] => return .literal value
    | _ => notScalar "Constant" values.length
  into slot := values.zipIdx.forM fun (value, i) => act (.setSlot (slot + i) (.literal value))

/-- The values of an actor variable. -/
def ofVariable (v : Variable) : Emission :=
  byWidth "ActorVariableRead" v.size false (return .readVariable v.offset) fun slot =>
    act (.load slot v.offset v.size)

/-- An operation on one value. -/
def unary (make : Code → Code) (operand : Emission) : Emission :=
  ofScalar false do return make (← operand.scalar)

/-- An operation on two values. -/
def binary (op : BinaryOp) (left right : Emission) : Emission :=
  ofScalar (left.constant && right.constant) do
    match ← operands [left, right] with
    | [l, r] => return .binary op l r
    | _ => return .literal 0

/-- A logical operation: the right part is evaluated only if the left one leaves the result
open. -/
def logical (op : LogicalOp) (left right : Emission) : Emission :=
  ofScalar false do
    let result ← freshLocal
    let l ← left.scalar
    block (.onlyIf (op.openTest l)) do
      let r ← right.scalar
      act (.setTruth result r)
    block .otherwise (act (.setLocal result (.literal op.settled)))
    return .readLocal result

/-- A choice between two expressions. -/
def ternary (condition yes no : Emission) : Emission :=
  byWidth "Ternary" yes.width false (do
      let result ← freshLocal
      let test ← condition.scalar
      block (.onlyIf (.holds test)) do
        let value ← yes.scalar
        act (.setLocal result value)
      block .otherwise do
        let value ← no.scalar
        act (.setLocal result value)
      return .readLocal result)
    fun slot => do
      let test ← condition.scalar
      block (.onlyIf (.holds test)) (yes.into slot)
      block .otherwise (no.into slot)

/-- Expressions side by side, one slot for each. -/
def vector (elements : List Emission) : Emission where
  width := elements.length
  constant := elements.all (·.constant)
  scalar := match elements with
    | [element] => element.scalar
    | _ => notScalar "VectorLiteral" elements.length
  into slot := elements.zipIdx.forM fun (element, i) => element.into (slot + i)

/-- A call of a numeric helper. -/
def helperCall (helper : Helper) (args : List Emission) : Emission :=
  ofScalar (args.all (·.constant)) do return .helper helper (← operands args)

/-- A call of a host function. -/
def hostCall (function : String) (args : List Emission) (width : Int) : Emission :=
  byWidth "RuntimeCall" width false (do
      let f ← callee function
      let codes ← operands args
      return .call f codes)
    fun slot => do
      let f ← callee function
      let codes ← operands args
      act (.setSlots slot width.toNat f codes)

/-- A local set to a value, and then the body. -/
def bind (index : Nat) (value body : Emission) : Emission where
  width := body.width
  constant := false
  scalar := do
    let v ← value.scalar
    act (.setLocal index v)
    body.scalar
  into slot := do
    let v ← value.scalar
    act (.setLocal index v)
    body.into slot

/-- Statements, and zeros for the case that none of them returns. -/
def sequence (statements : List (Writing Unit)) (width : Int) : Emission where
  width := width
  constant := false
  scalar := notScalar "StatementSequence" width
  into slot := do
    modify fun d => { d with layout := { d.layout with resultRegion := some slot } }
    statements.forM id
    (List.range width.toNat).forM fun (i : Nat) => act (.setSlot (slot + i) (.literal 0))

/-! ## Kinds of statements -/

/-- An expression whose values are dropped; one that is known beforehand is left out. -/
def discard (value : Emission) : Writing Unit := do
  if value.constant then return ()
  let region ← reserve value.width
  value.into region
  release region

/-- An assignment to a local. -/
def assignLocal (index : Nat) (value : Emission) : Writing Unit := do
  let v ← value.scalar
  act (.setLocal index v)

/-- An assignment to a variable.  Several values go through the scratch buffer, so that they may
depend on the variable itself. -/
def assignVariable (v : Variable) (value : Emission) : Writing Unit := do
  if v.size = 1 then
    let x ← value.scalar
    act (.setVariable v.offset x)
  else
    let region ← reserve v.size
    value.into region
    act (.store v.offset v.size region)
    release region

/-- The end of the routine with a value. -/
def ret (value : Emission) : Writing Unit := do
  match (← get).layout.resultRegion with
  | none => throw .strayReturn
  | some slot =>
    value.into slot
    act .finish

end Emission

mutual

/-- Both ways of writing an expression. -/
def Expr.emission : Expr → Emission
  | .constant values => Emission.ofConstant values
  | .localRead index _ => Emission.ofScalar false (return .readLocal index)
  | .variableRead v => Emission.ofVariable v
  | .negate operand => Emission.unary .negate operand.emission
  | .not operand => Emission.unary .not operand.emission
  | .binary op left right => Emission.binary op left.emission right.emission
  | .logical op left right => Emission.logical op left.emission right.emission
  | .ternary condition yes no =>
    Emission.ternary condition.emission yes.emission no.emission
  | .vector elements => Emission.vector (Expr.emissions elements)
  | .helperCall helper args => Emission.helperCall helper (Expr.emissions args)
  | .hostCall function args width => Emission.hostCall function (Expr.emissions args) width
  | .bind index value body => Emission.bind index value.emission body.emission
  | .sequence statements width => Emission.sequence (Stmt.emissions statements) width

/-- Both ways of writing each expression of a list. -/
def Expr.emissions : List Expr → List Emission
  | [] => []
  | e :: rest => e.emission :: Expr.emissions rest

/-- The lines of a statement. -/
def Stmt.emission : Stmt → Writing Unit
  | .discard value => Emission.discard value.emission
  | .assignLocal index value => Emission.assignLocal index value.emission
  | .assignVariable v value => Emission.assignVariable v value.emission
  | .ret value => Emission.ret value.emission

/-- The lines of each statement of a list. -/
def Stmt.emissions : List Stmt → List (Writing Unit)
  | [] => []
  | s :: rest => s.emission :: Stmt.emissions rest

end

/-! ## Whole routines -/

namespace Routine

open Writing

/-- Writes the body of a routine with `temps` temps: the expression goes to the first slots of
the scratch buffer.  The size of the buffer is known only afterwards, so the lines that ask for it
and clear the temps are inserted last. -/
def writeBody (e : Expr) (temps : Nat) : Writing Unit := do
  let header ← mark
  let output ← reserve e.width
  e.emission.into output
  act .finish
  let layout := (← get).layout
  (List.range temps).reverse.forM fun i =>
    insertAct header (.setLocal (layout.scratchLocal + 1 + i) (.literal 0))
  insertAct header (.acquire layout.extent)

/-- Writes a routine with the given name and number of arguments. -/
def write (name : String) (e : Expr) (args temps : Nat) : Writing Unit :=
  block (.define name args) (writeBody e temps)

/-- The routine of an expression before anything is written: arguments come first among the
locals, then the scratch buffer, then the temps. -/
def draft (args temps : Nat) : Draft := ⟨Listing.empty, Layout.start args (args + 1 + temps) 0⟩

end Routine

/-- The text of what has been written. -/
def Draft.text (d : Draft) : String :=
  d.listing.text "    " (Line.text d.layout.scratchLocal)

end MolangCompiler
