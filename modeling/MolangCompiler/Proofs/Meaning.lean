import MolangCompiler.Expr
import MolangCompiler.Routine.Run

/-!
# The meaning of a tree

A tree has a meaning of its own, apart from the routine that is written for it.  Operands are
evaluated from left to right and each of them once; a logical operator leaves its right operand
alone if the left one settles the result; of the branches of a choice only the chosen one is
evaluated; statements are executed in order until one of them returns.

`Expr.value` is the meaning of an expression that stands for a single number, `Expr.values` what an
expression produces as a whole, and `Expr.outcome` the meaning of a whole source.  They know only
the locals of the source and its `Surroundings`; `Surroundings.recording` writes down every access
to a variable and every call of a host function, in their order.
-/

namespace MolangCompiler

section

variable {ω : Type}

/-- The problem of an expression that does not stand for a single number. -/
def noSingleValue {τ α : Type} (e : Expr) : Act τ α := throw (.tree (.notScalar e.kind e.width))

/-! ## Expressions -/

mutual

/-- The value of a tree that stands for a single number. -/
def Expr.value (h : Surroundings ω) : Expr → Act (Activation ω) Float
  | .constant [x] => return single x
  | .constant xs => noSingleValue (.constant xs)
  | .localRead index _ => readLocal index
  | .variableRead v =>
    if v.size = 1 then onWorld (h.readVariable v.offset) else noSingleValue (.variableRead v)
  | .negate operand => do
    let x ← operand.value h
    return -x
  | .not operand => do
    let x ← operand.value h
    return BinaryOp.ofBool (!isTrue x)
  | .binary op left right => do
    let x ← left.value h
    let y ← right.value h
    return op.apply x y
  | .logical .and left right => do
    let x ← left.value h
    if isTrue x then
      let y ← right.value h
      return BinaryOp.ofBool (isTrue y)
    else return 0
  | .logical .or left right => do
    let x ← left.value h
    if isTrue x then return 1
    else
      let y ← right.value h
      return BinaryOp.ofBool (isTrue y)
  | .ternary condition yes no => do
    let x ← condition.value h
    if isTrue x then yes.value h else no.value h
  | .vector elements => onlyValue h elements
  | .helperCall helper args => do
    let xs ← valueAll h args
    helper.apply xs
  | .hostCall function args _ => do
    let xs ← valueAll h args
    let result ← onWorld (h.call function xs)
    result.single
  | .bind index value body => do
    let x ← value.value h
    setLocal index x
    body.value h
  | .sequence statements width => noSingleValue (.sequence statements width)

def Expr.onlyValue (h : Surroundings ω) : List Expr → Act (Activation ω) Float
  | [element] => element.value h
  | elements => noSingleValue (.vector elements)

/-- The numbers that expressions stand for, from left to right. -/
def Expr.valueAll (h : Surroundings ω) : List Expr → Act (Activation ω) (List Float)
  | [] => return []
  | e :: rest => do
    let x ← e.value h
    let xs ← valueAll h rest
    return x :: xs

end

mutual

/-- The numbers that an expression produces, each in single precision. -/
def Expr.values (h : Surroundings ω) : Expr → Act (Activation ω) (List Float)
  | .constant xs => return xs.map single
  | .variableRead v =>
    if v.size = 1 then do
      let x ← onWorld (h.readVariable v.offset)
      return [single x]
    else do
      let xs ← onWorld (h.readVariables v.offset v.size)
      return xs.toList
  | .ternary condition yes no => do
    let x ← condition.value h
    if isTrue x then yes.values h else no.values h
  | .vector elements => valuesOfAll h elements
  | .hostCall function args width => do
    let xs ← valueAll h args
    let result ← onWorld (h.call function xs)
    if width = 1 then
      let x ← result.single
      return [single x]
    else
      let ys ← result.values width.toNat
      return ys.map single
  | .bind index value body => do
    let x ← value.value h
    setLocal index x
    body.values h
  | .sequence statements width => noSingleValue (.sequence statements width)
  | e => do
    let x ← e.value h
    return [single x]

/-- The numbers that expressions produce side by side, from left to right. -/
def Expr.valuesOfAll (h : Surroundings ω) : List Expr → Act (Activation ω) (List Float)
  | [] => return []
  | e :: rest => do
    let xs ← e.values h
    let ys ← valuesOfAll h rest
    return xs ++ ys

end

/-! ## Statements -/

/-- Executes a statement; what it returns, if it is a return. -/
def Stmt.execute (h : Surroundings ω) : Stmt → Act (Activation ω) (Option (List Float))
  | .discard e => do
    let _ ← e.values h
    return none
  | .assignLocal index e => do
    let x ← e.value h
    setLocal index x
    return none
  | .assignVariable v e =>
    if v.size = 1 then do
      let x ← e.value h
      onWorld (h.writeVariable v.offset x)
      return none
    else do
      let xs ← e.values h
      onWorld (h.writeVariables v.offset v.size xs.toArray)
      return none
  | .ret e => do
    let xs ← e.values h
    return some xs

def Stmt.executeAll (h : Surroundings ω) : List Stmt → Act (Activation ω) (Option (List Float))
  | [] => return none
  | s :: rest => do
    match ← s.execute h with
    | some xs => return some xs
    | none => executeAll h rest

/-- The numbers that a whole source produces: those of the first return that is executed, or
zeros. -/
def Expr.outcome (h : Surroundings ω) : Expr → Act (Activation ω) (List Float)
  | .sequence statements width => do
    match ← Stmt.executeAll h statements with
    | some xs => return xs
    | none => return List.replicate width.toNat 0
  | e => e.values h

/-- The locals with which a source starts: its arguments, and its temps, which are zero.  The
local between them is none of the source's. -/
def startLocals (args : List Float) (temps : Nat) (index : Nat) : Option Float :=
  if index < args.length then args[index]?
  else if args.length < index ∧ index < args.length + 1 + temps then some 0
  else none

/-- Evaluates a tree, given its arguments and how many temps it has. -/
def Expr.evaluate (h : Surroundings ω) (e : Expr) (args : List Float) (temps : Nat) :
    Act ω (List Float) := fun w =>
  match e.outcome h ⟨startLocals args temps, w⟩ with
  | .ok xs a => .ok xs a.world
  | .error failure a => .error failure a.world

end

/-! ## Recording what is done -/

/-- An access to the surroundings. -/
inductive Access where
  | read (offset size : Nat)
  | wrote (offset size : Nat) (values : List Float)
  | called (function : String) (args : List Float)

/-- Does something on the first part of a state, after adding an access to the record that is the
second part. -/
def recorded {ω α : Type} (access : Access) (act : Act ω α) : Act (ω × List Access) α := do
  modify fun s => (s.1, s.2 ++ [access])
  onPart Prod.fst (fun w s => (w, s.2)) act

/-- The same surroundings, with a record of all accesses in their order. -/
def Surroundings.recording {ω : Type} (h : Surroundings ω) : Surroundings (ω × List Access) where
  readVariable slot := recorded (.read slot 1) (h.readVariable slot)
  writeVariable slot x := recorded (.wrote slot 1 [x]) (h.writeVariable slot x)
  readVariables offset size := recorded (.read offset size) (h.readVariables offset size)
  writeVariables offset size xs :=
    recorded (.wrote offset size xs.toList) (h.writeVariables offset size xs)
  call function args := recorded (.called function args) (h.call function args)

end MolangCompiler
