import MolangCompiler.Routine.Load
import MolangCompiler.Scratch

/-!
# Running a routine

A routine runs on a machine: it has locals of its own, reads and writes the variable store and a
scratch buffer, and calls host functions.  `Machine` says what each of these does to the state
around the routine; nothing else about the state is known here, so a host function may do anything
to it.  `Surroundings` is the part of a machine that does not depend on how the routine is written:
the variables and the host functions.

`Machine.ofSlots` is the machine whose variables and whose scratch buffer are arrays inside the
state.
-/

namespace MolangCompiler

/-- What a host function returns. -/
inductive HostValue where
  | number (x : Float)
  | list (xs : List Float)

/-- The variables and the host functions that a routine can reach. -/
structure Surroundings (σ : Type) where
  readVariable : (slot : Nat) → Act σ Float
  writeVariable : (slot : Nat) → Float → Act σ Unit
  /-- The values of neighbouring slots, as far as they exist. -/
  readVariables : (offset size : Nat) → Act σ (Array Float)
  /-- Replaces neighbouring slots by the given values. -/
  writeVariables : (offset size : Nat) → Array Float → Act σ Unit
  call : String → List Float → Act σ HostValue

/-- How a routine reaches the world around it, its scratch buffer included. -/
structure Machine (σ : Type) extends Surroundings σ where
  /-- Gets a scratch buffer with room for the given number of slots. -/
  acquire : Nat → Act σ Unit
  writeSlot : (slot : Nat) → Float → Act σ Unit
  /-- The values of neighbouring slots of the buffer, as far as they exist. -/
  readSlots : (slot size : Nat) → Act σ (Array Float)
  /-- Replaces neighbouring slots of the buffer by the given values. -/
  writeSlots : (slot size : Nat) → Array Float → Act σ Unit

/-! ## Arrays inside a state -/

/-- An array of numbers inside a state. -/
structure Slots (σ : Type) where
  get : σ → Array Float
  put : Array Float → σ → σ

namespace Slots

variable {σ : Type}

/-- The number in a slot. -/
def read (k : Slots σ) (slot : Nat) : Act σ Float := fun s =>
  match (k.get s)[slot]? with
  | some x => .ok x s
  | none => .error (.run .readRange) s

/-- Sets a slot. -/
def write (k : Slots σ) (slot : Nat) (x : Float) : Act σ Unit := fun s =>
  match setSlot? (k.get s) slot x with
  | some xs => .ok () (k.put xs s)
  | none => .error (.run .writeRange) s

/-- The numbers in neighbouring slots. -/
def readMany (k : Slots σ) (slot size : Nat) : Act σ (Array Float) := fun s =>
  .ok (slice (k.get s) slot (slot + size)) s

/-- Replaces the numbers in neighbouring slots. -/
def writeMany (k : Slots σ) (slot size : Nat) (xs : Array Float) : Act σ Unit := fun s =>
  .ok () (k.put (splice (k.get s) slot (slot + size) xs) s)

end Slots

/-- The machine whose variables and whose scratch buffer are arrays inside the state. -/
def Machine.ofSlots {σ : Type} (store scratch : Slots σ) (acquire : Nat → Act σ Unit)
    (call : String → List Float → Act σ HostValue) : Machine σ where
  readVariable := store.read
  writeVariable := store.write
  readVariables := store.readMany
  writeVariables := store.writeMany
  call := call
  acquire := acquire
  writeSlot := scratch.write
  readSlots := scratch.readMany
  writeSlots := scratch.writeMany

/-! ## Steps -/

/-- The locals of a running routine and the world around it. -/
structure Activation (σ : Type) where
  locals : Nat → Option Float
  world : σ

/-- Whether a routine goes on or has ended. -/
inductive Flow where
  | goOn | ended
  deriving DecidableEq

section

variable {σ : Type}

/-- Runs an operation on the world. -/
def onWorld {α : Type} (act : Act σ α) : Act (Activation σ) α :=
  onPart Activation.world (fun w a => { a with world := w }) act

/-- Fails with a problem at run time. -/
def runFailure {τ α : Type} (problem : RunProblem) : Act τ α := throw (.run problem)

/-- The value of a local. -/
def readLocal (index : Nat) : Act (Activation σ) Float := do
  match (← get).locals index with
  | some x => return x
  | none => runFailure (.unsetLocal index)

/-- Sets a local. -/
def setLocal (index : Nat) (x : Float) : Act (Activation σ) Unit :=
  modify fun a => { a with locals := fun i => if i = index then some x else a.locals i }

/-- A number rounded to single precision; a list is none. -/
def HostValue.single {τ : Type} : HostValue → Act τ Float
  | number x => return MolangCompiler.single x
  | list _ => runFailure .listForNumber

/-- As many values as are expected. -/
def HostValue.values {τ : Type} (expected : Nat) : HostValue → Act τ (List Float)
  | number _ => runFailure .numberForList
  | list xs =>
    if xs.length < expected then runFailure (.tooFewValues expected xs.length)
    else if expected < xs.length then runFailure (.tooManyValues expected)
    else return xs

/-- The value of a helper, rounded to single precision. -/
def Helper.apply {τ : Type} (h : Helper) (values : List Float) : Act τ Float :=
  match h.result? values with
  | some x => return MolangCompiler.single x
  | none => runFailure (.helperArguments h.name values.length)

mutual

/-- The value of an expression inside a line. -/
def Code.eval (m : Machine σ) : Code → Act (Activation σ) Float
  | .literal value => return single value
  | .readLocal index => MolangCompiler.readLocal index
  | .readVariable slot => onWorld (m.readVariable slot)
  | .negate operand => return -(← operand.eval m)
  | .not operand => return BinaryOp.ofBool (!isTrue (← operand.eval m))
  | .binary op left right => do
    let l ← left.eval m
    let r ← right.eval m
    return op.apply l r
  | .helper h args => do
    let values ← evalAll m args
    h.apply values
  | .call callee args => do
    let values ← evalAll m args
    (← onWorld (m.call callee.function values)).single

/-- The values of a list of expressions, from left to right. -/
def Code.evalAll (m : Machine σ) : List Code → Act (Activation σ) (List Float)
  | [] => return []
  | c :: rest => do
    let x ← c.eval m
    let xs ← evalAll m rest
    return x :: xs

end

/-- Sets slots of the scratch buffer one after the other. -/
def setSlots (m : Machine σ) : (slot : Nat) → List Float → Act (Activation σ) Unit
  | _, [] => return ()
  | slot, x :: xs => do
    onWorld (m.writeSlot slot x)
    setSlots m (slot + 1) xs

/-- Runs an action. -/
def Action.run (m : Machine σ) : Action → Act (Activation σ) Flow
  | .acquire slots => do
    onWorld (m.acquire slots.toNat)
    return .goOn
  | .setLocal index value => do
    MolangCompiler.setLocal index (← value.eval m)
    return .goOn
  | .setTruth index value => do
    MolangCompiler.setLocal index (BinaryOp.ofBool (isTrue (← value.eval m)))
    return .goOn
  | .setSlot slot value => do
    let x ← value.eval m
    onWorld (m.writeSlot slot.toNat x)
    return .goOn
  | .setSlots slot width callee args => do
    let values ← Code.evalAll m args
    let result ← onWorld (m.call callee.function values)
    MolangCompiler.setSlots m slot.toNat (← result.values width)
    return .goOn
  | .setVariable slot value => do
    let x ← value.eval m
    onWorld (m.writeVariable slot x)
    return .goOn
  | .load slot offset size => do
    let values ← onWorld (m.readVariables offset size)
    onWorld (m.writeSlots slot.toNat size values)
    return .goOn
  | .store offset size slot => do
    let values ← onWorld (m.readSlots slot.toNat size)
    onWorld (m.writeVariables offset size values)
    return .goOn
  | .finish => return .ended

/-- Whether a test chooses its first block. -/
def Test.eval (m : Machine σ) : Test → Act (Activation σ) Bool
  | .holds value => return isTrue (← value.eval m)
  | .fails value => return !isTrue (← value.eval m)

mutual

/-- Runs a step. -/
def Step.run (m : Machine σ) : Step → Act (Activation σ) Flow
  | .act action => action.run m
  | .choose test yes no => do
    if ← test.eval m then runAll m yes else runAll m no

/-- Runs steps one after the other until one of them ends the routine. -/
def Step.runAll (m : Machine σ) : List Step → Act (Activation σ) Flow
  | [] => return .goOn
  | s :: rest => do
    match ← s.run m with
    | .goOn => runAll m rest
    | .ended => return .ended

end

/-- Runs a routine on a machine, with the given arguments as its first locals.  Its values are
left in the scratch buffer. -/
def Routine.run (m : Machine σ) (routine : Routine) (args : List Float) : Act σ Unit := fun w =>
  match Step.runAll m routine.body ⟨fun i => args[i]?, w⟩ with
  | .ok _ a => .ok () a.world
  | .error e a => .error e a.world

end

end MolangCompiler
