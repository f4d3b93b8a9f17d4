import MolangCompiler.Ledger
import MolangCompiler.Number.Single

/-!
# Scratch buffers

A running routine writes its intermediate values and its result into a scratch buffer.  The
outermost evaluation on an instance uses the instance's shared buffer, which only the compiler
lengthens; an evaluation inside another one gets a fresh buffer of zeros, because the shared one
may still be in use.  `Loan` is the buffer that an evaluation was given.
-/

namespace MolangCompiler

/-- How many evaluations are running on an instance: none, one, or more than one. -/
inductive Reentrancy where
  | idle | oneActive | multipleActive
  deriving Repr, DecidableEq

namespace Reentrancy

/-- The state that belongs to a number of running evaluations. -/
def ofDepth (depth : Int) : Reentrancy :=
  if depth ≤ 0 then idle else if depth = 1 then oneActive else multipleActive

/-- The state as a number. -/
def toNat : Reentrancy → Nat
  | idle => 0 | oneActive => 1 | multipleActive => 2

/-- The name of a state. -/
def label : Reentrancy → String
  | idle => "IDLE" | oneActive => "ONE_ACTIVE" | multipleActive => "MULTIPLE_ACTIVE"

end Reentrancy

/-! ## Slots -/

/-- The items of an array from `start` up to `stop`, as far as they exist. -/
def slice (xs : Array Float) (start stop : Nat) : Array Float := xs.extract start stop

/-- Replaces the items from `start` up to `stop`, as far as they exist, by others. -/
def splice (xs : Array Float) (start stop : Nat) (ys : Array Float) : Array Float :=
  xs.extract 0 start ++ ys ++ xs.extract (max start stop) xs.size

/-- Sets a slot, rounded to single precision; `none` if there is no such slot. -/
def setSlot? (xs : Array Float) (slot : Nat) (x : Float) : Option (Array Float) :=
  if slot < xs.size then some (xs.setIfInBounds slot (single x)) else none

/-- Setting a slot does not change how many there are. -/
theorem size_of_setSlot? {xs ys : Array Float} {slot : Nat} {x : Float}
    (h : setSlot? xs slot x = some ys) : ys.size = xs.size := by
  simp only [setSlot?] at h
  split at h
  · cases h
    simp
  · cases h

/-! ## The shared buffer -/

/-- The shared buffer of an instance and the bytes charged for it, if they are counted. -/
structure Scratch where
  buffer : Array Float
  charged : Option Int

/-- Scratch space with the books that it is charged to. -/
structure ScratchRoom where
  books : Books
  scratch : Scratch

/-- The buffer an evaluation was given: the shared one, or one of its own with the bytes charged
for it. -/
inductive Loan where
  | shared
  | own (buffer : Array Float) (charged : Int)

namespace ScratchRoom

/-- Charges bytes to the books. -/
def charge (bytes : Int) : Act ScratchRoom Unit :=
  onPart books (fun b r => { r with books := b }) (Books.charge bytes)

/-- Charges an empty shared buffer, if bytes are counted. -/
def establish : Act ScratchRoom Unit := do
  if (← get).books.ledger.isSome then
    charge (bufferBytes 0)
    modify fun r => { r with scratch := { r.scratch with charged := some (bufferBytes 0) } }

/-- Lengthens the shared buffer. -/
def grow (missing : Nat) : Act ScratchRoom Unit := do
  modify fun r => { r with scratch := ⟨r.scratch.buffer ++ Array.replicate missing 0,
    r.scratch.charged.map (· + missing * wordBytes)⟩ }
  modify fun r => { r with books := r.books.note (.grewScratch r.scratch.buffer.size) }

/-- Lengthens the shared buffer to at least the given number of slots. -/
def ensure (slots : Int) : Act ScratchRoom Unit := do
  let missing := (slots - (← get).scratch.buffer.size).toNat
  if 0 < missing then
    if (← get).scratch.charged.isSome then
      charge (missing * wordBytes)
    grow missing

/-- The buffer for an evaluation that runs at the given depth.  One of its own is charged, where
bytes are counted. -/
def acquire (slots : Nat) (depth : Int) : Act ScratchRoom Loan := do
  match Reentrancy.ofDepth depth with
  | .multipleActive =>
    charge (bufferBytes slots)
    return .own (Array.replicate slots 0) (bufferBytes slots)
  | _ => return .shared

/-- The contents of a lent buffer. -/
def contents (room : ScratchRoom) : Loan → Array Float
  | .shared => room.scratch.buffer
  | .own buffer _ => buffer

/-- Gives up a buffer.  The shared one stays charged.  Any other is refunded, or owed back if the
evaluation failed: the failure keeps it. -/
def release (failed : Bool) (loan : Loan) (room : ScratchRoom) : ScratchRoom :=
  match loan with
  | .shared => room
  | .own _ charged =>
    if failed && room.books.ledger.isSome then { room with books := room.books.owe charged }
    else { room with books := room.books.enter (-charged) }

/-- Giving up a buffer is seen in the books only. -/
theorem scratch_release (failed : Bool) (loan : Loan) (room : ScratchRoom) :
    (room.release failed loan).scratch = room.scratch := by
  cases loan with
  | shared => rfl
  | own buffer charged => exact apply_ite scratch _ _ _ |>.trans (ite_self _)

end ScratchRoom

end MolangCompiler
