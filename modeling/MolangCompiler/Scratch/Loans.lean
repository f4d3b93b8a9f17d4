import MolangCompiler.Scratch

/-!
# Held buffers

Buffers that were lent and are held under names.  All loans of the shared buffer are one buffer: a
number written through one is seen through the others.  Every other loan is a buffer of its own.
-/

namespace MolangCompiler

/-- Scratch space and the buffers that are held. -/
structure Loans where
  room : ScratchRoom
  held : List (String × Loan)

namespace Loans

/-- Scratch space of which nothing is held. -/
def start (ledger : Option Ledger) : Loans := ⟨⟨Books.start ledger, ⟨#[], none⟩⟩, []⟩

/-- The buffer held under a name. -/
def loan? (l : Loans) (name : String) : Option Loan :=
  (l.held.find? (·.1 == name)).map (·.2)

/-- The numbers in the buffer held under a name. -/
def contents (l : Loans) (name : String) : List Float :=
  ((l.loan? name).map fun loan => (l.room.contents loan).toList).getD []

/-- Whether the shared buffer is held under a name. -/
def isShared (l : Loans) (name : String) : Bool :=
  match l.loan? name with
  | some .shared => true
  | _ => false

/-- Whether two names hold one buffer. -/
def same (l : Loans) (x y : String) : Bool := (l.isShared x && l.isShared y) || x == y

/-- Runs an operation on the scratch space. -/
def onRoom {α : Type} (act : Act ScratchRoom α) : Act Loans α :=
  onPart room (fun r l => { l with room := r }) act

/-- Stops holding a buffer. -/
def free (name : String) (l : Loans) : Loans :=
  match l.loan? name with
  | none => l
  | some loan => ⟨l.room.release false loan, l.held.filter (·.1 != name)⟩

/-- Acquires a buffer and holds it under a name.  A buffer held there before is given up once the
new one has been charged. -/
def acquire (name : String) (slots : Nat) (depth : Int) : Act Loans Unit := do
  let loan ← onRoom (ScratchRoom.acquire slots depth)
  modify fun l => { l.free name with held := (name, loan) :: (l.free name).held }

/-- The slot that a position in a buffer stands for; a negative one counts from the end. -/
def slotAt (buffer : Array Float) (position : Int) : Option Nat :=
  let slot := if position < 0 then position + buffer.size else position
  if 0 ≤ slot then some slot.toNat else none

/-- Writes a number into a held buffer. -/
def write (name : String) (position : Int) (x : Float) : Act Loans Unit := do
  let l ← get
  match l.loan? name with
  | none => return ()
  | some loan =>
    let buffer := l.room.contents loan
    match loan, (slotAt buffer position).bind (setSlot? buffer · x) with
    | _, none => throw (.run .writeRange)
    | .shared, some buffer =>
      set { l with room := { l.room with scratch := { l.room.scratch with buffer := buffer } } }
    | .own _ charged, some buffer =>
      set { l with held := (name, .own buffer charged) :: l.held.filter (·.1 != name) }

end Loans

end MolangCompiler
