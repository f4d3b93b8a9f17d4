import MolangCompiler.Failure
import MolangCompiler.Pairs

/-!
# Layout of a routine

While a routine is written, its layout hands out two kinds of places.  Output regions are ranges
of slots in the scratch buffer; they are given back in the order of a stack, and the largest
extent ever reached decides how long the buffer must be.  Locals are handed out once and for all.
The layout also names the host functions that the routine calls.
-/

namespace MolangCompiler

/-- The places handed out so far. -/
structure Layout where
  /-- The local that holds the scratch buffer. -/
  scratchLocal : Nat
  /-- The next local to be handed out. -/
  nextLocal : Nat
  /-- The next slot to be handed out. -/
  nextSlot : Int
  /-- The largest extent that regions have reached. -/
  extent : Int
  /-- Names given to functions, in the order in which they were given. -/
  bound : List (String × String)
  /-- Where the value of the enclosing statement sequence belongs. -/
  resultRegion : Option Int

namespace Layout

/-- A layout that has handed out nothing yet. -/
def start (scratchLocal firstLocal : Nat) (firstSlot : Int) : Layout :=
  ⟨scratchLocal, firstLocal, firstSlot, firstSlot, [], none⟩

/-- Hands out a region of the given width; its first slot. -/
def reserve (width : Int) (l : Layout) : Except TreeProblem (Int × Layout) :=
  if width < 0 then .error (.negativeRegion width)
  else
    let next := l.nextSlot + width
    .ok (l.nextSlot, { l with nextSlot := next, extent := max l.extent next })

/-- Takes back every region that starts at or behind a slot. -/
def release (base : Int) (l : Layout) : Except TreeProblem Layout :=
  if l.nextSlot < base then .error (.unreservedRegion base) else .ok { l with nextSlot := base }

/-- Hands out locals; the first of them. -/
def reserveLocals (count : Nat) (l : Layout) : Nat × Layout :=
  (l.nextLocal, { l with nextLocal := l.nextLocal + count })

/-- The text of a local. -/
def localName (index : Nat) : String := "_l" ++ toString index

/-- The text of the scratch buffer. -/
def scratchName (l : Layout) : String := localName l.scratchLocal

/-- The text of a slot of the scratch buffer. -/
def slotName (index : Int) (l : Layout) : String :=
  l.scratchName ++ "[" ++ toString index ++ "]"

/-- The name of a function in the routine, given to it if it has none yet. -/
def bind (function hint : String) (l : Layout) : String × Layout :=
  match l.bound.find? (·.2 == function) with
  | some entry => (entry.1, l)
  | none =>
    let name := "_" ++ hint ++ toString l.bound.length
    (name, { l with bound := putPair l.bound name function })

/-- Names and functions in the order of the names. -/
def sortedBound (l : Layout) : List (String × String) := l.bound.mergeSort fun a b => a.1 ≤ b.1

end Layout

end MolangCompiler
