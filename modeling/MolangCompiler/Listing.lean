/-!
# Listings

A listing is a sequence of lines, each at a level of indentation.  Lines are added at the current
level; a line can also be inserted at an earlier place, which a mark remembers, so that a value
can be set aside after the lines that follow it are known.
-/

namespace MolangCompiler

/-- Lines with their levels of indentation, and the level at which lines are added. -/
structure Listing (α : Type) where
  lines : List (Nat × α)
  level : Nat

namespace Listing

variable {α : Type}

/-- A listing without lines. -/
def empty : Listing α := ⟨[], 0⟩

/-- Adds a line at the current level. -/
def line (a : α) (l : Listing α) : Listing α := { l with lines := l.lines ++ [(l.level, a)] }

/-- The place at which the next line will be added. -/
def mark (l : Listing α) : Nat := l.lines.length

/-- The index a position stands for: a negative one counts from the end, and none lies outside
the listing. -/
def place (l : Listing α) (position : Int) : Nat :=
  if position < 0 then (l.lines.length + position).toNat else min position.toNat l.lines.length

/-- Inserts a line at a position, at the current level. -/
def insert (position : Int) (a : α) (l : Listing α) : Listing α :=
  { l with lines :=
      l.lines.take (l.place position) ++ (l.level, a) :: l.lines.drop (l.place position) }

/-- Starts to add lines one level deeper. -/
def indent (l : Listing α) : Listing α := { l with level := l.level + 1 }

/-- Starts to add lines one level higher, unless the level is the outermost one. -/
def dedent (l : Listing α) : Listing α := { l with level := l.level - 1 }

/-- The lines as text, each behind as many copies of `unit` as its level says. -/
def texts (unit : String) (write : α → String) (l : Listing α) : List String :=
  l.lines.map fun p => String.join (List.replicate p.1 unit) ++ write p.2

/-- The whole listing as text; the last line is ended too. -/
def text (unit : String) (write : α → String) (l : Listing α) : String :=
  String.intercalate "\n" (l.texts unit write) ++ "\n"

end Listing

end MolangCompiler
