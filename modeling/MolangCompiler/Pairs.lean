/-!
# Lists of pairs

Maps from texts whose order matters are lists of pairs.  A key keeps the place at which it first
appears and has the value that it is given last.
-/

namespace MolangCompiler

variable {α : Type}

/-- The last value of a key in a list of pairs. -/
def lastOf? (pairs : List (String × α)) (key : String) : Option α :=
  (pairs.reverse.find? (·.1 == key)).map (·.2)

/-- Gives a key a value: in its place if it has one, else at the end. -/
def putPair (pairs : List (String × α)) (key : String) (value : α) : List (String × α) :=
  if pairs.any (·.1 == key) then pairs.map fun p => if p.1 == key then (key, value) else p
  else pairs ++ [(key, value)]

/-- Each key once, at its first place and with its last value. -/
def merged (pairs : List (String × α)) : List (String × α) :=
  pairs.foldl (fun acc p => putPair acc p.1 p.2) []

end MolangCompiler
