import MolangCompiler.Text.Quoted

/-!
# The journal

The compiler notes what it does: charges, growth of its stores, new variables, loaded and compiled
routines.  Each note belongs to a part of the compiler and has a text of its own.
-/

namespace MolangCompiler

/-- One note. -/
inductive Note where
  | charged (bytes used : Int)
  | grewScratch (slots : Nat)
  | grewStore (slots : Nat)
  | created (name : String) (offset size : Nat)
  | loaded (routine : String)
  | generated (routine source text : String)
  | compiled (source routine : String) (args : Nat) (results slots : Int)
  deriving DecidableEq

namespace Note

/-- The part of the compiler that a note belongs to. -/
def topic : Note → String
  | charged .. => "molang.allocation"
  | grewScratch .. => "molang.scratch"
  | grewStore .. | created .. => "molang.variables"
  | loaded .. => "molang.codegen.loader"
  | generated .. | compiled .. => "molang.instance"

/-- The text of a note. -/
def message : Note → String
  | charged bytes used =>
    "Charged " ++ toString bytes ++ " bytes, " ++ toString used ++ " in use"
  | grewScratch slots => "Grew scratch buffer to " ++ toString slots ++ " slots"
  | grewStore slots => "Grew variable store to " ++ toString slots ++ " slots"
  | created name offset size =>
    "Created actor variable " ++ quoted name ++ " at offset " ++ toString offset ++ " (size "
      ++ toString size ++ ")"
  | loaded routine => "Loaded " ++ routine
  | generated routine source text =>
    "Generated " ++ routine ++ " for " ++ quoted source ++ ":\n" ++ text
  | compiled source routine args results slots =>
    "Compiled " ++ quoted source ++ " as " ++ routine ++ " (" ++ toString args ++ " args, "
      ++ toString results ++ " results, " ++ toString slots ++ " scratch slots)"

end Note

end MolangCompiler
