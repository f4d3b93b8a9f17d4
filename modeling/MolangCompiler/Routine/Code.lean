import MolangCompiler.Layout
import MolangCompiler.Number.Text
import MolangCompiler.Operator

/-!
# Lines of a routine

A routine is a list of lines.  `Code` is an expression inside a line: it reads locals and
variables, computes, and calls helpers and host functions, from left to right.  `Action` is a
line that does one thing; `Line` adds the lines that open a block.

Every value computed by `Code` is rounded to single precision at once, which the text shows by a
call around each operation.
-/

namespace MolangCompiler

/-- A host function under the name that it has in a routine. -/
structure Callee where
  name : String
  function : String
  deriving DecidableEq

/-- An expression inside a line. -/
inductive Code where
  | literal (value : Float)
  | readLocal (index : Nat)
  | readVariable (slot : Nat)
  | negate (operand : Code)
  | not (operand : Code)
  | binary (op : BinaryOp) (left right : Code)
  | helper (h : Helper) (args : List Code)
  | call (callee : Callee) (args : List Code)

namespace Code

/-- The arguments of a call. -/
def argumentText (args : List String) : String := "(" ++ String.intercalate ", " args ++ ")"

/-- A value rounded to single precision. -/
def roundedText (inner : String) : String := "_f32(" ++ inner ++ ")"

mutual

/-- The text of an expression. -/
def text : Code → String
  | literal value => literalText value
  | readLocal index => Layout.localName index
  | readVariable slot => "_vars[" ++ toString slot ++ "]"
  | negate operand => "(-" ++ operand.text ++ ")"
  | not operand => "(0.0 if " ++ operand.text ++ " else 1.0)"
  | binary op left right =>
    if op.isComparison then
      "(1.0 if " ++ left.text ++ " " ++ op.symbol ++ " " ++ right.text ++ " else 0.0)"
    else if op = .div then
      roundedText (Helper.div.name ++ argumentText [left.text, right.text])
    else roundedText (left.text ++ " " ++ op.symbol ++ " " ++ right.text)
  | helper h args => roundedText (h.name ++ argumentText (texts args))
  | call callee args => roundedText (callee.name ++ argumentText (texts args))

/-- The texts of all expressions of a list. -/
def texts : List Code → List String
  | [] => []
  | c :: rest => c.text :: texts rest

end

mutual

/-- How deep brackets nest in the text of an expression. -/
def nesting : Code → Nat
  | literal value =>
    let r := single value
    if r.isNaN || r.isInf then 1 else 0
  | readLocal _ => 0
  | readVariable _ => 1
  | negate operand => operand.nesting + 1
  | not operand => operand.nesting + 1
  | binary op left right =>
    max left.nesting right.nesting + (if op = .div then 2 else 1)
  | helper _ args => listNesting args + 2
  | call _ args => listNesting args + 2

/-- How deep brackets nest in the texts of a list of expressions. -/
def listNesting : List Code → Nat
  | [] => 0
  | c :: rest => max c.nesting (listNesting rest)

end

end Code

/-- A line that does one thing. -/
inductive Action where
  /-- Asks for a scratch buffer with room for the given number of slots. -/
  | acquire (slots : Int)
  | setLocal (index : Nat) (value : Code)
  /-- Sets a local to one if the value is true and to zero if it is false. -/
  | setTruth (index : Nat) (value : Code)
  | setSlot (slot : Int) (value : Code)
  /-- Sets neighbouring slots to the values that a host function returns. -/
  | setSlots (slot : Int) (width : Nat) (callee : Callee) (args : List Code)
  | setVariable (slot : Nat) (value : Code)
  /-- Copies a variable into the scratch buffer. -/
  | load (slot : Int) (offset size : Nat)
  /-- Copies values from the scratch buffer into a variable. -/
  | store (offset size : Nat) (slot : Int)
  /-- Ends the routine; its values are in the scratch buffer. -/
  | finish

/-- The test that decides between two blocks. -/
inductive Test where
  | holds (value : Code)
  | fails (value : Code)

/-- A line of a routine. -/
inductive Line where
  | define (name : String) (params : Nat)
  | act (action : Action)
  | onlyIf (test : Test)
  | otherwise

/-- The text of an action, for a routine that keeps its scratch buffer in local `scratch`. -/
def Action.text (scratch : Nat) : Action → String
  | acquire slots => s ++ " = _scratch.acquire(" ++ toString slots ++ ", _depth)"
  | setLocal index value => Layout.localName index ++ " = " ++ value.text
  | setTruth index value => Layout.localName index ++ " = 1.0 if " ++ value.text ++ " else 0.0"
  | setSlot slot value => slotText slot ++ " = " ++ value.text
  | setSlots slot width callee args =>
    String.intercalate ", " ((List.range width).map fun (i : Nat) => slotText (slot + i)) ++ " = "
      ++ callee.name ++ Code.argumentText (Code.texts args)
  | setVariable slot value => "_vars[" ++ toString slot ++ "] = " ++ value.text
  | load slot offset size =>
    rangeText s slot (slot + size) ++ " = " ++ rangeText "_vars" offset (offset + size)
  | store offset size slot =>
    rangeText "_vars" offset (offset + size) ++ " = " ++ rangeText s slot (slot + size)
  | finish => "return " ++ s
where
  /-- The scratch buffer. -/
  s : String := Layout.localName scratch
  /-- One slot of the scratch buffer. -/
  slotText (i : Int) : String := s ++ "[" ++ toString i ++ "]"
  /-- Slots from `start` up to `stop`. -/
  rangeText (array : String) (start stop : Int) : String :=
    array ++ "[" ++ toString start ++ ":" ++ toString stop ++ "]"

/-- The text of a test. -/
def Test.text : Test → String
  | holds value => value.text
  | fails value => "not " ++ value.text

/-- The text of a line, for a routine that keeps its scratch buffer in local `scratch`. -/
def Line.text (scratch : Nat) : Line → String
  | define name params =>
    "def " ++ name
      ++ Code.argumentText ("_depth" :: (List.range params).map Layout.localName) ++ ":"
  | act action => action.text scratch
  | onlyIf test => "if " ++ test.text ++ ":"
  | otherwise => "else:"

/-- How deep brackets nest in the text of a line. -/
def Line.nesting : Line → Nat
  | define .. => 1
  | act action => match action with
    | .acquire _ | .load .. | .store .. => 1
    | .setLocal _ value | .setTruth _ value => value.nesting
    | .setSlot _ value | .setVariable _ value => max 1 value.nesting
    | .setSlots _ _ _ args => Code.listNesting args + 1
    | .finish => 0
  | onlyIf (.holds value) | onlyIf (.fails value) => value.nesting
  | otherwise => 0

end MolangCompiler
