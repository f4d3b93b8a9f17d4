import MolangCompiler.Text.Integer
import MolangCompiler.Text.Quoted

/-!
# Failures

Everything that can go wrong, by cause, and the wording of each cause.  A problem in a source
comes with its place: the message quotes the line and marks the place with carets.
-/

namespace MolangCompiler

/-- A singular or plural ending. -/
def pluralEnding (n : Int) : String := if n = 1 then "" else "s"

/-! ## Places in a source -/

/-- The line of a source that holds position `start`, and carets under the characters from
`start` to `stop`.  The carets stay within the line, and there is at least one. -/
def excerpt (source : String) (start : Nat) (stop : Option Nat) : String :=
  let cs := source.toList
  let lead := ((cs.take start).reverse.takeWhile (· != '\n')).reverse
  let tail := (cs.drop start).takeWhile (· != '\n')
  let wanted := match stop with
    | some e => if start < e then e - start else 1
    | none => 1
  let column := lead.length + (start - cs.length)
  String.ofList (lead ++ tail) ++ "\n"
    ++ String.ofList (List.replicate column ' '
      ++ List.replicate (max 1 (min wanted tail.length)) '^')

/-- The excerpt for a position that counts from the end of the source: its line, with the carets
at the margin. -/
def excerptFromEnd (source : String) (start : Int) (stop : Option Int) : String :=
  let cs := source.toList
  let position := (cs.length + start).toNat
  let lead := ((cs.take position).reverse.takeWhile (· != '\n')).reverse
  let tail := (cs.drop position).takeWhile (· != '\n')
  let wanted : Int := match stop with
    | some e => if start < e then e else start + 1
    | none => start + 1
  let lineStop : Int := position + tail.length
  let width := (min wanted lineStop - start).toNat
  String.ofList (lead ++ tail) ++ "\n" ++ String.ofList (List.replicate (max 1 width) '^')

/-- The excerpt of a problem whose source and place may be unknown. -/
def excerptIfKnown (source : Option String) (start stop : Option Int) : String :=
  match source, start with
  | some text, some position =>
    if 0 ≤ position then excerpt text position.toNat (stop.map Int.toNat)
    else excerptFromEnd text position stop
  | _, _ => ""

/-- A message with its place, if the place is known. -/
def withPlace (message : String) (source : Option String) (start stop : Option Int) : String :=
  match start with
  | none => message
  | some position =>
    message ++ " (at position " ++ toString position ++ ")\n" ++ excerptIfKnown source start stop

/-- What can be wrong with a source. -/
inductive SourceProblem where
  | illegalCharacter (c : Char)
  | emptySource
  | unexpected (text : String)
  | unexpectedEnd
  | notSingle (width : Int)
  | branchWidths (yes no : Int)
  | returnWidths (width earlier : Int)
  | unknownContext (name : String)
  | emptyConstant (name : String)
  | unknownIdentifier (name : String)
  | unknownFunction (name : String)
  | assignWidth (width : Int) (name : String) (size : Nat)
  | tempWidth (name : String)
  | notAssignable (name : String)
  | argumentCount (name : String) (arity given : Nat)
  | argumentWidth (name : String)
  | reported (text : String)
  deriving DecidableEq

/-- The wording of a problem in a source. -/
def SourceProblem.message : SourceProblem → String
  | illegalCharacter c => "Illegal character '" ++ c.toString ++ "'"
  | emptySource => "Empty expression"
  | unexpected text => "Syntax error at '" ++ text ++ "'"
  | unexpectedEnd => "Syntax error at end of input"
  | notSingle width => "Expected a single value but got " ++ toString width
  | branchWidths yes no =>
    "Ternary branches have different widths (" ++ toString yes ++ " and " ++ toString no ++ ")"
  | returnWidths width earlier =>
    "Return of " ++ toString width ++ " values conflicts with an earlier return of "
      ++ toString earlier
  | unknownContext name => "Unknown context variable '" ++ name ++ "'"
  | emptyConstant name => "Constant '" ++ name ++ "' has no values"
  | unknownIdentifier name => "Unknown identifier '" ++ name ++ "'"
  | unknownFunction name => "Unknown function '" ++ name ++ "'"
  | assignWidth width name size =>
    "Cannot assign " ++ toString width ++ " values to variable '" ++ name ++ "' of width "
      ++ toString size
  | tempWidth name => "Temp variable '" ++ name ++ "' can only hold a single value"
  | notAssignable name => "Cannot assign to '" ++ name ++ "'"
  | argumentCount name arity given =>
    "'" ++ name ++ "' expects " ++ toString arity ++ " argument" ++ pluralEnding arity ++ ", got "
      ++ toString given
  | argumentWidth name => "Arguments to '" ++ name ++ "' must be single values"
  | reported text => text

/-- A problem in a source together with its place. -/
structure SourceError where
  problem : SourceProblem
  source : String
  start : Nat
  stop : Nat
  deriving DecidableEq

/-- The message of a problem in a source. -/
def SourceError.message (e : SourceError) : String :=
  withPlace e.problem.message (some e.source) (some e.start) (some e.stop)

/-! ## Other causes -/

/-- Why a variable of the requested size cannot be had. -/
inductive SizeProblem where
  | taken (name : String) (size : Nat) (requested : Int)
  | notPositive (name : String) (requested : Int)
  | misnamed (name : String) (announced requested : Int)
  deriving DecidableEq

/-- The wording of a size problem. -/
def SizeProblem.message : SizeProblem → String
  | taken name size requested =>
    "Variable '" ++ name ++ "' already has size " ++ toString size ++ ", not " ++ toString requested
  | notPositive name requested =>
    "Variable '" ++ name ++ "' must have a positive size, got " ++ toString requested
  | misnamed name announced requested =>
    "Variable '" ++ name ++ "' encodes size " ++ toString announced ++ " but size "
      ++ toString requested ++ " was requested"

/-- A charge that would exceed the budget; `byHost` tells whose error it is reported as. -/
structure Refusal where
  requested : Int
  used : Int
  budget : Int
  byHost : Bool
  deriving DecidableEq

/-- The wording of a refused charge. -/
def Refusal.message (r : Refusal) : String :=
  "Allocation of " ++ toString r.requested ++ " bytes exceeds budget (" ++ toString r.used ++ " of "
    ++ toString r.budget ++ " bytes in use)"

/-- What can be wrong with an expression tree or with the layout of its routine. -/
inductive TreeProblem where
  | noValues
  | unknownBinary (symbol : String)
  | unknownLogical (symbol : String)
  | unknownHelper (name : String)
  | notScalar (kind : String) (width : Int)
  | negativeRegion (width : Int)
  | unreservedRegion (base : Int)
  | strayReturn
  | numeralLength
  deriving DecidableEq

/-- The wording of a problem in a tree. -/
def TreeProblem.message : TreeProblem → String
  | noValues => "A constant needs at least one value"
  | unknownBinary symbol => "Unknown binary operator '" ++ symbol ++ "'"
  | unknownLogical symbol => "Unknown logical operator '" ++ symbol ++ "'"
  | unknownHelper name => "Unknown runtime helper '" ++ name ++ "'"
  | notScalar kind width => kind ++ " of width " ++ toString width ++ " is not a scalar"
  | negativeRegion width => "Output region width must not be negative, got " ++ toString width
  | unreservedRegion base => "Region " ++ toString base ++ " was never reserved"
  | strayReturn => "return emitted outside of a statement sequence"
  | numeralLength =>
    "Exceeds the limit (" ++ toString maxDigits ++ " digits) for integer string conversion; "
      ++ "use sys.set_int_max_str_digits() to increase the limit"

/-- Why the text of a routine cannot be loaded. -/
inductive LoadProblem where
  | nesting
  | indentation
  | emptyBlock (header : String) (line : Nat)
  | unexpectedIndent
  | noTarget
  deriving DecidableEq

/-- The wording of a loading problem. -/
def LoadProblem.message : LoadProblem → String
  | nesting => "too many nested parentheses"
  | indentation => "too many levels of indentation"
  | emptyBlock header line =>
    "expected an indented block after '" ++ header ++ "' statement on line " ++ toString line
  | unexpectedIndent => "unexpected indent"
  | noTarget => "invalid syntax"

/-- What can go wrong while a routine runs. -/
inductive RunProblem where
  | argumentCount (routine : String) (expected given : Nat)
  | listForNumber
  | numberForList
  | tooFewValues (expected given : Nat)
  | tooManyValues (expected : Nat)
  | unsetLocal (index : Nat)
  | helperArguments (helper : String) (given : Nat)
  | readRange
  | writeRange
  | hostFailed
  | nestingLimit
  deriving DecidableEq

/-- The wording of a problem at run time. -/
def RunProblem.message : RunProblem → String
  | argumentCount routine expected given =>
    routine ++ " takes " ++ toString expected ++ " context value" ++ pluralEnding expected
      ++ ", got " ++ toString given
  | listForNumber => "required argument is not a float"
  | numberForList => "cannot unpack non-iterable float object"
  | tooFewValues expected given =>
    "not enough values to unpack (expected " ++ toString expected ++ ", got " ++ toString given
      ++ ")"
  | tooManyValues expected => "too many values to unpack (expected " ++ toString expected ++ ")"
  | unsetLocal index =>
    "cannot access local variable '_l" ++ toString index
      ++ "' where it is not associated with a value"
  | helperArguments helper given => helper ++ " cannot take " ++ toString given ++ " values"
  | readRange => "array index out of range"
  | writeRange => "array assignment index out of range"
  | hostFailed => "query failed"
  | nestingLimit => "maximum recursion depth exceeded"

/-- Any failure of an operation. -/
inductive Failure where
  | source (error : SourceError)
  | contextArity (given : Nat)
  | variableSize (problem : SizeProblem)
  | refused (refusal : Refusal)
  | tree (problem : TreeProblem)
  | notExpression (query kind : String)
  | misplaced (kind : String)
  | missingArgument
  | emission (source : String) (problem : TreeProblem)
  | loading (source : String) (problem : LoadProblem)
  | run (problem : RunProblem)
  | unknownVariable (name : String)
  | valueCount (name : String) (size given : Nat)
  | unsized (kind : String)
  | noArtifact (index : Int)
  | noInstance (name : String)
  deriving DecidableEq

/-- The size that was asked for. -/
def SizeProblem.requested : SizeProblem → Int
  | taken _ _ requested | notPositive _ requested | misnamed _ _ requested => requested

/-- A size problem as a failure.  Its message writes the size out, and a numeral that is too long to
be read is not written either. -/
def SizeProblem.failure (problem : SizeProblem) : Failure :=
  if (Nat.toDigits 10 problem.requested.natAbs).length ≤ maxDigits then .variableSize problem
  else .tree .numeralLength

/-- The largest number of context values of one expression. -/
def maxContextValues : Nat := 8

/-- The wording of a failure. -/
def Failure.message : Failure → String
  | source error => error.message
  | contextArity given =>
    "Must have at most " ++ toString maxContextValues ++ " context variables, got "
      ++ toString given
  | variableSize problem => problem.message
  | refused refusal => refusal.message
  | tree problem => problem.message
  | notExpression query kind => "Query '" ++ query ++ "' returned " ++ kind ++ ", not an expression"
  | misplaced kind => kind ++ " cannot stand here"
  | missingArgument => "list index out of range"
  | emission text _ => "Failed to compile molang: " ++ quoted text
  | loading text _ => "Failed to load molang: " ++ quoted text
  | run problem => problem.message
  | unknownVariable name => quoted name
  | valueCount name size given =>
    "Variable '" ++ name ++ "' holds " ++ toString size ++ " values, got " ++ toString given
  | unsized kind => "Cannot estimate the size of " ++ kind ++ "; pass an explicit size"
  | noArtifact index => toString index
  | noInstance name => name

end MolangCompiler
