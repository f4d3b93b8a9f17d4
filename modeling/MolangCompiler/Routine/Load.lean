import MolangCompiler.Listing
import MolangCompiler.Routine.Code

/-!
# Loading a routine

The lines of a routine are read back by their indentation: the lines one level below a header form
its block, and an `else` belongs to the `if` whose block it follows.  The result is a tree of steps
that can be run.

Loading refuses text that nests too deep: more than `maxNesting` open brackets, or a line at level
`maxLevel` or beyond.  It also refuses a header without a block, which an expression without
values can leave behind.
-/

namespace MolangCompiler

/-- A step of a routine: an action, or a choice between two blocks. -/
inductive Step where
  | act (action : Action)
  | choose (test : Test) (yes no : List Step)

/-- A routine that can be run.  Its arguments are the first locals. -/
structure Routine where
  name : String
  params : Nat
  body : List Step

namespace Routine

/-! ## Reading lines back -/

/-- What a line has become together with the lines that belong to it. -/
inductive Piece where
  | step (s : Step)
  | orElse (block : List Step)
  | definition (name : String) (params : Nat) (block : List Step)

/-- The steps at the given level that come first, and what follows them. -/
def takeBlock (level : Nat) : List (Nat × Piece) → List Step × List (Nat × Piece)
  | (k, .step s) :: rest =>
    if k = level then
      let (block, after) := takeBlock level rest
      (s :: block, after)
    else ([], (k, .step s) :: rest)
  | rest => ([], rest)

/-- The block that follows as the other branch of a choice at the given level. -/
def takeOrElse (level : Nat) : List (Nat × Piece) → List Step × List (Nat × Piece)
  | (k, .orElse block) :: rest =>
    if k = level then (block, rest) else ([], (k, .orElse block) :: rest)
  | rest => ([], rest)

/-- Puts a line in front of what the lines behind it have become. -/
def absorb (line : Nat × Line) (behind : List (Nat × Piece)) : List (Nat × Piece) :=
  let level := line.1
  let inner := takeBlock (level + 1) behind
  match line.2 with
  | .act action => (level, .step (.act action)) :: behind
  | .onlyIf test =>
    let branch := takeOrElse level inner.2
    (level, .step (.choose test inner.1 branch.1)) :: branch.2
  | .otherwise => (level, .orElse inner.1) :: inner.2
  | .define name params => (level, .definition name params inner.1) :: inner.2

/-- The routine that lines describe by their indentation. -/
def ofLines? (lines : List (Nat × Line)) : Option Routine :=
  match lines.foldr absorb [] with
  | [(0, .definition name params body)] => some ⟨name, params, body⟩
  | _ => none

/-! ## Problems of the text -/

/-- The deepest nesting of brackets that can be loaded. -/
def maxNesting : Nat := 200

/-- The first level of indentation that cannot be loaded. -/
def maxLevel : Nat := 100

/-- The word that a header starts with, `none` if a line opens no block. -/
def header? : Line → Option String
  | .define .. => some "def"
  | .onlyIf _ => some "if"
  | .otherwise => some "else"
  | .act _ => none

/-- Whether a line assigns to nothing at all, which its text cannot express. -/
def hasNoTarget : Line → Bool
  | .act (.setSlots _ 0 _ _) => true
  | _ => false

/-- The problem of a line by itself and behind the line before it, which has the given number. -/
def lineProblem? (number : Nat) (before line : Nat × Line) : Option LoadProblem :=
  if maxLevel ≤ line.1 then some .indentation
  else
    match header? before.2 with
    | some word =>
      if line.1 ≤ before.1 then some (.emptyBlock word number)
      else if hasNoTarget line.2 then some .noTarget
      else if maxNesting < line.2.nesting then some .nesting
      else none
    | none =>
      if before.1 < line.1 ∨ hasNoTarget line.2 then some .unexpectedIndent
      else if maxNesting < line.2.nesting then some .nesting
      else none

/-- The first problem of the lines behind a line with the given number. -/
def firstProblem? (number : Nat) (before : Nat × Line) : List (Nat × Line) → Option LoadProblem
  | [] => none
  | line :: rest => (lineProblem? number before line).or (firstProblem? (number + 1) line rest)

/-- Loads a routine from its lines. -/
def load (lines : List (Nat × Line)) : Except LoadProblem Routine :=
  match lines with
  | [] => .error .noTarget
  | first :: rest =>
    match firstProblem? 1 first rest with
    | some problem => .error problem
    | none =>
      match ofLines? lines with
      | some routine => .ok routine
      | none => .error .unexpectedIndent

end Routine

end MolangCompiler
