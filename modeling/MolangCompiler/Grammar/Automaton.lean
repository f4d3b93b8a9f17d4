import MolangCompiler.Grammar

/-!
# The table of the grammar

The grammar can be read by an automaton that knows nothing but a table.  The
automaton keeps a stack of states.  The state on top and the next token select
an entry of the table: shift the token, reduce by a production, accept, or give
up.

The table was generated from the productions and from the levels of the
operators.  It has sixty-three states, and it is kept here as it was stored,
column by column.
-/

namespace MolangCompiler

/-- The kinds of tokens. -/
inductive Kind where
  | number | name | ret
  | operator (op : Operator)
  | not
  | openParen | closeParen | openBracket | closeBracket
  | comma | semicolon | assign | question | colon
  deriving DecidableEq

/-- What words are derived from. -/
inductive Nonterminal where
  | program | statementList | statement | effectStatement | expression
  | expressionList
  deriving DecidableEq

/-! ## The table -/

namespace Table

/-- The states with an entry for tokens that only start an operand. -/
def operandStarts : List Nat :=
  [0, 4, 6, 7, 8, 9, 12, 13, 14, 15, 16, 17, 18, 19, 20, 21, 22, 23, 24, 25, 29,
   36, 37, 52, 55, 59]

/-- The states with an entry for tokens that only follow an operand. -/
def operandEnds : List Nat :=
  [2, 10, 11, 27, 30, 31, 32, 33, 35, 38, 39, 40, 41, 42, 43, 44, 45, 46, 47,
   48, 49, 50, 51, 53, 54, 56, 58, 60, 61, 62]

/-- The entries of the table: for a kind of token, or the end of the source,
the states that have one, and what it is.  A positive entry is the state that
shifting leads to, a negative one the number of a production, and zero
accepts. -/
def actions : List (Option Kind × List Nat × List Int) := [
  (some (.operator (.binary .sub)), [0, 2, 4, 6, 7, 8, 9, 10, 11, 12, 13, 14,
    15, 16, 17, 18, 19, 20, 21, 22, 23, 24, 25, 27, 29, 30, 31, 32, 33, 35, 36,
    37, 38, 39, 40, 41, 42, 43, 44, 45, 46, 47, 48, 49, 50, 51, 52, 53, 54, 55,
    56, 58, 59, 60, 61, 62], [6, 14, 6, 6, 6, 6, 6, -28, -29, 6, 6, 6, 6, 6, 6,
    6, 6, 6, 6, 6, 6, 6, 6, 14, -5, -24, -29, -25, 14, 14, 6, 6, 14, -11, -12,
    -13, -14, 14, 14, 14, 14, 14, 14, 14, 14, 14, -6, -26, -27, 6, -30, 14, 6,
    14, -31, 14]),
  (some .not, operandStarts, [7, 7, 7, 7, 7, 7, 7, 7, 7, 7, 7, 7, 7, 7, 7, 7, 7,
    7, 7, 7, -5, 7, 7, -6, 7, 7]),
  (some .openParen, [0, 4, 6, 7, 8, 9, 11, 12, 13, 14, 15, 16, 17, 18, 19, 20,
    21, 22, 23, 24, 25, 29, 31, 36, 37, 52, 55, 59], [8, 8, 8, 8, 8, 8, 36, 8,
    8, 8, 8, 8, 8, 8, 8, 8, 8, 8, 8, 8, 8, -5, 36, 8, 8, -6, 8, 8]),
  (some .openBracket, operandStarts, [9, 9, 9, 9, 9, 9, 9, 9, 9, 9, 9, 9, 9, 9,
    9, 9, 9, 9, 9, 9, -5, 9, 9, -6, 9, 9]),
  (some .number, operandStarts, [10, 10, 10, 10, 10, 10, 10, 10, 10, 10, 10, 10,
    10, 10, 10, 10, 10, 10, 10, 10, -5, 10, 10, -6, 10, 10]),
  (some .name, operandStarts, [11, 11, 31, 31, 31, 31, 31, 31, 31, 31, 31, 31,
    31, 31, 31, 31, 31, 31, 31, 31, -5, 31, 31, -6, 31, 31]),
  (some .ret, [0, 4, 29, 52], [12, 12, -5, -6]),
  (none, [1, 2, 3, 4, 10, 11, 26, 27, 28, 29, 30, 31, 32, 38, 39, 40, 41, 42,
    43, 44, 45, 46, 47, 48, 49, 50, 52, 53, 54, 56, 58, 61, 62], [0, -1, -2, -3,
    -28, -29, -4, -7, -8, -5, -24, -29, -25, -10, -11, -12, -13, -14, -15, -16,
    -17, -18, -19, -20, -21, -22, -6, -26, -27, -30, -9, -31, -23]),
  (some (.operator (.binary .add)), operandEnds, [13, -28, -29, 13, -24, -29,
    -25, 13, 13, 13, -11, -12, -13, -14, 13, 13, 13, 13, 13, 13, 13, 13, 13,
    -26, -27, -30, 13, 13, -31, 13]),
  (some (.operator (.binary .mul)), operandEnds, [15, -28, -29, 15, -24, -29,
    -25, 15, 15, 15, 15, 15, -13, -14, 15, 15, 15, 15, 15, 15, 15, 15, 15, -26,
    -27, -30, 15, 15, -31, 15]),
  (some (.operator (.binary .div)), operandEnds, [16, -28, -29, 16, -24, -29,
    -25, 16, 16, 16, 16, 16, -13, -14, 16, 16, 16, 16, 16, 16, 16, 16, 16, -26,
    -27, -30, 16, 16, -31, 16]),
  (some (.operator (.binary .lt)), operandEnds, [17, -28, -29, 17, -24, -29,
    -25, 17, 17, 17, -11, -12, -13, -14, -15, -16, -17, -18, 17, 17, 17, 17, 17,
    -26, -27, -30, 17, 17, -31, 17]),
  (some (.operator (.binary .le)), operandEnds, [18, -28, -29, 18, -24, -29,
    -25, 18, 18, 18, -11, -12, -13, -14, -15, -16, -17, -18, 18, 18, 18, 18, 18,
    -26, -27, -30, 18, 18, -31, 18]),
  (some (.operator (.binary .gt)), operandEnds, [19, -28, -29, 19, -24, -29,
    -25, 19, 19, 19, -11, -12, -13, -14, -15, -16, -17, -18, 19, 19, 19, 19, 19,
    -26, -27, -30, 19, 19, -31, 19]),
  (some (.operator (.binary .ge)), operandEnds, [20, -28, -29, 20, -24, -29,
    -25, 20, 20, 20, -11, -12, -13, -14, -15, -16, -17, -18, 20, 20, 20, 20, 20,
    -26, -27, -30, 20, 20, -31, 20]),
  (some (.operator (.binary .eq)), operandEnds, [21, -28, -29, 21, -24, -29,
    -25, 21, 21, 21, -11, -12, -13, -14, -15, -16, -17, -18, -19, -20, 21, 21,
    21, -26, -27, -30, 21, 21, -31, 21]),
  (some (.operator (.binary .ne)), operandEnds, [22, -28, -29, 22, -24, -29,
    -25, 22, 22, 22, -11, -12, -13, -14, -15, -16, -17, -18, -19, -20, 22, 22,
    22, -26, -27, -30, 22, 22, -31, 22]),
  (some (.operator (.logical .and)), operandEnds, [23, -28, -29, 23, -24, -29,
    -25, 23, 23, 23, -11, -12, -13, -14, -15, -16, -17, -18, -19, -20, -21, 23,
    23, -26, -27, -30, 23, 23, -31, 23]),
  (some (.operator (.logical .or)), operandEnds, [24, -28, -29, 24, -24, -29,
    -25, 24, 24, 24, -11, -12, -13, -14, -15, -16, -17, -18, -19, -20, -21, -22,
    24, -26, -27, -30, 24, 24, -31, 24]),
  (some .question, operandEnds, [25, -28, -29, 25, -24, -29, -25, 25, 25, 25,
    -11, -12, -13, -14, -15, -16, -17, -18, -19, -20, -21, -22, 25, -26, -27,
    -30, 25, 25, -31, 25]),
  (some .semicolon, [2, 3, 5, 10, 11, 26, 27, 28, 30, 31, 32, 38, 39, 40, 41,
    42, 43, 44, 45, 46, 47, 48, 49, 50, 53, 54, 56, 58, 61, 62], [-7, -8, 29,
    -28, -29, 52, -7, -8, -24, -29, -25, -10, -11, -12, -13, -14, -15, -16, -17,
    -18, -19, -20, -21, -22, -26, -27, -30, -9, -31, -23]),
  (some .closeParen, [10, 30, 31, 32, 33, 35, 36, 39, 40, 41, 42, 43, 44, 45,
    46, 47, 48, 49, 50, 53, 54, 56, 57, 60, 61, 62], [-28, -24, -29, -25, 53,
    -32, 56, -11, -12, -13, -14, -15, -16, -17, -18, -19, -20, -21, -22, -26,
    -27, -30, 61, -33, -31, -23]),
  (some .closeBracket, [10, 30, 31, 32, 34, 35, 39, 40, 41, 42, 43, 44, 45, 46,
    47, 48, 49, 50, 53, 54, 56, 60, 61, 62], [-28, -24, -29, -25, 54, -32, -11,
    -12, -13, -14, -15, -16, -17, -18, -19, -20, -21, -22, -26, -27, -30, -33,
    -31, -23]),
  (some .comma, [10, 30, 31, 32, 34, 35, 39, 40, 41, 42, 43, 44, 45, 46, 47, 48,
    49, 50, 53, 54, 56, 57, 60, 61, 62], [-28, -24, -29, -25, 55, -32, -11, -12,
    -13, -14, -15, -16, -17, -18, -19, -20, -21, -22, -26, -27, -30, 55, -33,
    -31, -23]),
  (some .colon, [10, 30, 31, 32, 39, 40, 41, 42, 43, 44, 45, 46, 47, 48, 49, 50,
    51, 53, 54, 56, 61, 62], [-28, -24, -29, -25, -11, -12, -13, -14, -15, -16,
    -17, -18, -19, -20, -21, -22, 59, -26, -27, -30, -31, -23]),
  (some .assign, [11], [37])]

/-- The states that reductions lead to: for a nonterminal the states below it,
and the one above. -/
def gotos : List (Nonterminal × List Nat × List Nat) := [
  (.program, [0], [1]),
  (.expression, [0, 4, 6, 7, 8, 9, 12, 13, 14, 15, 16, 17, 18, 19, 20, 21, 22,
    23, 24, 25, 36, 37, 55, 59], [2, 27, 30, 32, 33, 35, 38, 39, 40, 41, 42, 43,
    44, 45, 46, 47, 48, 49, 50, 51, 35, 58, 60, 62]),
  (.effectStatement, [0, 4], [3, 28]),
  (.statementList, [0], [4]),
  (.statement, [0, 4], [5, 26]),
  (.expressionList, [9, 36], [34, 57])]

/-- The productions by their numbers, which start at one: what is on the left,
and how many symbols are on the right. -/
def productions : List (Nonterminal × Nat) := [
  (.program, 1), (.program, 1), (.program, 1), (.program, 2),
  (.statementList, 2), (.statementList, 3), (.statement, 1), (.statement, 1),
  (.effectStatement, 3), (.effectStatement, 2), (.expression, 3),
  (.expression, 3), (.expression, 3), (.expression, 3), (.expression, 3),
  (.expression, 3), (.expression, 3), (.expression, 3), (.expression, 3),
  (.expression, 3), (.expression, 3), (.expression, 3), (.expression, 5),
  (.expression, 2), (.expression, 2), (.expression, 3), (.expression, 3),
  (.expression, 1), (.expression, 1), (.expression, 3), (.expression, 4),
  (.expressionList, 1), (.expressionList, 3)]

/-- The entry of a column for a state. -/
def entry {α : Type} (column : List Nat × List α) (state : Nat) : Option α :=
  (column.1.zip column.2).lookup state

/-- What to do in a state before a token, or before the end of the source. -/
def action (state : Nat) (token : Option Kind) : Option Int :=
  (actions.lookup token).bind (entry · state)

/-- The state behind a nonterminal that has been put on top of a state. -/
def goto (state : Nat) (n : Nonterminal) : Option Nat :=
  (gotos.lookup n).bind (entry · state)

end Table

/-! ## The automaton -/

/-- How reading ends. -/
inductive Ending where
  | accepted
  /-- The token with this index cannot stand where it does. -/
  | blamed (index : Nat)
  /-- The source must not end where it does. -/
  | unfinished

/-- The automaton: its stack of states, the one on top first, the tokens that
have not been read, and the number of those that have. -/
structure Automaton where
  stack : List Nat
  rest : List Kind
  index : Nat

/-- What a move of the automaton leads to. -/
inductive Advance where
  | on (automaton : Automaton)
  | ended (ending : Ending)
  /-- The stack does not fit the table. -/
  | broken

namespace Automaton

/-- Nothing has been read. -/
def start (tokens : List Kind) : Automaton := ⟨[0], tokens, 0⟩

/-- Blames the next token, or the end of the source. -/
def blame (a : Automaton) : Ending :=
  if a.rest.isEmpty then .unfinished else .blamed a.index

/-- Puts the next token on the stack. -/
def shift (a : Automaton) (state : Nat) : Advance :=
  match a.rest with
  | [] => .broken
  | _ :: rest => .on ⟨state :: a.stack, rest, a.index + 1⟩

/-- Replaces the symbols of a production by what is on its left. -/
def reduce (a : Automaton) (n : Nonterminal) (size : Nat) : Advance :=
  let below := a.stack.drop size
  match below.head?.bind (Table.goto · n) with
  | none => .broken
  | some state => .on { a with stack := state :: below }

/-- Does what the table says. -/
def step (a : Automaton) : Advance :=
  match a.stack.head?.bind (Table.action · a.rest.head?) with
  | none => .ended a.blame
  | some (.ofNat 0) => .ended .accepted
  | some (.ofNat state) => a.shift state
  | some (.negSucc number) =>
    match Table.productions[number]? with
    | none => .broken
    | some (n, size) => a.reduce n size

/-- Makes a number of moves, unless it ends before. -/
def run : Nat → Automaton → Advance
  | 0, a => .on a
  | n + 1, a =>
    match a.step with
    | .on b => run n b
    | other => other

end Automaton

end MolangCompiler
