import MolangCompiler.Token

/-!
# Grammar

Sources are read by a machine that takes one token after the other.  It keeps the constructs that
are still open on a stack of frames, innermost first, and decides by the next token whether a
finished expression belongs to the innermost frame or starts a longer one.  What has been read is
put together only when the next token is known and could follow it.

The machine leaves open what expressions and statements are: `Actions` says how they are made.
An action may fail, and may have effects, which happen in the order in which constructs end.
-/

namespace MolangCompiler

/-- How the constructs of the language are made from their parts.  Positions are those of the
tokens that messages point at. -/
structure Actions (m : Type → Type) (E S : Type) where
  number : Float → m E
  name : String → Nat → m E
  call : String → Nat → List E → m E
  negate : Nat → E → m E
  not : Nat → E → m E
  operator : Operator → Nat → E → E → m E
  /-- Takes the positions of the question mark and of the colon. -/
  ternary : Nat → Nat → E → E → E → m E
  vector : Nat → List E → m E
  discard : E → m S
  assign : String → Nat → E → m S
  ret : Nat → E → m S
  sequence : List S → m E

/-- A construct that waits for its next part. -/
inductive Frame (E : Type) where
  | negate (position : Nat)
  | not (position : Nat)
  | group
  | operator (left : E) (op : Operator) (position : Nat)
  | question (condition : E) (position : Nat)
  | colon (condition yes : E) (question colon : Nat)
  | vector (position : Nat) (elements : List E)
  | call (name : String) (position : Nat) (args : List E)

/-- What the statement being read started with. -/
inductive Head where
  | plain
  | assign (name : String) (position : Nat)
  | ret (position : Nat)

/-- What the machine has just read. -/
inductive Focus (E : Type) where
  /-- Something that an operand must follow. -/
  | operand
  /-- The parenthesis behind the name of a function, which may be closed at once. -/
  | opened
  | number (value : Float)
  | name (text : String) (position : Nat)
  | group (inner : E)
  | vector (position : Nat) (elements : List E)
  | call (name : String) (position : Nat) (args : List E)

/-- Everything read so far: finished statements, the start of the current one, its open
constructs, and what was read last. -/
structure Config (E S : Type) where
  statements : List S
  head : Head
  frames : List (Frame E)
  focus : Focus E

/-- What reading a token leads to. -/
inductive Progress (E S : Type) where
  /-- The token cannot stand here. -/
  | stuck
  | next (config : Config E S)
  /-- The source ended where it may. -/
  | accepted (program : E)

namespace Lexeme

/-- Whether a token, or the end of the source, may follow an expression somewhere. -/
def endsOperand : Option Lexeme → Bool
  | none => true
  | some (operator _) | some question | some semicolon | some closeParen | some closeBracket
  | some comma | some colon => true
  | _ => false

/-- Whether a token, or the end of the source, may follow an expression that makes up a whole
statement so far. -/
def endsStatementName : Option Lexeme → Bool
  | none => true
  | some (operator _) | some question | some semicolon => true
  | _ => false

end Lexeme

namespace Config

variable {m : Type → Type} {E S : Type}

/-- Nothing has been read. -/
def start : Config E S := ⟨[], .plain, [], .operand⟩

/-- Whether a statement is about to start. -/
def atStart (c : Config E S) : Bool :=
  match c.head, c.frames, c.focus with
  | .plain, [], .operand => true
  | _, _, _ => false

/-- Waits for an operand inside a new innermost frame. -/
def push (frame : Frame E) (c : Config E S) : Config E S :=
  { c with frames := frame :: c.frames, focus := .operand }

/-- Reads the first token of an operand. -/
def beginOperand (c : Config E S) (token : Lexeme) (position : Nat) : Progress E S :=
  match token with
  | .number value => .next { c with focus := .number value }
  | .name text => .next { c with focus := .name text position }
  | .operator (.binary .sub) => .next (c.push (.negate position))
  | .not => .next (c.push (.not position))
  | .openParen => .next (c.push .group)
  | .openBracket => .next (c.push (.vector position []))
  | .ret => if c.atStart then .next { c with head := .ret position } else .stuck
  | _ => .stuck

/-- Makes the current statement from its expression. -/
def endStatement [Monad m] (acts : Actions m E S) (head : Head) (e : E) : m S :=
  match head with
  | .plain => acts.discard e
  | .assign name position => acts.assign name position e
  | .ret position => acts.ret position e

/-- Makes the program from the finished statements and the expression of the last one. -/
def endProgram [Monad m] (acts : Actions m E S) (statements : List S) (head : Head) (e : E) : m E :=
  match statements, head with
  | [], .plain => pure e
  | _, _ => do
    let s ← endStatement acts head e
    acts.sequence (statements ++ [s])

/-- Goes on behind a finished expression `e` inside the given frames, by the next token.  Frames
that the token ends are put together, innermost first. -/
def continueWith [Monad m] (acts : Actions m E S) (statements : List S) (head : Head)
    (token : Option Lexeme) (position : Nat) : List (Frame E) → E → m (Progress E S)
  | [], e =>
    match token with
    | some (.operator op) => wait (.operator e op position) []
    | some .question => wait (.question e position) []
    | some .semicolon => do
      let s ← endStatement acts head e
      pure (.next ⟨statements ++ [s], .plain, [], .operand⟩)
    | none => return .accepted (← endProgram acts statements head e)
    | _ => pure .stuck
  | frame :: rest, e =>
    match frame, token with
    | .negate p, _ => do continueWith acts statements head token position rest (← acts.negate p e)
    | .not p, _ => do continueWith acts statements head token position rest (← acts.not p e)
    | .operator left op p, some (.operator op') =>
      if op.level < op'.level then wait (.operator e op' position) (frame :: rest)
      else do continueWith acts statements head token position rest (← acts.operator op p left e)
    | .operator left op p, _ => do
      continueWith acts statements head token position rest (← acts.operator op p left e)
    | _, some (.operator op) => wait (.operator e op position) (frame :: rest)
    | _, some .question => wait (.question e position) (frame :: rest)
    | .colon condition yes p q, _ => do
      continueWith acts statements head token position rest (← acts.ternary p q condition yes e)
    | .question condition p, some .colon => wait (.colon condition e p position) rest
    | .group, some .closeParen => finish (.group e) rest
    | .vector p elements, some .comma => wait (.vector p (elements ++ [e])) rest
    | .vector p elements, some .closeBracket => finish (.vector p (elements ++ [e])) rest
    | .call name p args, some .comma => wait (.call name p (args ++ [e])) rest
    | .call name p args, some .closeParen => finish (.call name p (args ++ [e])) rest
    | _, _ => pure .stuck
where
  /-- Waits for an operand inside the given frames. -/
  wait (frame : Frame E) (rest : List (Frame E)) : m (Progress E S) :=
    pure (.next ⟨statements, head, frame :: rest, .operand⟩)
  /-- Waits for the token behind a construct that has just been closed. -/
  finish (focus : Focus E) (rest : List (Frame E)) : m (Progress E S) :=
    pure (.next ⟨statements, head, rest, focus⟩)

/-- Reads a token, or the end of the source. -/
def step [Monad m] (acts : Actions m E S) (c : Config E S) (token : Option Lexeme)
    (position : Nat) : m (Progress E S) :=
  let proceed (value : m E) : m (Progress E S) := do
    continueWith acts c.statements c.head token position c.frames (← value)
  match c.focus with
  | .operand =>
    match token with
    | some t => pure (c.beginOperand t position)
    | none =>
      if c.atStart && !c.statements.isEmpty then return .accepted (← acts.sequence c.statements)
      else pure .stuck
  | .opened =>
    match token, c.frames with
    | some .closeParen, .call name p args :: rest =>
      pure (.next { c with frames := rest, focus := .call name p args })
    | some t, _ => pure (({ c with focus := .operand } : Config E S).beginOperand t position)
    | none, _ => pure .stuck
  | .name text p =>
    let first := match c.head, c.frames with
      | .plain, [] => true
      | _, _ => false
    match token with
    | some .openParen =>
      pure (.next { c with frames := .call text p [] :: c.frames, focus := .opened })
    | some .assign =>
      pure (if first then .next { c with head := .assign text p, focus := .operand } else .stuck)
    | _ =>
      if first && !Lexeme.endsStatementName token then pure .stuck
      else if Lexeme.endsOperand token then proceed (acts.name text p) else pure .stuck
  | .number value =>
    if Lexeme.endsOperand token then proceed (acts.number value) else pure .stuck
  | .group inner => if Lexeme.endsOperand token then proceed (pure inner) else pure .stuck
  | .vector p elements =>
    if Lexeme.endsOperand token then proceed (acts.vector p elements) else pure .stuck
  | .call name p args =>
    if Lexeme.endsOperand token then proceed (acts.call name p args) else pure .stuck

end Config

end MolangCompiler
