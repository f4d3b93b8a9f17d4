import MolangCompiler.Grammar
import MolangCompiler.Query
import MolangCompiler.Token.Lexer

/-!
# Reading a source

Names are resolved while a source is read: a variable gets its place, a temp and a context value
their locals, a constant its values, and a query call its expansion.  The tree that results needs
no names any more.

`readSource` reads a whole source.  Its first problem is reported with the place in the source;
variables and temps that were made before it stay.
-/

namespace MolangCompiler

/-- What names stand for, apart from the state of the instance. -/
structure Dictionary where
  setting : Setting
  queries : List (String × Query)
  actor : List (String × Float)

namespace Dictionary

/-- Requires expressions to be single values; `sign` is the operator or bracket that does. -/
def requireSingle (dict : Dictionary) (sign : String) (position : Nat) : List Expr → Reading Unit
  | [] => return ()
  | e :: rest => do
    if e.width ≠ 1 then
      Reading.fail dict.setting (.notSingle e.width) position (position + sign.length)
    requireSingle dict sign position rest

/-- Expands a call of a query. -/
def call (dict : Dictionary) (name : String) (position : Nat) (args : List Expr) :
    Reading Expr := do
  let stop := position + name.length
  let canonical := canonicalName name
  match Query.find? dict.queries canonical with
  | none => Reading.fail dict.setting (.unknownFunction canonical) position stop
  | some query =>
    match ← query.expand dict.setting dict.actor args position stop with
    | .expr e => return e
    | node => throw (.notExpression canonical node.kind)

/-- The variable that a name stands for, made if there is none. -/
def readVariable (rest : String) : Reading Expr := do
  match ← Reading.findVariable rest with
  | some v => return .variableRead v
  | none => return .variableRead (← Reading.obtainVariable rest 1)

/-- The variable that a value is assigned to, made if there is none. -/
def assignVariable (st : Setting) (rest : String) (position stop : Nat) (value : Expr) :
    Reading Stmt := do
  match ← Reading.findVariable rest with
  | some v =>
    if v.size ≠ value.width then
      Reading.fail st (.assignWidth value.width rest v.size) position stop
    return .assignVariable v value
  | none =>
    let v ← Reading.obtainVariable (sizedName rest value.width) value.width
    return .assignVariable v value

/-- Resolves a name that stands by itself. -/
def name (dict : Dictionary) (text : String) (position : Nat) : Reading Expr := do
  let st := dict.setting
  let stop := position + text.length
  let canonical := canonicalName text
  let (head, rest) := nameParts canonical
  if head = "v" ∧ rest ≠ "" then readVariable rest
  else if head = "t" ∧ rest ≠ "" then
    return .localRead (← Reading.tempLocal st rest) canonical
  else if head = "c" ∧ rest ≠ "" then
    match lastOf? st.context rest with
    | some index => return .localRead index canonical
    | none => Reading.fail st (.unknownContext rest) position stop
  else
    match lastOf? st.constants canonical with
    | some [] => Reading.fail st (.emptyConstant canonical) position stop
    | some values => Reading.ofTree (Expr.constantOf values)
    | none =>
      if (Query.find? dict.queries canonical).isSome then dict.call canonical position []
      else Reading.fail st (.unknownIdentifier canonical) position stop

/-- Resolves the target of an assignment. -/
def assign (dict : Dictionary) (text : String) (position : Nat) (value : Expr) : Reading Stmt := do
  let st := dict.setting
  let stop := position + text.length
  let canonical := canonicalName text
  let (head, rest) := nameParts canonical
  if head = "v" ∧ rest ≠ "" then assignVariable st rest position stop value
  else if head = "t" ∧ rest ≠ "" then
    if value.width ≠ 1 then Reading.fail st (.tempWidth rest) position stop
    return .assignLocal (← Reading.tempLocal st rest) value
  else Reading.fail st (.notAssignable canonical) position stop

/-- Checks the width of a return against earlier ones. -/
def ret (dict : Dictionary) (position : Nat) (value : Expr) : Reading Stmt := do
  match (← get).returnWidth with
  | none => modify fun s => { s with returnWidth := some value.width }
  | some earlier =>
    if earlier ≠ value.width then
      Reading.fail dict.setting (.returnWidths value.width earlier) position
        (position + Lexeme.ret.text.length)
  return .ret value

/-- How the constructs of a source become trees. -/
def actions (dict : Dictionary) : Actions Reading Expr Stmt where
  number value := Reading.ofTree (Expr.constantOf [value])
  name := dict.name
  call := dict.call
  negate position e := do
    dict.requireSingle "-" position [e]
    match e with
    | .constant [value] => Reading.ofTree (Expr.constantOf [-value])
    | _ => return .negate e
  not position e := do
    dict.requireSingle "!" position [e]
    return .not e
  operator op position left right := do
    dict.requireSingle op.symbol position [left, right]
    match op with
    | .binary op => return .binary op left right
    | .logical op => return .logical op left right
  ternary question colon condition yes no := do
    dict.requireSingle "?" question [condition]
    if yes.width ≠ no.width then
      Reading.fail dict.setting (.branchWidths yes.width no.width) colon (colon + 1)
    return .ternary condition yes no
  vector position elements := do
    dict.requireSingle "[" position elements
    return .vector elements
  discard e := return .discard e
  assign := dict.assign
  ret := dict.ret
  sequence statements := return .sequence statements (← get).resultWidth

/-- Reads the given tokens one after the other. -/
def readTokens (dict : Dictionary) : Config Expr Stmt → List Token → Reading (Config Expr Stmt)
  | c, [] => return c
  | c, t :: rest => do
    match ← c.step dict.actions (some t.lexeme) t.start with
    | .next c' => readTokens dict c' rest
    | _ =>
      Reading.fail dict.setting (.unexpected t.lexeme.text) t.start (t.start + t.lexeme.extent)

/-- Reads a source. -/
def readSource (dict : Dictionary) : Reading Expr := do
  let st := dict.setting
  let source := st.source
  if source.toList.all isBlank then Reading.fail st .emptySource 0 0
  let scanned := scan 1 source
  let c ← dict.readTokens Config.start scanned.tokens
  match scanned.stop with
  | .illegal ch position => Reading.fail st (.illegalCharacter ch) position (position + 1)
  | .finished =>
    match ← c.step dict.actions none source.length with
    | .accepted e => return e
    | _ => Reading.fail st .unexpectedEnd source.length source.length

end Dictionary

end MolangCompiler
