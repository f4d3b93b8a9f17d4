import MolangCompiler.Resolve
import MolangCompiler.Routine.Emission
import MolangCompiler.Routine.Load
import MolangCompiler.Scratch

/-!
# Instances and compiling

An instance belongs to one host.  It owns the actor variables, the shared scratch buffer and the
queries, and all expressions compiled on it share them.  Compiling reads a source against the
instance, writes a routine, makes room in the scratch buffer, pays for the text and loads it.

What a step of compiling did before a later one fails stays done: variables that were made, the
name that was used up, and, if the text cannot be loaded, the room and the payment.
-/

namespace MolangCompiler

/-- The state of an instance. -/
structure Instance where
  queries : List (String × Query)
  /-- Numbers that the actor supplies. -/
  actor : List (String × Float)
  /-- Whether the text of routines is noted. -/
  trace : Bool
  /-- What was charged to the instance itself; `none` if its bytes are not counted. -/
  owner : Option Account
  space : Namespace
  scratch : Scratch
  /-- The number of the next routine. -/
  nextRoutine : Nat
  /-- How many evaluations are running. -/
  depth : Nat

namespace Instance

/-- An instance with the given queries whose bytes are not counted. -/
def fresh (queries : List (String × Query)) (actor : List (String × Float)) (trace : Bool) :
    Instance where
  queries := Query.table queries
  actor := actor
  trace := trace
  owner := none
  space := Namespace.empty
  scratch := ⟨#[], none⟩
  nextRoutine := 0
  depth := 0

instance : Inhabited Instance := ⟨fresh [] [] false⟩

/-- Bytes of a new instance: the object itself and an entry for each query. -/
def bytes (i : Instance) : Int :=
  objectBytes + 8 * referenceBytes + wordBytes + flagBytes + i.queries.length * entryBytes

/-- What is refunded for the variable records of an instance that is given up; their names stay
charged. -/
def recordRefund (i : Instance) : List Int :=
  if i.owner.isSome then i.space.records.map fun _ => recordBytes else []

/-- What is refunded for the rest of an instance that is given up: itself and its scratch
buffer. -/
def refund (i : Instance) : List Int := (i.owner.map (·.bytes)).toList ++ i.scratch.charged.toList

/-- Replaces the values of the variables. -/
def setStore (store : Array Float) (i : Instance) : Instance :=
  { i with space := { i.space with store := store } }

/-- Replaces the values in the shared scratch buffer. -/
def setBuffer (buffer : Array Float) (i : Instance) : Instance :=
  { i with scratch := { i.scratch with buffer := buffer } }

/-- The query of a name. -/
def query? (i : Instance) (name : String) : Option Query := Query.find? i.queries name

end Instance

/-- An expression compiled on an instance. -/
structure Artifact where
  /-- The number of the instance in its session. -/
  home : Nat
  name : String
  args : Nat
  returns : Nat
  text : String
  routine : Routine

/-- The description of an artifact. -/
def Artifact.describe (a : Artifact) : String :=
  "CompiledMolang(" ++ quoted a.name ++ ", args=" ++ toString a.args ++ ", returns="
    ++ toString a.returns ++ ")"

/-- An instance with the books that it is charged to. -/
structure Workshop where
  books : Books
  inst : Instance

/-- A source with the names of its context values and its named constants. -/
structure Request where
  source : String
  context : List String
  constants : List (String × List Float)

/-- The name of the routine with the given number. -/
def routineName (number : Nat) : String := "__compiled_molang_" ++ toString number

namespace Workshop

/-- The namespace of the instance with its books. -/
def tenant (w : Workshop) : Tenant := ⟨w.books, w.inst.owner, w.inst.space⟩

/-- Takes over a changed namespace. -/
def setTenant (t : Tenant) (w : Workshop) : Workshop :=
  ⟨t.books, { w.inst with owner := t.owner, space := t.space }⟩

/-- Runs an operation on the namespace. -/
def onTenant {α : Type} (act : Act Tenant α) : Act Workshop α := onPart tenant setTenant act

/-- Runs an operation on the scratch space. -/
def onScratch {α : Type} (act : Act ScratchRoom α) : Act Workshop α :=
  onPart (fun w => ⟨w.books, w.inst.scratch⟩)
    (fun r w => ⟨r.books, { w.inst with scratch := r.scratch }⟩) act

/-- Adds a note to the journal. -/
def note (n : Note) : Act Workshop Unit := modify fun w => { w with books := w.books.note n }

/-- What names stand for on the instance. -/
def dictionary (w : Workshop) (r : Request) : Dictionary :=
  ⟨Setting.of r.source r.context r.constants, w.inst.queries, w.inst.actor⟩

/-- Reads a source; the tree and the number of its temps. -/
def read (r : Request) : Act Workshop (Expr × Nat) := do
  let dict := (← get).dictionary r
  onPart (fun w => Scope.start w.tenant) (fun s w => w.setTenant s.tenant) do
    let e ← dict.readSource
    return (e, (← get).locals)

/-- Uses up the number of the next routine. -/
def nextName : Act Workshop String := do
  let number := (← get).inst.nextRoutine
  modify fun w => { w with inst := { w.inst with nextRoutine := number + 1 } }
  return routineName number

/-- Writes the routine of a tree. -/
def write (r : Request) (name : String) (e : Expr) (temps : Nat) : Act Workshop Draft := do
  match Routine.write name e r.context.length temps (Routine.draft r.context.length temps) with
  | .ok _ draft => return draft
  | .error problem _ => throw (.emission r.source problem)

/-- Compiles a source on the instance, which has the number `home` in its session. -/
def compile (home : Nat) (r : Request) : Act Workshop Artifact := do
  if maxContextValues < r.context.length then throw (.contextArity r.context.length)
  let (e, temps) ← read r
  let name ← nextName
  let draft ← write r name e temps
  let text := draft.text
  onScratch (ScratchRoom.ensure draft.layout.extent)
  onTenant (Tenant.chargeOwner (.code text.length))
  match Routine.load draft.listing.lines with
  | .error problem => throw (.loading r.source problem)
  | .ok routine =>
    note (.loaded name)
    if (← get).inst.trace then note (.generated name r.source text)
    note (.compiled r.source name r.context.length e.width draft.layout.extent)
    return ⟨home, name, r.context.length, e.width.toNat, text, routine⟩

/-- Charges a new instance and its scratch buffer.  If the buffer is refused, the instance is
owed back. -/
def establish : Act Workshop Unit := fun w =>
  if w.books.ledger.isNone then .ok () w
  else
    match Books.charge w.inst.bytes w.books with
    | .error e b => .error e { w with books := b }
    | .ok () b =>
      let owned : Workshop := ⟨b, { w.inst with owner := some (.opened w.inst.bytes) }⟩
      match onScratch ScratchRoom.establish owned with
      | .ok () w' => .ok () w'
      | .error e w' => .error e { w' with books := w'.books.owe w.inst.bytes }

end Workshop

end MolangCompiler
