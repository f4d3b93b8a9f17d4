import MolangCompiler.Instance
import MolangCompiler.Routine.Run

/-!
# Sessions

A session holds instances and the artifacts compiled on them, with one set of books.  Evaluating
an artifact runs its routine on the variables and the buffer of its instance.
-/

namespace MolangCompiler

/-- What a host function did, for the record of the session. -/
inductive HostEvent where
  /-- A call on the instance with a number. -/
  | called (number : Nat) (function : String) (args : List Float)
  | used (bytes : Option Int)
  | caught (failure : Failure)
  | entered (depth : Nat)

/-- Instances by number and name, artifacts, books, and what host functions did. -/
structure Session where
  books : Books
  instances : List (Nat × Instance)
  names : List (String × Nat)
  nextInstance : Nat
  /-- Artifacts in the order of compiling; those of a dropped instance are gone. -/
  artifacts : List (Option Artifact)
  events : List HostEvent

namespace Session

/-- What host functions do, by name and arguments. -/
abbrev Calls := String → List Float → Act Session HostValue

/-- What evaluating an artifact does. -/
abbrev Evaluator := Artifact → List Float → Act Session (List Float)

/-- A session without instances. -/
def start (ledger : Option Ledger) : Session := ⟨Books.start ledger, [], [], 0, [], []⟩

/-! ## Instances -/

/-- The instance with a number. -/
def instance? (s : Session) (number : Nat) : Option Instance :=
  (s.instances.find? (·.1 == number)).map (·.2)

/-- Changes an instance and leaves the books alone. -/
def changeInstance (number : Nat) (f : Instance → Instance) (s : Session) : Session :=
  { s with instances := s.instances.map fun p => if p.1 == number then (number, f p.2) else p }

/-- The books as an instance sees them: without the ledger if its bytes are not counted. -/
def booksFor (i : Instance) (b : Books) : Books :=
  match i.owner with
  | none => { b with ledger := none }
  | some _ => b

/-- An instance with its books. -/
def workshop (number : Nat) (s : Session) : Workshop :=
  let i := (s.instance? number).getD default
  ⟨booksFor i s.books, i⟩

/-- Takes over a changed instance and its books. -/
def setWorkshop (number : Nat) (w : Workshop) (s : Session) : Session :=
  let books := match w.inst.owner with
    | none => { w.books with ledger := s.books.ledger }
    | some _ => w.books
  ({ s with books := books }).changeInstance number fun _ => w.inst

/-- Runs an operation on an instance. -/
def onInstance {α : Type} (number : Nat) (act : Act Workshop α) : Act Session α :=
  onPart (workshop number) (setWorkshop number) act

/-- Changes the depth of an instance. -/
def changeDepth (number : Nat) (f : Nat → Nat) (s : Session) : Session :=
  s.changeInstance number fun i => { i with depth := f i.depth }

/-- Records what a host function did. -/
def record (e : HostEvent) : Act Session Unit :=
  modify fun s => { s with events := s.events ++ [e] }

/-- The artifact with a number. -/
def artifact (index : Int) : Act Session Artifact := do
  if index < 0 then throw (.noArtifact index)
  match (← get).artifacts[index.toNat]? with
  | some (some a) => return a
  | _ => throw (.noArtifact index)

/-- Keeps an artifact; its index. -/
def keep (a : Artifact) : Act Session Nat := do
  let index := (← get).artifacts.length
  modify fun s => { s with artifacts := s.artifacts ++ [some a] }
  return index

/-! ## Evaluation -/

/-- A session while a routine of one of its instances runs, and the buffer lent to it. -/
structure World where
  session : Session
  loan : Loan

/-- The variables of the instance with a number. -/
def storeOf (number : Nat) : Slots World where
  get w := (w.session.workshop number).inst.space.store
  put store w := { w with session := w.session.changeInstance number (·.setStore store) }

/-- The buffer lent to a routine of the instance with a number. -/
def bufferOf (number : Nat) : Slots World where
  get w := match w.loan with
    | .shared => (w.session.workshop number).inst.scratch.buffer
    | .own buffer _ => buffer
  put buffer w := match w.loan with
    | .shared => { w with session := w.session.changeInstance number (·.setBuffer buffer) }
    | .own _ charged => { w with loan := .own buffer charged }

/-- The machine on which routines of the instance with a number run at the given depth. -/
def machine (number depth : Nat) (call : Calls) : Machine World :=
  .ofSlots (storeOf number) (bufferOf number) (fun slots w =>
      match onInstance number (Workshop.onScratch (ScratchRoom.acquire slots depth)) w.session with
      | .ok loan s => .ok () ⟨s, loan⟩
      | .error e s => .error e ⟨s, w.loan⟩)
    (fun function args =>
      onPart World.session (fun s w => { w with session := s }) (call function args))

/-- Gives a lent buffer back after an evaluation that failed or did not. -/
def World.close (failed : Bool) (number : Nat) (w : World) : Session :=
  match onInstance number (Workshop.onScratch (modify (ScratchRoom.release failed w.loan)))
    w.session with
  | .ok _ s => s
  | .error _ s => s

/-- Runs the routine of an artifact at the given depth; the values that it leaves behind. -/
def runRoutine (a : Artifact) (depth : Nat) (call : Calls) (args : List Float) :
    Act Session (List Float) := fun s =>
  match a.routine.run (machine a.home depth call) args ⟨s, .shared⟩ with
  | .ok () w => .ok (slice ((bufferOf a.home).get w) 0 a.returns).toList (w.close false a.home)
  | .error e w => .error e (w.close true a.home)

end Session

end MolangCompiler
