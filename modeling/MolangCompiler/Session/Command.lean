import MolangCompiler.Session.Host

/-!
# Commands of a session

A session is driven by commands: instances are made and dropped, sources compiled, artifacts
evaluated, variables set and looked up, and the budget changed.  A command that fails reports its
failure, and the session goes on.  What a failed command still owes is refunded when it ends.
-/

namespace MolangCompiler

/-- What a new instance is made of. -/
structure Plan where
  /-- Queries by name; without them the instance has the default ones. -/
  queries : Option (List (String × Query))
  /-- Whether the given queries are put on top of the default ones. -/
  withDefaults : Bool
  actor : List (String × Float)
  /-- Whether the bytes of the instance are counted, if there is a ledger. -/
  tracked : Bool
  trace : Bool

/-- All queries of a plan, later ones replacing earlier ones of the same name. -/
def Plan.allQueries (p : Plan) : List (String × Query) :=
  match p.queries with
  | none => Query.defaults
  | some given => if p.withDefaults then Query.defaults ++ given else given

/-- What can be asked of an instance. -/
inductive Task where
  | compile (request : Request)
  | evaluate (artifact : Int) (args : List Float)
  /-- Evaluates an artifact while the instance counts further evaluations as running. -/
  | evaluateNested (artifact : Int) (args : List Float) (levels : Nat)
  /-- Compiles and evaluates, without keeping the artifact. -/
  | run (request : Request) (args : List Float)
  | set (name : String) (values : List Float)
  | get (name : String)
  | lookUp (name : String)
  | findVariable (name : String)
  | declare (name : String) (size : Int)
  | listVariables
  | store
  | scratch
  | hasQuery (name : String)

/-- A command of a session. -/
inductive Command where
  | create (name : String) (plan : Plan)
  | drop (name : String)
  | setBudget (budget : Option Int)
  /-- Sets the budget to what is in use and some more. -/
  | setSlack (slack : Int)
  | task (name : String) (task : Task)

/-- The state of an instance as reports show it. -/
structure Status where
  count : Nat
  cursor : Nat
  storeSize : Nat
  scratchSize : Nat
  depth : Nat
  reentrancy : Reentrancy

/-- The state of an instance. -/
def Instance.status (i : Instance) : Status where
  count := i.space.records.length
  cursor := i.space.cursor
  storeSize := i.space.store.size
  scratchSize := i.scratch.buffer.size
  depth := i.depth
  reentrancy := Reentrancy.ofDepth i.depth

/-- What is reported of a command. -/
structure Report where
  result : Except Failure Answer
  status : Option Status
  used : Option Int
  events : List HostEvent
  notes : List Note

namespace Session

/-! ## Making and dropping instances -/

/-- The number of the instance with a name. -/
def number? (s : Session) (name : String) : Option Nat :=
  (s.names.find? (·.1 == name)).map (·.2)

/-- Makes an instance.  If it cannot be charged, there is none. -/
def create (name : String) (p : Plan) : Act Session Answer := fun s =>
  let i := Instance.fresh p.allQueries p.actor p.trace
  let ledger := if p.tracked then s.books.ledger else none
  match Workshop.establish ⟨{ s.books with ledger := ledger }, i⟩ with
  | .error e w => .error e { s with books := w.books }
  | .ok () w =>
    let books := if p.tracked then w.books else { w.books with ledger := s.books.ledger }
    .ok .done { s with
      books := books
      instances := s.instances ++ [(s.nextInstance, w.inst)]
      names := (name, s.nextInstance) :: s.names.filter (·.1 != name)
      nextInstance := s.nextInstance + 1 }

/-- Drops an instance and its artifacts; its bytes are refunded.  The instance counts as collected,
with the cycle of a loaded routine and its globals that holds the shared buffer. -/
def drop (name : String) (s : Session) : Session :=
  match s.number? name with
  | none => s
  | some number =>
    let i := (s.instance? number).getD default
    { s with
      books := s.books.refundAll (i.refund ++ i.recordRefund)
      instances := s.instances.filter (·.1 != number)
      names := s.names.filter (·.1 != name)
      artifacts := s.artifacts.map fun a => a.filter (·.home != number) }

/-! ## Tasks -/

/-- Counts evaluations as running, and records each. -/
def enter (number : Nat) : (levels : Nat) → Act Session Unit
  | 0 => return ()
  | levels + 1 => do
    modify (changeDepth number (· + 1))
    record (.entered ((← get).workshop number).inst.depth)
    enter number levels

/-- Does what is asked of an instance, with a given way of evaluating artifacts. -/
def doTask (evaluate : Evaluator) (number : Nat) : Task → Act Session Answer
  | .compile request => do
    let a ← onInstance number (Workshop.compile number request)
    return .artifact (← keep a) a
  | .evaluate index args => do
    let a ← artifact index
    return .values (← evaluate a args)
  | .evaluateNested index args levels => do
    let a ← artifact index
    followedBy (do enter number levels; return .values (← evaluate a args))
      (changeDepth number (· - levels))
  | .run request args => do
    let a ← onInstance number (Workshop.compile number request)
    return .values (← evaluate a args)
  | .set name values => do
    onInstance number (Workshop.onTenant (Tenant.setValues name values))
    return .done
  | .get name => do
    return .values (← onInstance number (Workshop.onTenant (Tenant.values name)))
  | .lookUp name => do return .record (((← get).workshop number).inst.space.get? name)
  | .findVariable name => do return .record (((← get).workshop number).inst.space.find? name)
  | .declare name size => do
    return .record (some (← onInstance number (Workshop.onTenant (Tenant.obtain name size))))
  | .listVariables => do return .records ((← get).workshop number).inst.space.records
  | .store => do return .values ((← get).workshop number).inst.space.store.toList
  | .scratch => do return .values ((← get).workshop number).inst.scratch.buffer.toList
  | .hasQuery name => do
    return .truth (((← get).workshop number).inst.query? name).isSome

/-- Changes the budget. -/
def changeBudget (budget : Option Int) : Act Session Answer := do
  modify fun s => { s with books := s.books.setBudget budget }
  return .budget budget

/-- Does what a command asks for, with a given way of evaluating artifacts. -/
def obeyVia (evaluate : Evaluator) : Command → Act Session Answer
  | .create name plan => create name plan
  | .drop name => do
    modify (drop name)
    return .done
  | .setBudget budget => changeBudget budget
  | .setSlack slack => do changeBudget (some (((← get).books.used?).getD 0 + slack))
  | .task name task => do
    match (← get).number? name with
    | none => throw (.noInstance name)
    | some number => doTask evaluate number task

/-- Does what a command asks for. -/
def obey (host : Host) : Command → Act Session Answer := obeyVia (evaluate host)

/-! ## Reports -/

/-- The result of an operation and the state after it, whether it failed or not. -/
def outcome {α : Type} (act : Act Session α) (s : Session) : Except Failure α × Session :=
  match act s with
  | .ok a s' => (.ok a, s')
  | .error e s' => (.error e, s')

/-- Ends a command: what is owed is refunded. -/
def finish (s : Session) : Session := { s with books := s.books.settle }

/-- Carries out an operation and reports on the instance with the given name. -/
def reportOn (name : String) (act : Act Session Answer) (s : Session) : Report × Session :=
  let (result, after) := outcome act s
  let s' := after.finish
  let r : Report := {
    result := result
    status := ((s'.number? name).bind s'.instance?).map Instance.status
    used := s'.books.used?
    events := s'.events
    notes := s'.books.journal }
  (r, { s' with books := { s'.books with journal := [] }, events := [] })

/-- Carries out one command and reports on the instance with the given name. -/
def report (host : Host) (name : String) (command : Command) : Session → Report × Session :=
  reportOn name (obey host command)

end Session

end MolangCompiler
