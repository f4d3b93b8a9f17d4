import MolangCompiler.Session

/-!
# Host functions as programs

A host function may look at the session, work on its instance, evaluate artifacts, the running one
included, and deal with failures, in any order, and finally returns a value or fails.  `Deed` is a
program of that kind.  A `Host` says which program belongs to which call, and `Session.hosted`
evaluates artifacts with a given host, to a given depth of nesting.

Programs are performed, and artifacts evaluated, on any state that contains a session: a `Manner`
says how, and may make notes meanwhile.
-/

namespace MolangCompiler

/-- What a command answers. -/
inductive Answer where
  | done
  | budget (value : Option Int)
  | artifact (index : Nat) (artifact : Artifact)
  | values (xs : List Float)
  | record (v : Option Variable)
  | records (vs : List Variable)
  | truth (b : Bool)

/-! ## Programs -/

/-- Something that a host function can do on its instance. -/
inductive Chore where
  /-- Compiles a source and keeps the artifact. -/
  | compile (request : Request)
  | set (name : String) (values : List Float)
  | get (name : String)
  | record (event : HostEvent)
  /-- Settles what is owed after a failure that was dealt with. -/
  | settle

/-- Which artifact a host function evaluates. -/
inductive Target where
  | kept (index : Int)
  /-- The artifact whose routine made the call. -/
  | running
  /-- An artifact that is compiled and not kept. -/
  | fresh (request : Request)

/-- What a host function does when it is called. -/
inductive Deed where
  | give (value : HostValue)
  | fail (failure : Failure)
  | look (next : Session → Deed)
  | work (chore : Chore) (next : Except Failure Answer → Deed)
  | evaluate (target : Target) (args : List Float) (next : Except Failure (List Float) → Deed)

/-- What the host functions of every instance do when they are called, by the number of the
instance, their key and their arguments. -/
abbrev Host := Nat → String → List Float → Deed

/-- Host functions that fail. -/
def Host.mute : Host := fun _ _ _ => .fail (.run .hostFailed)

/-- Runs an operation and passes its failure on as a result. -/
def attempt {σ α : Type} (act : Act σ α) : Act σ (Except Failure α) := fun s =>
  match act s with
  | .ok a s' => .ok (.ok a) s'
  | .error e s' => .ok (.error e) s'

def Chore.act (number : Nat) : Chore → Act Session Answer
  | .compile request => do
    let a ← Session.onInstance number (Workshop.compile number request)
    return .artifact (← Session.keep a) a
  | .set name values => do
    Session.onInstance number (Workshop.onTenant (Tenant.setValues name values))
    return .done
  | .get name => do
    return .values (← Session.onInstance number (Workshop.onTenant (Tenant.values name)))
  | .record event => do
    Session.record event
    return .done
  | .settle => do
    modify fun s => { s with books := s.books.settle }
    return .done

/-- The artifact that is meant, seen from the routine of a running one. -/
def Target.find (current : Artifact) : Target → Act Session Artifact
  | .kept index => Session.artifact index
  | .running => return current
  | .fresh request => Session.onInstance current.home (Workshop.compile current.home request)

/-- Whether a chore compiles a source or makes a variable, or tries to. -/
def Chore.makes (number : Nat) (s : Session) : Chore → Bool
  | .compile _ => true
  | .set name _ => ((s.workshop number).inst.space.find? name).isNone
  | .get _ | .record _ | .settle => false

/-- Whether an artifact is compiled before it is evaluated. -/
def Target.makes : Target → Bool
  | .fresh _ => true
  | .kept _ | .running => false

/-! ## Evaluations -/

/-- A manner of carrying out evaluations, on states that contain a session and perhaps notes. -/
structure Manner (σ : Type) where
  session : σ → Session
  /-- Does something with the session; a test says whether it compiles or makes a variable. -/
  doing : {α : Type} → (Session → Bool) → Act Session α → Act σ α
  /-- Raises the depth of an instance. -/
  enter : Nat → σ → σ
  /-- Lowers the depth of an instance. -/
  leave : Nat → σ → σ
  /-- Runs the routine of an artifact at the given depth. -/
  run : Artifact → Nat → (String → List Float → Act σ HostValue) → List Float → Act σ (List Float)
  /-- Makes notes of an evaluation on the instance with a number. -/
  bracketed : Nat → Act σ (List Float) → Act σ (List Float)

/-- Evaluations of which no notes are made. -/
def Manner.plain : Manner Session where
  session := id
  doing _ act := act
  enter number := Session.changeDepth number (· + 1)
  leave number := Session.changeDepth number (· - 1)
  run := Session.runRoutine
  bracketed _ act := act

section

variable {σ : Type} (M : Manner σ)

/-- Performs a program for the routine of a running artifact. -/
def Deed.perform (evaluate : Artifact → List Float → Act σ (List Float)) (current : Artifact) :
    Deed → Act σ HostValue
  | .give value => return value
  | .fail failure => throw failure
  | .look next => do
    let s ← M.doing (fun _ => false) get
    (next s).perform evaluate current
  | .work chore next => do
    let r ← attempt (M.doing (chore.makes current.home ·) (chore.act current.home))
    (next r).perform evaluate current
  | .evaluate target args next => do
    let r ← attempt do
      let a ← M.doing (fun _ => target.makes) (target.find current)
      evaluate a args
    (next r).perform evaluate current

namespace Manner

/-- Evaluates an artifact, with host functions that behave as `call` says. -/
def evaluateWith (call : String → List Float → Act σ HostValue) (a : Artifact)
    (args : List Float) : Act σ (List Float) :=
  M.bracketed a.home do
    if args.length ≠ a.args then
      throw (.run (.argumentCount a.name a.args args.length))
    modify (M.enter a.home)
    let depth := ((M.session (← get)).workshop a.home).inst.depth
    followedBy (M.run a depth call (args.map single)) (M.leave a.home)

/-- A call of a host function by the routine of a running artifact. -/
def callDeed (host : Host) (evaluate : Artifact → List Float → Act σ (List Float))
    (current : Artifact) (function : String) (args : List Float) : Act σ HostValue := do
  M.doing (fun _ => false) (Session.record (.called current.home function args))
  (host current.home function args).perform M evaluate current

/-- Evaluates an artifact with a given host, with evaluations nested to the given depth inside
it. -/
def hosted (host : Host) : (limit : Nat) → Artifact → List Float → Act σ (List Float)
  | 0, a, _ => M.bracketed a.home (runFailure .nestingLimit)
  | limit + 1, a, args => M.evaluateWith (M.callDeed host (hosted host limit) a) a args

end Manner

end

namespace Session

/-- An evaluation as it is carried out. -/
abbrev evaluateWith := Manner.plain.evaluateWith

/-- A call of a host function by an evaluation. -/
abbrev callDeed := Manner.plain.callDeed

/-- An evaluation with a given host. -/
abbrev hosted := Manner.plain.hosted

/-- The deepest nesting of evaluations. -/
def nestingLimit : Nat := 256

/-- Evaluates an artifact. -/
def evaluate (host : Host) : Evaluator := hosted host nestingLimit

end Session

end MolangCompiler
