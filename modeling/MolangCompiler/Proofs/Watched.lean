import MolangCompiler.Proofs.Hosts

/-!
# Watching evaluations

Of every evaluation that is running it is known which buffer it was lent, how much room it asked
for, and which values its own routine has written last.  A watched run does what the plain one does;
besides, it takes down the session after each operation of a routine and each step of a host
function together with all running evaluations, and the values with which evaluations end.
`Sight.Good` is what there is to be seen: the values that a routine has written are still in its
buffer, and they are the values with which the evaluation ends.
-/

namespace MolangCompiler

/-! ## Running evaluations -/

/-- An evaluation that is running. -/
structure Evaluation where
  /-- The number of its instance. -/
  home : Nat
  loan : Loan
  /-- How many slots its routine asked for. -/
  room : Nat
  /-- What its routine has written last, by slot. -/
  written : Nat → Option Float

namespace Evaluation

def start (home : Nat) : Evaluation := ⟨home, .shared, 0, fun _ => none⟩

/-- The buffer that an evaluation uses. -/
def buffer (f : Evaluation) (s : Session) : Array Float := (Session.bufferOf f.home).get ⟨s, f.loan⟩

def acquired (slots : Nat) (f : Evaluation) : Evaluation :=
  { f with room := slots, written := fun _ => none }

def write (slot : Nat) (xs : List Float) (f : Evaluation) : Evaluation :=
  { f with written := fun j =>
      if slot ≤ j ∧ j < slot + xs.length then xs[j - slot]? else f.written j }

/-- The buffer is as long as the routine asked for, and holds what the routine has written last. -/
structure Intact (s : Session) (f : Evaluation) : Prop where
  room : f.room ≤ (f.buffer s).size
  written : ∀ {j x}, f.written j = some x → (f.buffer s)[j]? = some x

end Evaluation

/-! ## Sights -/

/-- What is seen of a run. -/
inductive Sight where
  /-- The state of the session and all running evaluations, the innermost one first. -/
  | moment (session : Session) (active : List Evaluation)
  /-- An evaluation that began in a session ends with values. -/
  | ended (artifact : Artifact) (session : Session) (evaluation : Evaluation) (values : List Float)

/-- At a moment all running evaluations are intact.  An evaluation ends with the values that its
routine has written; if its instance has no templates, its routine has written them all. -/
def Sight.Good : Sight → Prop
  | .moment s active => ∀ f ∈ active, f.Intact s
  | .ended a s f values => values.length = a.returns ∧
    (∀ j x, j < a.returns → f.written j = some x → values[j]? = some x) ∧
    ((∃ i, s.instance? a.home = some i ∧ i.Obeys .any) → ∀ j < a.returns, (f.written j).isSome)

/-! ## Watched routines -/

/-- A session with the evaluations that are running and all that was seen. -/
structure Watch where
  session : Session
  active : List Evaluation
  seen : List Sight

/-- A session while a watched routine runs. -/
structure Running where
  session : Session
  own : Evaluation
  /-- The evaluations around it. -/
  outer : List Evaluation
  seen : List Sight

namespace Running

def world (r : Running) : Session.World := ⟨r.session, r.own.loan⟩

def watch (r : Running) : Watch := ⟨r.session, r.own :: r.outer, r.seen⟩

def goOn (w : Watch) (r : Running) : Running := ⟨w.session, r.own, r.outer, w.seen⟩

def move (w : Session.World) (mark : Evaluation → Evaluation) (r : Running) : Running :=
  let f := mark { r.own with loan := w.loan }
  ⟨w.session, f, r.outer, .moment w.session (f :: r.outer) :: r.seen⟩

end Running

/-- Does something and marks it in the evaluation of the running routine. -/
def marking {α : Type} (act : Act Session.World α) (mark : Evaluation → Evaluation) :
    Act Running α := fun r =>
  match act r.world with
  | .ok a w => .ok a (r.move w mark)
  | .error e w => .error e (r.move w id)

/-- The same machine, watched, with other host functions. -/
def Machine.watched (m : Machine Session.World) (call : String → List Float → Act Watch HostValue) :
    Machine Running where
  readVariable slot := marking (m.readVariable slot) id
  writeVariable slot x := marking (m.writeVariable slot x) id
  readVariables offset size := marking (m.readVariables offset size) id
  writeVariables offset size xs := marking (m.writeVariables offset size xs) id
  call function args := onPart Running.watch Running.goOn (call function args)
  acquire slots := marking (m.acquire slots) (Evaluation.acquired slots)
  writeSlot slot x := marking (m.writeSlot slot x) (Evaluation.write slot [single x])
  readSlots slot size := marking (m.readSlots slot size) id
  -- values that are put behind the end of the buffer come right after it
  writeSlots slot size xs := fun r =>
    marking (m.writeSlots slot size xs)
      (Evaluation.write (min slot (r.own.buffer r.session).size) xs.toList) r

/-! ## Watched evaluations -/

namespace Watch

/-- Does something with the session and takes down the moment after it. -/
def lift {α : Type} (act : Act Session α) : Act Watch α :=
  onPart session (fun s w => ⟨s, w.active, .moment s w.active :: w.seen⟩) act

def changeDepth (number : Nat) (f : Nat → Nat) (w : Watch) : Watch :=
  { w with session := w.session.changeDepth number f }

def runRoutine (a : Artifact) (depth : Nat) (call : String → List Float → Act Watch HostValue)
    (args : List Float) : Act Watch (List Float) := fun w =>
  let m := Session.machine a.home depth fun _ _ => runFailure .hostFailed
  match a.routine.run (m.watched call) args ⟨w.session, .start a.home, w.active, w.seen⟩ with
  | .ok () r =>
    let values := (slice ((Session.bufferOf a.home).get r.world) 0 a.returns).toList
    .ok values ⟨r.world.close false a.home, r.outer, .ended a w.session r.own values :: r.seen⟩
  | .error e r => .error e ⟨r.world.close true a.home, r.outer, r.seen⟩

/-- Watched evaluations. -/
def manner : Manner Watch where
  session := session
  doing _ act := lift act
  enter number := changeDepth number (· + 1)
  leave number := changeDepth number (· - 1)
  run := runRoutine
  bracketed _ act := act

/-- An evaluation under watch. -/
abbrev hosted := manner.hosted

end Watch

end MolangCompiler
