import MolangCompiler.Proofs.Hosts

/-!
# Evaluations with a log

To say what evaluations do to depth and to the bytes in use, they are run with a log.  It knows
which evaluations are running, innermost first, how often host functions have made something or
tried to, and which buffers were lost.  It takes down the session after each operation of a routine
and each step of a host function, and the sessions in which an evaluation was entered and left.

`LogEntry.Good` is what the log should show: an instance is as deep as evaluations are running on
it, and an evaluation leaves the depths as they were.  If no host function has made anything, it
leaves the bytes in use as they were too, but for debts: the buffer of a nested evaluation that
fails stays charged until the failure is dealt with.
-/

namespace MolangCompiler

/-! ## Entries -/

/-- What is taken down of a run. -/
inductive LogEntry where
  /-- A session, and the numbers of the instances on which evaluations are running, the innermost
  one first. -/
  | moment (session : Session) (active : List Nat)
  /-- An evaluation was entered in one session and left in another.  Meanwhile host functions have
  compiled or made variables so many times, and evaluations that failed have lost buffers for which
  these bytes were charged. -/
  | left (home : Nat) (before after : Session) (made : Nat) (lost : List Int)

/-- The bytes in use that are not owed back. -/
def Books.firm? (b : Books) : Option Int := b.used?.map (· - b.owed.sum)

/-- The bytes in use are the same but for a difference and for debts, of which only those for
buffers that were lost meanwhile are new. -/
structure Books.Level (difference : Int) (lost : List Int) (b b' : Books) : Prop where
  firm : b'.firm? = b.firm?.map (· + difference)
  owed : b'.owed <:+ b.owed ++ lost

/-- Depth and bytes are as they should be, if each instance was as deep as `base` says when the log
was begun.  Where nothing was owed, the bytes in use are the same as soon as failures are dealt
with, and at once if no buffer was lost. -/
def LogEntry.Good (base : Nat → Nat) : LogEntry → Prop
  | .moment s active => ∀ n i, s.instance? n = some i → i.depth = base n + active.count n
  | .left _ before after made lost =>
    (∀ n, (after.instance? n).map (·.depth) = (before.instance? n).map (·.depth)) ∧
    (made = 0 → before.books.Level 0 lost after.books) ∧
    (made = 0 → before.books.owed = [] → after.books.settle.used? = before.books.used? ∧
      (lost = [] → after.books.used? = before.books.used?))

/-! ## Routines with a log -/

/-- A state with a log. -/
structure Logged (σ : Type) where
  state : σ
  active : List Nat
  made : Nat
  /-- Bytes charged for buffers that evaluations have lost by failing, oldest first. -/
  lost : List Int
  /-- The latest entry comes first. -/
  seen : List LogEntry

/-- The bytes charged for a buffer that is lost if the routine fails. -/
def Session.World.atStake (number : Nat) (w : World) : List Int :=
  match w.loan with
  | .shared => []
  | .own _ charged => if (w.session.workshop number).books.ledger.isSome then [charged] else []

namespace Logged

def session (l : Logged Session.World) : Logged Session := { l with state := l.state.session }

def move (w : Session.World) (l : Logged Session.World) : Logged Session.World :=
  { l with state := w, seen := .moment w.session l.active :: l.seen }

/-- Does something, and takes down the moment after it. -/
def marking {α : Type} (act : Act Session.World α) : Act (Logged Session.World) α := fun l =>
  match act l.state with
  | .ok a w => .ok a (l.move w)
  | .error e w => .error e (l.move w)

def onSession {α : Type} (act : Act (Logged Session) α) : Act (Logged Session.World) α :=
  onPart session (fun l' l => { l' with state := { l.state with session := l'.state } }) act

end Logged

/-- The same machine with a log, and with other host functions. -/
def Machine.logged (m : Machine Session.World)
    (call : String → List Float → Act (Logged Session) HostValue) :
    Machine (Logged Session.World) where
  readVariable slot := Logged.marking (m.readVariable slot)
  writeVariable slot x := Logged.marking (m.writeVariable slot x)
  readVariables offset size := Logged.marking (m.readVariables offset size)
  writeVariables offset size xs := Logged.marking (m.writeVariables offset size xs)
  call function args := Logged.onSession (call function args)
  acquire slots := Logged.marking (m.acquire slots)
  writeSlot slot x := Logged.marking (m.writeSlot slot x)
  readSlots slot size := Logged.marking (m.readSlots slot size)
  writeSlots slot size xs := Logged.marking (m.writeSlots slot size xs)

/-! ## Evaluations with a log -/

namespace Logged

/-- Does something with the session; `makes` says whether it compiles or makes a variable. -/
def doing {α : Type} (makes : Session → Bool) (act : Act Session α) : Act (Logged Session) α :=
  fun l =>
    let made := l.made + (makes l.state).toNat
    match act l.state with
    | .ok a s => .ok a ⟨s, l.active, made, l.lost, .moment s l.active :: l.seen⟩
    | .error e s => .error e ⟨s, l.active, made, l.lost, .moment s l.active :: l.seen⟩

def enter (home : Nat) (l : Logged Session) : Logged Session :=
  let s := l.state.changeDepth home (· + 1)
  { l with state := s, active := home :: l.active, seen := .moment s (home :: l.active) :: l.seen }

/-- The innermost evaluation, which runs on the given instance, is over. -/
def leave (home : Nat) (l : Logged Session) : Logged Session :=
  { l with state := l.state.changeDepth home (· - 1), active := l.active.tail }

/-- The entry for an evaluation that was entered with one log and left with another. -/
def left (home : Nat) (l l' : Logged Session) : LogEntry :=
  .left home l.state l'.state (l'.made - l.made) (l'.lost.drop l.lost.length)

/-- Takes down in which sessions an evaluation was entered and left. -/
def bracketed {α : Type} (home : Nat) (act : Act (Logged Session) α) : Act (Logged Session) α :=
  fun l => followedBy act (fun l' => { l' with seen := l.left home l' :: l'.seen }) l

def runRoutine (a : Artifact) (depth : Nat)
    (call : String → List Float → Act (Logged Session) HostValue) (args : List Float) :
    Act (Logged Session) (List Float) := fun l =>
  let m := Session.machine a.home depth fun _ _ => runFailure .hostFailed
  match a.routine.run (m.logged call) args { l with state := ⟨l.state, .shared⟩ } with
  | .ok () l' =>
    .ok (slice ((Session.bufferOf a.home).get l'.state) 0 a.returns).toList
      { l' with state := l'.state.close false a.home }
  | .error e l' => .error e
    { l' with state := l'.state.close true a.home, lost := l'.lost ++ l'.state.atStake a.home }

/-- Evaluations with a log. -/
def manner : Manner (Logged Session) where
  session := state
  doing := doing
  enter := enter
  leave := leave
  run := runRoutine
  bracketed := bracketed

/-- An evaluation with a log. -/
abbrev hosted := manner.hosted

end Logged

end MolangCompiler
