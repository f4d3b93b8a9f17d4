import MolangCompiler.Proofs.Runs
import MolangCompiler.Proofs.Scripts
import MolangCompiler.Proofs.Unbilled

/-!
# Evaluations in which no charge is refused

A host function may deal with the refusal of a charge and go on.  A strict program is the same but
for this: a refusal ends it (`Deed.strict`).  So an evaluation with strict host functions fails with
a refusal as soon as a charge is refused anywhere inside it, and otherwise it is the evaluation
itself.

Both this and the comparison of a session with its copy without charges are cases of one statement:
something is left out of sessions (`Erasing`), the host functions cannot tell the difference
(`Deed.Alike`), and then a strict evaluation and the plain one of what is left do the same unless a
charge is refused (`Session.hosted_alike`).
-/

namespace MolangCompiler

open Comparison

/-! ## Strict programs -/

/-- Goes on with a result unless it is the refusal of a charge. -/
def Deed.unlessRefused {α : Type} (next : Except Failure α → Deed) : Except Failure α → Deed
  | .error (.refused f) => .fail (.refused f)
  | r => next r

/-- The same program, but the refusal of a charge ends it. -/
def Deed.strict : Deed → Deed
  | .give value => .give value
  | .fail failure => .fail failure
  | .look next => .look fun s => (next s).strict
  | .work chore next => .work chore (unlessRefused fun r => (next r).strict)
  | .evaluate target args next =>
    .evaluate target args (unlessRefused fun r => (next r).strict)

def Host.strict (host : Host) : Host := fun number key args => (host number key args).strict

def Unrefused {α : Type} (r : Except Failure α) : Prop := ∀ f, r ≠ .error (.refused f)

private theorem unrefused_ok {α : Type} (a : α) : Unrefused (.ok a : Except Failure α) :=
  fun _ hError => nomatch hError

theorem Deed.unlessRefused_eq {α : Type} {next : Except Failure α → Deed} {r : Except Failure α}
    (h : Unrefused r) : unlessRefused next r = next r := by
  unfold unlessRefused
  split
  · rename_i f
    exact absurd rfl (h f)
  · rfl

/-! ## Leaving something out of a session -/

/-- What is left of sessions, and of what host functions do to them, when something is left out. -/
structure Erasing where
  session : Session → Session
  chore : Chore → Chore

/-- Two programs do the same, one on a session and the other on what is left of it. -/
inductive Deed.Alike (E : Erasing) : Deed → Deed → Prop where
  | give (value : HostValue) : Alike E (.give value) (.give value)
  | fail (failure : Failure) : Alike E (.fail failure) (.fail failure)
  | look {next next' : Session → Deed} : (∀ s, Alike E (next s) (next' (E.session s))) →
      Alike E (.look next) (.look next')
  | work (chore : Chore) {next next' : Except Failure Answer → Deed} :
      (∀ r, Unrefused r → Alike E (next r) (next' r)) →
      Alike E (.work chore next) (.work (E.chore chore) next')
  | evaluate (target : Target) (args : List Float)
      {next next' : Except Failure (List Float) → Deed} :
      (∀ r, Unrefused r → Alike E (next r) (next' r)) →
      Alike E (.evaluate target args next) (.evaluate target args next')

/-- The hosts of two sessions that cannot tell what is left out. -/
def Host.Alike (E : Erasing) (host host' : Host) : Prop :=
  ∀ number key args, (host number key args).Alike E (host' number key args)

namespace Erasing

def nothing : Erasing := ⟨id, id⟩

/-- A world while a routine runs, with what is left of its session. -/
def world (E : Erasing) (w : Session.World) : Session.World :=
  { w with session := E.session w.session }

abbrev Like (E : Erasing) {α : Type} (x y : Act Session α) : Prop :=
  (unlessRefused E.session).Like x y

open Session in
/-- What is left of a session is enough for everything that happens in an evaluation. -/
structure Lawful (E : Erasing) : Prop where
  numbers (s : Session) (name : String) : (E.session s).number? name = s.number? name
  store (s : Session) (number : Nat) :
    ((E.session s).workshop number).inst.space.store = (s.workshop number).inst.space.store
  buffer (s : Session) (number : Nat) :
    ((E.session s).workshop number).inst.scratch.buffer = (s.workshop number).inst.scratch.buffer
  depth (s : Session) (number : Nat) :
    ((E.session s).workshop number).inst.depth = (s.workshop number).inst.depth
  setStore (number : Nat) (store : Array Float) (s : Session) :
    (E.session s).changeInstance number (·.setStore store) =
      E.session (s.changeInstance number (·.setStore store))
  setBuffer (number : Nat) (buffer : Array Float) (s : Session) :
    (E.session s).changeInstance number (·.setBuffer buffer) =
      E.session (s.changeInstance number (·.setBuffer buffer))
  changeDepth (number : Nat) (f : Nat → Nat) (s : Session) :
    changeDepth number f (E.session s) = E.session (changeDepth number f s)
  acquire (number slots : Nat) (depth : Int) :
    E.Like (onInstance number (Workshop.onScratch (ScratchRoom.acquire slots depth)))
      (onInstance number (Workshop.onScratch (ScratchRoom.acquire slots depth)))
  release (failed : Bool) (number : Nat) (loan : Loan) :
    E.Like (onInstance number (Workshop.onScratch (modify (ScratchRoom.release failed loan))))
      (onInstance number (Workshop.onScratch (modify (ScratchRoom.release failed loan))))
  record {event : HostEvent} (hEvent : event.unbilled = event) :
    E.Like (record event) (record event)
  chore (number : Nat) (chore : Chore) : E.Like (chore.act number) ((E.chore chore).act number)
  find (target : Target) (current : Artifact) : E.Like (target.find current) (target.find current)

end Erasing

section

variable {σ τ α β : Type} {erase : σ → τ}

private theorem attempt_like {x : Act σ α} {y : Act τ α} {f : Except Failure α → Act σ β}
    {g : Except Failure α → Act τ β} (h : (unlessRefused erase).Like x y)
    (hRefused : ∀ r, f (.error (.refused r)) = MonadExcept.throw (.refused r))
    (hNext : ∀ r, Unrefused r → (unlessRefused erase).Like (f r) (g r)) :
    (unlessRefused erase).Like (attempt x >>= f) (attempt y >>= g) := by
  intro s _
  have hFirst := h s trivial
  generalize hx : x s = outX at hFirst
  generalize hy : y (erase s) = outY at hFirst
  have hEnds {e : Failure} {s' : σ} (hx : x s = .error e s') (h : e.IsRefusal) :
      (attempt x >>= f) s = .error e s' := by
    cases e with
    | refused r =>
      rw [bind_of_ok (attempt_of_error hx), hRefused]
      rfl
    | _ => exact h.elim
  cases hFirst with
  | @ok a s' _ =>
    rw [bind_of_ok (attempt_of_ok hx), bind_of_ok (attempt_of_ok hy)]
    exact hNext _ (unrefused_ok a) s' trivial
  | @error e s' _ =>
    by_cases hRefusal : e.IsRefusal
    · rw [hEnds hx hRefusal]
      exact .excused hRefusal
    · rw [bind_of_ok (attempt_of_error hx), bind_of_ok (attempt_of_error hy)]
      refine hNext _ (fun r hError => hRefusal ?_) s' trivial
      cases hError
      trivial
  | excused h =>
    rw [hEnds hx h]
    exact .excused h

private theorem followedBy_like {x : Act σ α} {y : Act τ α} {after : σ → σ} {after' : τ → τ}
    (h : (unlessRefused erase).Like x y) (hAfter : ∀ s, after' (erase s) = erase (after s)) :
    (unlessRefused erase).Like (followedBy x after) (followedBy y after') :=
  shadowing_followedBy h fun s _ => ⟨hAfter s, trivial, trivial⟩

end

/-! ## Evaluations -/

namespace Session

variable {E : Erasing} (L : E.Lawful)

include L

theorem close_alike (failed : Bool) (m : Nat) (w : World) :
    (E.world w).close failed m = E.session (w.close failed m) := by
  -- releasing a buffer never fails
  have hRelease : Shadows E.session _ _ _ (.ok () (w.close failed m))
      (.ok () ((E.world w).close failed m)) := L.release failed m w.loan w.session trivial
  rcases hRelease.of_ok with ⟨f, s, hRefused⟩ | ⟨s, hOk, hSame⟩
  · cases hRefused
  · injection hOk with _ hState
    rw [← hSame, hState]

theorem buffer_alike (m : Nat) : (bufferOf m).Kept (bufferOf m) E.world (.any _) := by
  refine ⟨fun w _ => ?_, fun buffer w _ => ⟨?_, trivial, trivial⟩⟩
  · obtain ⟨s, loan⟩ := w
    cases loan with
    | shared => exact L.buffer s m
    | own buffer charged => rfl
  · obtain ⟨s, loan⟩ := w
    cases loan with
    | shared => exact congrArg (World.mk · .shared) (L.setBuffer m buffer s)
    | own buffer charged => rfl

theorem machine_alike (m depth : Nat) {call call' : Calls}
    (hCall : ∀ f args, E.Like (call f args) (call' f args)) :
    (machine m depth call).Compared (unlessRefused E.world) (machine m depth call') := by
  have hStore : (storeOf m).Kept (storeOf m) E.world (.any _) := by
    refine ⟨fun w _ => L.store w.session m, fun store w _ => ⟨?_, trivial, trivial⟩⟩
    exact congrArg (World.mk · w.loan) (L.setStore m store w.session)
  have hBuffer := buffer_alike L m
  refine ⟨hStore.read, hStore.write, hStore.readMany, hStore.writeMany, fun f args => ?_,
    fun slots w _ => ?_, hBuffer.write, hBuffer.readMany, hBuffer.writeMany⟩
  · exact onPart_like E.session (hCall f args)
  · have hAcquire := L.acquire m slots depth w.session trivial
    show Shadows E.world _ _ _ (World.lent w.loan (onInstance m _ w.session))
      (World.lent w.loan (onInstance m _ (E.session w.session)))
    generalize onInstance m _ w.session = out at hAcquire ⊢
    generalize onInstance m _ (E.session w.session) = out' at hAcquire ⊢
    cases hAcquire with
    | ok h => exact .ok h
    | error h => exact .error h
    | excused h => exact .excused h

theorem runRoutine_alike (a : Artifact) (depth : Nat)
    {call call' : Calls}
    (hCall : ∀ f args, E.Like (call f args) (call' f args))
    (args : List Float) :
      E.Like (runRoutine a depth call args) (runRoutine a depth call' args) := by
  intro s _
  have hMachine := machine_alike L a.home depth hCall
  have hRun := Routine.run_compared hMachine a.routine args ⟨s, .shared⟩ trivial
  have hFrom : E.world ⟨s, .shared⟩ = ⟨E.session s, .shared⟩ := rfl
  rw [hFrom] at hRun
  unfold runRoutine
  generalize a.routine.run _ args (⟨s, .shared⟩ : World) = out at hRun ⊢
  generalize a.routine.run _ args (⟨E.session s, .shared⟩ : World) = out' at hRun ⊢
  cases hRun with
  | ok h =>
    dsimp only
    rw [(buffer_alike L a.home).get _ trivial]
    exact .ok_of (close_alike L _ _ _) h
  | error h => exact .error_of (close_alike L _ _ _) h
  | excused h => exact .excused h

theorem evaluateWith_alike {call call' : Calls}
    (hCall : ∀ f args, E.Like (call f args) (call' f args)) (a : Artifact) (args : List Float) :
    E.Like (evaluateWith call a args) (evaluateWith call' a args) := by
  show E.Like (if args.length ≠ a.args then _ else _) (if args.length ≠ a.args then _ else _)
  split
  · exact (unlessRefused E.session).throw _
  refine Like.bind (modify_like fun s => L.changeDepth a.home (· + 1) s) fun _ => get_like
    fun s => ?_
  show E.Like (followedBy (runRoutine _ (s.workshop _).inst.depth _ _) _)
    (followedBy (runRoutine _ ((E.session s).workshop _).inst.depth _ _) _)
  rw [L.depth]
  exact followedBy_like (runRoutine_alike L a _ hCall _) (L.changeDepth a.home (· - 1))

/-- **Programs that cannot tell** what is left out. -/
theorem perform_alike {evaluate evaluate' : Evaluator}
    (hEvaluate : ∀ a args, E.Like (evaluate a args) (evaluate' a args)) (current : Artifact)
    {d d' : Deed} (h : d.Alike E d') :
    E.Like (d.strict.perform .plain evaluate current) (d'.perform .plain evaluate' current) := by
  induction h with
  | give value => exact (unlessRefused E.session).pure trivial
  | fail failure => exact (unlessRefused E.session).throw _
  | look _ ih => exact get_like fun s => ih s
  | work chore _ ih =>
    refine attempt_like (L.chore current.home chore) (fun _ => rfl) fun r hr => ?_
    rw [Deed.unlessRefused_eq hr]
    exact ih r hr
  | evaluate target args _ ih =>
    refine attempt_like ((L.find target current).bind fun a => hEvaluate a args) (fun _ => rfl)
      fun r hr => ?_
    rw [Deed.unlessRefused_eq hr]
    exact ih r hr

/-- **An evaluation with strict host functions** and the plain one of what is left do the same,
unless a charge is refused. -/
theorem hosted_alike {host host' : Host} (h : host.Alike E host') (limit : Nat) :
    ∀ (a : Artifact) (args : List Float),
      E.Like (hosted host.strict limit a args) (hosted host' limit a args) := by
  induction limit with
  | zero => exact fun _ _ => (unlessRefused E.session).throw _
  | succ limit ih =>
    intro a args
    refine evaluateWith_alike L (fun f args => ?_) a args
    refine (L.record rfl).bind fun _ => ?_
    exact perform_alike L ih a (h a.home f args)

/-! ## Commands -/

theorem enter_alike (m : Nat) : ∀ levels, E.Like (enter m levels) (enter m levels)
  | 0 => (unlessRefused E.session).pure trivial
  | levels + 1 => by
    refine Like.bind (modify_like fun s => L.changeDepth m (· + 1) s) fun _ => ?_
    refine get_like fun s => ?_
    rw [L.depth]
    exact (L.record rfl).bind fun _ => enter_alike m levels

/-- **What is asked of an instance**, with strict host functions and with plain ones. -/
theorem obey_alike {host host' : Host} (h : host.Alike E host')
    (hOther : ∀ m task, task.evaluates = false → ∀ evaluate evaluate',
      E.Like (doTask evaluate m task) (doTask evaluate' m task)) (name : String) (task : Task) :
    E.Like (obey host.strict (.task name task)) (obey host' (.task name task)) := by
  have hEvaluate := hosted_alike L h nestingLimit
  have hValues (a : Artifact) (args : List Float) : E.Like
      (do return Answer.values (← hosted host.strict nestingLimit a args))
      (do return Answer.values (← hosted host' nestingLimit a args)) :=
    (hEvaluate a args).bind fun _ => (unlessRefused E.session).pure trivial
  -- any running artifact will do to look another one up
  let anyone (m : Nat) : Artifact := ⟨m, "", 0, 0, "", ⟨"", 0, []⟩⟩
  refine get_like fun s => ?_
  rw [L.numbers]
  cases s.number? name with
  | none => exact (unlessRefused E.session).throw _
  | some m =>
    dsimp only
    cases hEvaluates : task.evaluates with
    | false => exact hOther m task hEvaluates _ _
    | true =>
      cases task with
      | evaluate index args =>
        exact (L.find (.kept index) (anyone m)).bind fun a => hValues a args
      | evaluateNested index args levels =>
        refine (L.find (.kept index) (anyone m)).bind fun a => ?_
        exact followedBy_like ((enter_alike L m levels).bind fun _ => hValues a args)
          (L.changeDepth m (· - levels))
      | run request args =>
        exact (L.find (.fresh request) (anyone m)).bind fun a => hValues a args
      | _ => cases hEvaluates

end Session

end MolangCompiler
