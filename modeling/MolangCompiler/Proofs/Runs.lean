import MolangCompiler.Proofs.Comparison
import MolangCompiler.Routine.Run

/-!
# Comparing runs

A routine only sequences operations of its machine, and its locals are its own.  So a comparison
that relates the operations of two machines relates the runs of every routine on them
(`Routine.run_compared`), whether the routine was checked or not.
-/

namespace MolangCompiler

open Code

section

variable {σ τ : Type}

/-- The world of a running routine, with the locals beside it. -/
def Activation.parts (σ : Type) : Comparison.Parts (Activation σ) σ (Nat → Option Float) where
  main := world
  second := locals
  join w locals := ⟨locals, w⟩
  join_parts _ := rfl
  main_join _ _ := rfl
  second_join _ _ := rfl

/-- Machines whose operations correspond. -/
structure Machine.Compared (c : Comparison σ τ) (m : Machine σ) (m' : Machine τ) : Prop where
  readVariable (slot : Nat) : c.Like (m.readVariable slot) (m'.readVariable slot)
  writeVariable (slot : Nat) (x : Float) : c.Like (m.writeVariable slot x) (m'.writeVariable slot x)
  readVariables (offset size : Nat) :
    c.Like (m.readVariables offset size) (m'.readVariables offset size)
  writeVariables (offset size : Nat) (xs : Array Float) :
    c.Like (m.writeVariables offset size xs) (m'.writeVariables offset size xs)
  call (function : String) (args : List Float) :
    c.Like (m.call function args) (m'.call function args)
  acquire (slots : Nat) : c.Like (m.acquire slots) (m'.acquire slots)
  writeSlot (slot : Nat) (x : Float) : c.Like (m.writeSlot slot x) (m'.writeSlot slot x)
  readSlots (slot size : Nat) : c.Like (m.readSlots slot size) (m'.readSlots slot size)
  writeSlots (slot size : Nat) (xs : Array Float) :
    c.Like (m.writeSlots slot size xs) (m'.writeSlots slot size xs)

namespace Comparison

/-- Activations are compared by their worlds; their locals are the same. -/
abbrev active (c : Comparison σ τ) : Comparison (Activation σ) (Activation τ) :=
  c.beside (Activation.parts σ) (Activation.parts τ)

variable {c : Comparison σ τ}

theorem onWorld_compared {α : Type} {act : Act σ α} {act' : Act τ α} (h : c.Like act act') :
    c.active.Like (onWorld act) (onWorld act') := beside_onPart h

theorem readLocal_compared (index : Nat) : c.active.Like (readLocal index) (readLocal index) := by
  intro locals
  have hRead (ρ : Type) : (Activation.parts ρ).expose (readLocal index) locals =
      (locals index).elim (MonadExcept.throw (Failure.run (.unsetLocal index)))
        fun x => Pure.pure (x, locals) := by
    funext w
    have hGet : (get : Act (Activation ρ) (Activation ρ)) ⟨locals, w⟩ = .ok ⟨locals, w⟩
        ⟨locals, w⟩ :=
      rfl
    cases hLocal : locals index with
    | some x =>
      refine (Activation.parts ρ).expose_of_ok (r := ⟨locals, w⟩) ((bind_of_ok hGet).trans ?_)
      dsimp only
      rw [hLocal]
      rfl
    | none =>
      refine (Activation.parts ρ).expose_of_error (r := ⟨locals, w⟩) ((bind_of_ok hGet).trans ?_)
      dsimp only
      rw [hLocal]
      rfl
  rw [hRead, hRead]
  cases locals index with
  | some => exact c.pure trivial
  | none => exact c.throw _

theorem setLocal_compared (index : Nat) (x : Float) :
    c.active.Like (setLocal index x) (setLocal index x) :=
  fun locals => c.pure (a := ((), fun i => if i = index then some x else locals i)) trivial

theorem single_compared (value : HostValue) :
    c.Like (value.single : Act σ Float) (value.single : Act τ Float) := by
  cases value with
  | number x => exact c.pure trivial
  | list xs => exact c.throw _

theorem values_compared (expected : Nat) (value : HostValue) :
    c.Like (value.values expected : Act σ (List Float)) (value.values expected) := by
  cases value with
  | number x => exact c.throw _
  | list xs =>
    simp only [HostValue.values]
    split
    · exact c.throw _
    · split
      · exact c.throw _
      · exact c.pure trivial

theorem apply_compared (h : Helper) (vs : List Float) :
    c.Like (h.apply vs : Act σ Float) (h.apply vs) := by
  unfold Helper.apply
  split
  · exact c.pure (p := fun _ => True) trivial
  · exact c.throw _

end Comparison

open Comparison

variable {c : Comparison σ τ} {m : Machine σ} {m' : Machine τ}

mutual

theorem Code.eval_compared (h : m.Compared c m') :
    ∀ code : Code, c.active.Like (code.eval m) (code.eval m')
  | .literal _ => c.active.pure trivial
  | .readLocal index => readLocal_compared index
  | .readVariable slot => onWorld_compared (h.readVariable slot)
  | .negate operand | .not operand => (eval_compared h operand).bind fun _ => c.active.pure trivial
  | .binary _ left right =>
    (eval_compared h left).bind fun _ =>
      (eval_compared h right).bind fun _ => c.active.pure trivial
  | .helper function args =>
    (evalAll_compared h args).bind fun vs => apply_compared function vs
  | .call callee args =>
    (evalAll_compared h args).bind fun vs =>
      (onWorld_compared (h.call callee.function vs)).bind single_compared

theorem Code.evalAll_compared (h : m.Compared c m') : ∀ codes : List Code,
    c.active.Like (evalAll m codes) (evalAll m' codes)
  | [] => c.active.pure trivial
  | code :: rest =>
    (eval_compared h code).bind fun _ =>
      (evalAll_compared h rest).bind fun _ => c.active.pure trivial

end

private theorem setSlots_compared (h : m.Compared c m') (xs : List Float) :
    ∀ slot : Nat, c.active.Like (setSlots m slot xs) (setSlots m' slot xs) := by
  induction xs with
  | nil => exact fun _ => c.active.pure trivial
  | cons x rest ih =>
    exact fun slot => (onWorld_compared (h.writeSlot slot x)).bind fun _ => ih (slot + 1)

theorem Action.run_compared (h : m.Compared c m') (action : Action) :
    c.active.Like (action.run m) (action.run m') := by
  have hDone : c.active.Like (Pure.pure Flow.goOn) (Pure.pure Flow.goOn) := c.active.pure trivial
  cases action with
  | acquire slots => exact (onWorld_compared (h.acquire _)).bind fun _ => hDone
  | setLocal index value =>
    exact (eval_compared h value).bind fun x => (setLocal_compared index x).bind fun _ => hDone
  | setTruth index value =>
    exact (eval_compared h value).bind fun x => (setLocal_compared index _).bind fun _ => hDone
  | setSlot slot value =>
    exact (eval_compared h value).bind fun x =>
      (onWorld_compared (h.writeSlot _ x)).bind fun _ => hDone
  | setSlots slot width callee args =>
    exact (evalAll_compared h args).bind fun vs =>
      (onWorld_compared (h.call _ vs)).bind fun result =>
        (values_compared width result).bind fun xs =>
          (setSlots_compared h xs _).bind fun _ => hDone
  | setVariable slot value =>
    exact (eval_compared h value).bind fun x =>
      (onWorld_compared (h.writeVariable slot x)).bind fun _ => hDone
  | load slot offset size =>
    exact (onWorld_compared (h.readVariables offset size)).bind fun xs =>
      (onWorld_compared (h.writeSlots _ size xs)).bind fun _ => hDone
  | store offset size slot =>
    exact (onWorld_compared (h.readSlots _ size)).bind fun xs =>
      (onWorld_compared (h.writeVariables offset size xs)).bind fun _ => hDone
  | finish => exact c.active.pure trivial

theorem Test.eval_compared (h : m.Compared c m') (test : Test) :
    c.active.Like (test.eval m) (test.eval m') := by
  cases test with
  | holds value | fails value =>
    exact (Code.eval_compared h value).bind fun _ => c.active.pure trivial

mutual

theorem Step.run_compared (h : m.Compared c m') :
    ∀ step : Step, c.active.Like (step.run m) (step.run m')
  | .act action => Action.run_compared h action
  | .choose test yes no => (Test.eval_compared h test).bind fun holds => by
    cases holds with
    | true => exact runAll_compared h yes
    | false => exact runAll_compared h no

theorem Step.runAll_compared (h : m.Compared c m') : ∀ steps : List Step,
    c.active.Like (runAll m steps) (runAll m' steps)
  | [] => c.active.pure trivial
  | step :: rest => (run_compared h step).bind fun flow => by
    cases flow with
    | goOn => exact runAll_compared h rest
    | ended => exact c.active.pure trivial

end

/-- **Runs of a routine** correspond if the operations of their machines do. -/
theorem Routine.run_compared (h : m.Compared c m') (routine : Routine) (args : List Float) :
    c.Like (routine.run m args) (routine.run m' args) := by
  have hRun (ρ : Type) (m : Machine ρ) : routine.run m args =
      (Activation.parts ρ).expose (Step.runAll m routine.body) (fun i => args[i]?) >>=
        fun _ => Pure.pure () := by
    funext w
    unfold run
    cases hSteps : Step.runAll m routine.body ⟨fun i => args[i]?, w⟩ with
    | ok flow a => rw [bind_of_ok ((Activation.parts ρ).expose_of_ok hSteps)]; rfl
    | error e a => rw [bind_of_error ((Activation.parts ρ).expose_of_error hSteps)]; rfl
  rw [hRun, hRun]
  exact c.bind (Step.runAll_compared h routine.body _) fun _ _ => c.pure trivial

end

end MolangCompiler
