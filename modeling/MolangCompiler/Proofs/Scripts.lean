import MolangCompiler.Proofs.Hosts

/-!
# What commands keep to

A course of sessions that single operations and evaluations keep to is one that all tasks keep to,
however artifacts are evaluated.
-/

namespace MolangCompiler

def Task.evaluates : Task → Bool
  | .evaluate .. | .evaluateNested .. | .run .. => true
  | _ => false

/-- A host function that evaluates the artifact that was kept first and returns a value of it, or a
negative number if that fails. -/
def Host.callBack : Host := fun _ _ _ => .evaluate (.kept 0) [] fun
  | .ok (x :: _) => .give (.number x)
  | .ok [] | .error _ => .give (.number (-1))

namespace Session

section

variable {c : Course Session} {there : Nat → Session → Prop} {fit : Artifact → Session → Prop}
  (M : Managed c there fit) {evaluate : Evaluator}
  (hEvaluate : ∀ a args {s : Session}, fit a s → Stays c (evaluate a args) s)
  {m : Nat} {s : Session}
include M hEvaluate

theorem Managed.nested
    (hDepth : ∀ (f : Nat → Nat) {s : Session}, there m s → c.ok s →
      c.ok (s.changeDepth m f) ∧ c.le s (s.changeDepth m f))
    (a : Artifact) (args : List Float) (levels : Nat) (s : Session) (hThere : there m s)
    (hFit : fit a s) : Stays c
      (followedBy (do enter m levels; return Answer.values (← evaluate a args))
        (changeDepth m (· - levels))) s := by
  have hEnter (levels : Nat) : ∀ {s : Session}, there m s → Stays c (enter m levels) s := by
    induction levels with
    | zero => exact fun _ => .pure trivial
    | succ levels ih =>
      intro s hThere
      refine .bind (p := fun _ _ => True) ?_ fun _ s₁ _ hLe _ => .get_bind ?_
      · exact .modify (fun hOk => (hDepth _ hThere hOk).1) (fun hOk => (hDepth _ hThere hOk).2)
          fun _ => trivial
      · exact .bind (M.record _ s₁) fun _ s₂ _ hLe' _ => ih (M.later (c.trans hLe hLe') hThere)
  refine followedBy_keeps (p := fun _ _ => True) ?_ fun s' hOk hLe =>
    hDepth _ (M.later hLe hThere) hOk
  refine .bind (hEnter levels hThere) fun _ s' _ hLe _ => ?_
  exact .bind_pure (hEvaluate a args (M.lasts hLe hFit))

/-- **Every task** keeps to a course that single operations and evaluations keep to. -/
theorem Managed.task
    (hNested : ∀ a args levels s, there m s → fit a s → Stays c
      (followedBy (do enter m levels; return Answer.values (← evaluate a args))
        (changeDepth m (· - levels))) s) (hThere : there m s) (task : Task)
    (hDeclare : ∀ name size, task = .declare name size → Stays c
      (onInstance m (Workshop.onTenant (Tenant.obtain name size))) s) :
    Stays c (doTask evaluate m task) s := by
  cases task with
  | compile request =>
    exact .bind (M.compile request hThere) fun a s' _ _ hFit => .bind_pure (M.keep hFit)
  | evaluate index args =>
    exact .bind (M.artifact index s) fun a s' _ _ hFit => .bind_pure (hEvaluate a args hFit)
  | evaluateNested index args levels =>
    exact .bind (M.artifact index s) fun a s' _ hLe hFit =>
      hNested a args levels s' (M.later hLe hThere) hFit
  | run request args =>
    exact .bind (M.compile request hThere) fun a s' _ _ hFit =>
      .bind_pure (hEvaluate a args hFit)
  | set name values => exact .bind_pure (M.set name values hThere)
  | get name => exact .bind_pure (M.get name hThere)
  | declare name size => exact .bind_pure (hDeclare name size rfl)
  | lookUp | findVariable | listVariables | store | scratch | hasQuery =>
    exact .get_bind (.pure trivial)

end

/-- What is reported of commands that are carried out one after the other, each with the name of the
instance to report on; the session after each of them is given along with its report. -/
def chronicle (host : Host) : List (String × Command) → Session → List (Report × Session)
  | [], _ => []
  | (name, command) :: rest, s =>
    let after := report host name command s
    after :: chronicle host rest after.2

end Session

end MolangCompiler
