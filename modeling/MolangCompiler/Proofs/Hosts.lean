import MolangCompiler.Proofs.Sessions

/-!
# What host functions keep to

A course of sessions that all single operations keep to (`Session.Managed`) is one that all chores
and targets of host functions keep to.
-/

namespace MolangCompiler

section

variable {σ : Type}

theorem attempt_of_ok {α : Type} {act : Act σ α} {s s' : σ} {a : α} (h : act s = .ok a s') :
    attempt act s = .ok (.ok a) s' := by
  unfold attempt
  rw [h]

theorem attempt_of_error {α : Type} {act : Act σ α} {s s' : σ} {e : Failure}
    (h : act s = .error e s') : attempt act s = .ok (.error e) s' := by
  unfold attempt
  rw [h]

end

namespace Session

/-- A course of sessions that single operations keep to.  `there` says which instances can be worked
on, and `fit` which artifacts can be evaluated. -/
structure Managed (c : Course Session) (there : Nat → Session → Prop)
    (fit : Artifact → Session → Prop) : Prop where
  home {a s} : fit a s → there a.home s
  later {number s s'} : c.le s s' → there number s → there number s'
  lasts {a s s'} : c.le s s' → fit a s → fit a s'
  compile (request : Request) {number s} : there number s →
    Keeps c fit (onInstance number (Workshop.compile number request)) s
  keep {a s} : fit a s → Keeps c (fun _ _ => True) (keep a) s
  artifact (index : Int) (s : Session) : Keeps c fit (artifact index) s
  set (name : String) (values : List Float) {number s} : there number s →
    Keeps c (fun _ _ => True)
      (onInstance number (Workshop.onTenant (Tenant.setValues name values))) s
  get (name : String) {number s} : there number s →
    Keeps c (fun _ _ => True) (onInstance number (Workshop.onTenant (Tenant.values name))) s
  record (e : HostEvent) (s : Session) : Keeps c (fun _ _ => True) (record e) s
  settle (s : Session) : Keeps c (fun _ _ => True)
    (modify fun s => { s with books := s.books.settle } : Act Session PUnit) s

namespace Managed

variable {c : Course Session} {there : Nat → Session → Prop} {fit : Artifact → Session → Prop}
  (M : Managed c there fit) {s : Session}
include M

/-- **A chore** keeps to the course. -/
theorem chore (chore : Chore) {m : Nat} (h : there m s) : Stays c (chore.act m) s := by
  cases chore with
  | compile request =>
    exact .bind (M.compile request h) fun a s' _ _ hFit => .bind_pure (M.keep hFit)
  | set name vs => exact .bind_pure (M.set name vs h)
  | get name => exact .bind_pure (M.get name h)
  | record event => exact .bind_pure (M.record event s)
  | settle => exact .bind_pure (M.settle s)

theorem find (target : Target) {current : Artifact} (h : fit current s) :
    Keeps c fit (target.find current) s := by
  cases target with
  | kept index => exact M.artifact index s
  | running => exact .pure h
  | fresh request => exact M.compile request (M.home h)

end Managed

/-- **Single operations** keep a session sound, on instances that are there and with artifacts that
can run. -/
theorem course_managed :
    Managed course (fun m s => ∃ i, s.instance? m = some i) (fun a s => s.Houses a) where
  home h := by
    obtain ⟨i, hAt, -⟩ := h
    exact ⟨i, hAt⟩
  later hGrows := by
    rintro ⟨i, hAt⟩
    obtain ⟨i', hAt', -⟩ := hGrows.some hAt
    exact ⟨i', hAt'⟩
  lasts hGrows h := h.grows hGrows
  compile request := fun ⟨_, hAt⟩ => compile_keeps hAt request
  keep h := keep_keeps h
  artifact := artifact_keeps
  set name values := fun ⟨_, hAt⟩ =>
    .forget (onInstance_keeps hAt (Workshop.onTenant_keeps (Tenant.setValues_keeps name values _)))
  get name := fun ⟨_, hAt⟩ =>
    .forget (onInstance_keeps hAt (Workshop.onTenant_keeps (Tenant.values_looks name _)))
  record := record_keeps
  settle _ := .forget (modify_keeps rfl rfl rfl rfl)

end Session

end MolangCompiler
