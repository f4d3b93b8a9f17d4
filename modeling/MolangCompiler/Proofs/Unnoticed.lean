import MolangCompiler.Proofs.Strict

/-!
# Counting bytes is not noticed

A session that counts bytes and one that does not, given the same commands, report the same, and
what is left of the sessions when the charges are left out is the same too.  This holds step by step
as long as no charge is refused, whatever the budget and whatever the host functions do, provided
that they do not look at the charges.
-/

namespace MolangCompiler

open Erasing

open Comparison

/-! ## Leaving nothing out -/

theorem Erasing.nothing_lawful : nothing.Lawful where
  numbers _ _ := rfl
  store _ _ := rfl
  buffer _ _ := rfl
  depth _ _ := rfl
  setStore _ _ _ := rfl
  setBuffer _ _ _ := rfl
  changeDepth _ _ _ := rfl
  acquire _ _ _ := shadowing_id _
  release _ _ _ := shadowing_id _
  record _ := shadowing_id _
  chore _ _ := shadowing_id _
  find _ _ := shadowing_id _

theorem Deed.alike_refl (d : Deed) : d.Alike .nothing d := by
  induction d with
  | give value => exact .give value
  | fail failure => exact .fail failure
  | look next ih => exact .look ih
  | work chore next ih => exact .work chore fun r _ => ih r
  | evaluate target args next ih => exact .evaluate target args fun r _ => ih r

namespace Session

/-- Whether a charge is refused while a command is carried out: with strict host functions the
command fails with the refusal then. -/
def refuses (host : Host) (command : Command) (s : Session) : Bool :=
  match obey host.strict command s with
  | .error (.refused _) _ => true
  | _ => false

/-- **Where no charge is refused** strict host functions are as good as others. -/
theorem obey_strict {host : Host} {command : Command} {s : Session}
    (h : refuses host command s = false) : obey host.strict command s = obey host command s := by
  have hLike : nothing.Like (obey host.strict command) (obey host command) := by
    cases command with
    | task name task =>
      refine obey_alike nothing_lawful (fun _ _ _ => Deed.alike_refl _)
        (fun _ task hOther _ _ => ?_) name task
      cases task with
      | evaluate | evaluateNested | run => cases hOther
      | _ => exact shadowing_id _
    | _ =>
      simp only [obey, obeyVia]
      exact shadowing_id _
  have hAlike : Shadows id _ _ _ _ (obey host command s) := hLike s trivial
  unfold refuses at h
  generalize obey host.strict command s = out at h hAlike ⊢
  generalize obey host command s = out' at hAlike ⊢
  cases hAlike with
  | ok | error => rfl
  | @excused e _ _ hRefusal =>
    cases e with
    | refused => cases h
    | _ => exact hRefusal.elim

end Session

/-! ## Leaving the charges out -/

/-- What a host function does, without the bytes in use. -/
def Chore.unbilled : Chore → Chore
  | .record event => .record event.unbilled
  | chore => chore

def Erasing.charges : Erasing := ⟨Session.unbilled, Chore.unbilled⟩

theorem Chore.act_unbilled (m : Nat) (chore : Chore) :
    charges.Like (chore.act m) (chore.unbilled.act m) := by
  have hDone {act act' : Act Session PUnit} (h : charges.Like act act') :
      charges.Like (do act; return Answer.done) (do act'; return Answer.done) :=
    h.bind fun _ => (unlessRefused Session.unbilled).pure trivial
  cases chore with
  | compile request =>
    refine (Session.compile_unbilled m request).bind fun a => ?_
    exact (Session.keep_unbilled a).bind fun _ => (unlessRefused Session.unbilled).pure trivial
  | set name vs =>
    exact hDone (Session.onInstance_unbilled m (Workshop.onTenant_unbilled
      (Tenant.setValues_unbilled name vs)))
  | get name =>
    exact (Session.onInstance_unbilled m (Workshop.onTenant_unbilled
      (Tenant.values_unbilled name))).bind fun _ => (unlessRefused Session.unbilled).pure trivial
  | record event => exact hDone (Session.record_unbilled rfl)
  | settle => exact hDone Session.settle_unbilled

theorem Target.find_unbilled (target : Target) (current : Artifact) :
    charges.Like (target.find current) (target.find current) := by
  cases target with
  | kept index => exact Session.artifact_unbilled index
  | running => exact (unlessRefused Session.unbilled).pure trivial
  | fresh request => exact Session.compile_unbilled current.home request

open Session in
/-- **Charges can be left out** of everything that happens in a session. -/
theorem Erasing.charges_lawful : charges.Lawful where
  numbers _ _ := rfl
  store s number := congrArg (·.inst.space.store) (workshop_unbilled s number)
  buffer s number := congrArg (·.inst.scratch.buffer) (workshop_unbilled s number)
  depth s number := congrArg (·.inst.depth) (workshop_unbilled s number)
  setStore number store s :=
    changeInstance_unbilled (f := (·.setStore store)) (fun _ => rfl) s number
  setBuffer number buffer s :=
    changeInstance_unbilled (f := (·.setBuffer buffer)) (fun _ => rfl) s number
  changeDepth number f s := changeDepth_unbilled number f s
  acquire number slots depth :=
    onInstance_unbilled number
      (Workshop.onScratch_unbilled (ScratchRoom.acquire_unbilled slots depth))
  release failed number loan :=
    onInstance_unbilled number (Workshop.onScratch_unbilled
      (modify_like (ScratchRoom.unbilled_release failed loan)))
  record hEvent := record_unbilled hEvent.symm
  chore number chore := chore.act_unbilled number
  find target current := target.find_unbilled current

/-- A host whose programs do not look at charges: whatever they see of a session is the same when
the charges are left out, and what they record of the bytes in use they do nothing else with. -/
def Host.Blind (host : Host) : Prop := host.Alike .charges host

/-! ## Commands -/

def Answer.unbilled : Answer → Answer
  | .budget _ => .budget none
  | answer => answer

/-- A report without the bytes in use. -/
def Report.unbilled (r : Report) : Report where
  result := r.result.map Answer.unbilled
  status := r.status
  used := none
  events := r.events.map HostEvent.unbilled
  notes := r.notes.filter (!·.isCharge)

theorem HostEvent.unbilled_unbilled (event : HostEvent) :
    event.unbilled.unbilled = event.unbilled := by
  cases event <;> rfl

namespace Session

theorem doTask_unbilled (m : Nat) (task : Task) (h : task.evaluates = false)
    (evaluate evaluate' : Evaluator) :
    charges.Like (doTask evaluate m task) (doTask evaluate' m task) := by
  have hSee {α : Type} (f : Workshop → α) (hf : ∀ w, f w.unbilled = f w) (k : α → Answer) :
      charges.Like (do return k (f ((← get).workshop m)))
        (do return k (f ((← get).workshop m))) := by
    refine get_like fun s => ?_
    show (unlessRefused unbilled).Like _ (Pure.pure (k (f (s.unbilled.workshop m))))
    rw [workshop_unbilled, hf]
    exact (unlessRefused unbilled).pure trivial
  cases task with
  | evaluate | evaluateNested | run => cases h
  | compile request => exact Chore.act_unbilled m (.compile request)
  | set name vs => exact Chore.act_unbilled m (.set name vs)
  | get name => exact Chore.act_unbilled m (.get name)
  | lookUp name => exact hSee (·.inst.space.get? name) (fun _ => rfl) .record
  | findVariable name => exact hSee (·.inst.space.find? name) (fun _ => rfl) .record
  | declare name size =>
    exact (onInstance_unbilled m (Workshop.onTenant_unbilled
      (Tenant.obtain_unbilled name size))).bind fun _ => (unlessRefused unbilled).pure trivial
  | listVariables => exact hSee (·.inst.space.records) (fun _ => rfl) .records
  | store => exact hSee (·.inst.space.store.toList) (fun _ => rfl) .values
  | scratch => exact hSee (·.inst.scratch.buffer.toList) (fun _ => rfl) .values
  | hasQuery name => exact hSee (fun w => (w.inst.query? name).isSome) (fun _ => rfl) .truth

theorem status_unbilled (s : Session) (number? : Option Nat) :
    (number?.bind s.unbilled.instance?).map Instance.status =
      (number?.bind s.instance?).map Instance.status := by
  cases number? with
  | none => rfl
  | some m =>
    dsimp only [Option.bind_some]
    rw [instance?_unbilled, Option.map_map]
    rfl

theorem changeBudget_unbilled (budget budget' : Option Int) :
    charges.Like (do return (← changeBudget budget).unbilled)
      (do return (← changeBudget budget').unbilled) :=
  fun s _ => .ok (s := { s with books := s.books.setBudget budget }) ⟨trivial, trivial, trivial⟩

variable {host : Host}

/-- **What a command answers** and what it leads to, unless a charge is refused. -/
theorem obey_unbilled (hBlind : host.Blind) (command : Command) :
    charges.Like (do return (← obey host.strict command).unbilled)
      (do return (← obey host command).unbilled) := by
  have hAnswer {act act' : Act Session Answer} (h : charges.Like act act') :
      charges.Like (do return (← act).unbilled) (do return (← act').unbilled) :=
    h.bind fun _ => (unlessRefused unbilled).pure trivial
  cases command with
  | create name plan => exact hAnswer (create_unbilled name plan)
  | drop name =>
    refine hAnswer (.bind (modify_like (drop_unbilled name)) fun _ => ?_)
    exact (unlessRefused unbilled).pure trivial
  | setBudget budget => exact changeBudget_unbilled budget budget
  | setSlack slack => exact fun s => changeBudget_unbilled _ _ s
  | task name task => exact hAnswer (obey_alike charges_lawful hBlind doTask_unbilled name task)

theorem outcome_unbilled {x y : Act Session Answer} {s t : Session}
    {done : Answer → Session → Prop} {failed : Session → Prop}
    (h : Shadows unbilled Failure.IsRefusal done failed
      ((do return (← x).unbilled : Act Session Answer) s)
      ((do return (← y).unbilled : Act Session Answer) t))
    (hCalm : ∀ f s', x s ≠ .error (.refused f) s') :
    (outcome y t).1.map Answer.unbilled = (outcome x s).1.map Answer.unbilled ∧
      (outcome y t).2 = (outcome x s).2.unbilled := by
  unfold outcome
  cases hx : x s with
  | ok a s' =>
    rw [bind_of_ok hx] at h
    cases hy : y t with
    | ok b t' =>
      rw [bind_of_ok hy] at h
      rcases h.of_ok with ⟨f, s'', hRefused⟩ | ⟨s'', hOk, hState⟩
      · cases hRefused
      · injection hOk with hAnswer hSame
        subst hSame
        exact ⟨congrArg Except.ok hAnswer.symm, hState.symm⟩
    | error e t' =>
      rw [bind_of_error hy] at h
      cases h
  | error e s' =>
    rw [bind_of_error hx] at h
    cases hy : y t with
    | ok b t' =>
      rw [bind_of_ok hy] at h
      rcases h.of_ok with ⟨f, s'', hRefused⟩ | ⟨s'', hOk, -⟩
      · cases hRefused
        exact absurd hx (hCalm f s')
      · cases hOk
    | error e' t' =>
      rw [bind_of_error hy] at h
      cases h with
      | error => exact ⟨rfl, rfl⟩
      | excused hRefusal =>
        cases e with
        | refused f => exact absurd hx (hCalm f s')
        | _ => exact hRefusal.elim

/-- **One command**: the reports of a session and of its copy without charges say the same, and
lead to a session and its copy. -/
theorem report_unbilled (hBlind : host.Blind) {command : Command} {s : Session}
    (hCalm : refuses host command s = false) (name : String) :
    (report host name command s.unbilled).1.unbilled = (report host name command s).1.unbilled ∧
      (report host name command s.unbilled).2 = (report host name command s).2.unbilled := by
  have hSame := obey_strict hCalm
  have hShadow := obey_unbilled hBlind command s trivial
  have hNever (f : Refusal) (s' : Session) :
      obey host.strict command s ≠ .error (.refused f) s' := by
    intro hRefused
    unfold refuses at hCalm
    rw [hRefused] at hCalm
    cases hCalm
  obtain ⟨hResult, hAfter⟩ := outcome_unbilled (t := s.unbilled) hShadow hNever
  have hOutcome : outcome (obey host.strict command) s = outcome (obey host command) s := by
    unfold outcome
    rw [hSame]
  rw [hOutcome] at hResult hAfter
  unfold report reportOn
  dsimp only
  rw [hAfter, finish_unbilled]
  generalize (outcome (obey host command) s).2.finish = after
  refine ⟨?_, rfl⟩
  unfold Report.unbilled
  dsimp only
  rw [hResult, status_unbilled, number?_unbilled]
  congr 1
  · show (after.events.map HostEvent.unbilled).map HostEvent.unbilled = _
    rw [List.map_map]
    exact List.map_congr_left fun event _ => event.unbilled_unbilled
  · show (after.books.journal.filter (!·.isCharge)).filter (!·.isCharge) = _
    rw [List.filter_filter]
    simp only [Bool.and_self]

/-- No charge is refused while commands are carried out one after the other. -/
def calm (host : Host) : List (String × Command) → Session → Bool
  | [], _ => true
  | (name, command) :: rest, s =>
    !refuses host command s && calm host rest (report host name command s).2

theorem chronicle_unbilled (hBlind : host.Blind) (steps : List (String × Command)) :
    ∀ s : Session, calm host steps s = true →
      (chronicle host steps s.unbilled).map (fun p => (p.1.unbilled, p.2)) =
        (chronicle host steps s).map fun p => (p.1.unbilled, p.2.unbilled) := by
  induction steps with
  | nil => exact fun _ _ => rfl
  | cons step rest ih =>
    intro s hCalm
    obtain ⟨name, command⟩ := step
    obtain ⟨hFirst, hRest⟩ := Bool.and_eq_true_iff.mp hCalm
    rw [Bool.not_eq_true'] at hFirst
    obtain ⟨hReport, hAfter⟩ := report_unbilled hBlind hFirst name
    have hOthers := ih _ hRest
    unfold chronicle
    rw [List.map_cons, List.map_cons, hReport, hAfter, hOthers]

end Session

/-! ## Sessions with and without a ledger -/

private theorem callBack_blind : Host.callBack.Blind := by
  refine fun _ _ _ => .evaluate _ _ fun r _ => ?_
  split <;> exact .give _

open Session in
/-- **Counting bytes is not noticed.**  A session with a ledger, whatever its budget, and one
without, given the same commands, report the same after every command and are the same after it but
for the charges, as long as no charge is refused.  The host functions may do anything, provided that
they do not look at the charges. -/
theorem counting_is_not_noticed {host : Host} (hBlind : host.Blind) (ledger : Ledger)
    (steps : List (String × Command)) (hCalm : calm host steps (start (some ledger)) = true) :
    (chronicle host steps (start none)).map (fun p => (p.1.unbilled, p.2)) =
      (chronicle host steps (start (some ledger))).map fun p => (p.1.unbilled, p.2.unbilled) :=
  chronicle_unbilled hBlind steps (start (some ledger)) hCalm

/-- A routine calls a host function that evaluates another one. -/
def callingBack : List (String × Command) :=
  [("a", .create "a" ⟨some [("q.f", .host "f" 1 1)], false, [], true, false⟩),
    ("a", .task "a" (.compile ⟨"7", [], []⟩)),
    ("a", .task "a" (.compile ⟨"q.f(0)", [], []⟩)),
    ("a", .task "a" (.evaluate 1 []))]

open Session in
/-- An evaluation inside another one, whose buffer is charged, within a budget that does not suffice
for another instance. -/
theorem calling_back_is_not_noticed :
    Host.callBack.Blind ∧ calm .callBack callingBack (start (some ⟨some 1200, 0, false⟩)) = true ∧
      calm .callBack (callingBack ++ [("b", .create "b" ⟨none, true, [], true, false⟩)])
        (start (some ⟨some 1200, 0, false⟩)) = false ∧
      (chronicle .callBack callingBack (start none)).map (fun p => (p.1.unbilled, p.2)) =
        (chronicle .callBack callingBack (start (some ⟨some 1200, 0, false⟩))).map
          fun p => (p.1.unbilled, p.2.unbilled) := by
  have hCalm : calm .callBack callingBack (start (some ⟨some 1200, 0, false⟩)) = true := by
    decide +kernel
  exact ⟨callBack_blind, hCalm, by decide +kernel,
    counting_is_not_noticed callBack_blind _ callingBack hCalm⟩

end MolangCompiler
