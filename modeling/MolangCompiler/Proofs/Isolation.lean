import MolangCompiler.Proofs.Reached

/-!
# Every evaluation returns what it computed itself

Host functions may evaluate artifacts of the same instance, compile sources and set variables, in
any order and to any depth.  In every session that commands lead to, a watched evaluation does what
the plain one does, and at every moment the buffers of all running evaluations hold what their own
routines have written last.
-/

namespace MolangCompiler

private theorem followedBy_eq_ok {σ α : Type} {act : Act σ α} {after : σ → σ} {s s' : σ} {a : α} :
    followedBy act after s = .ok a s' ↔ ∃ t, act s = .ok a t ∧ s' = after t := by
  unfold followedBy
  cases act s with
  | ok b t =>
    constructor
    · rintro ⟨⟩
      exact ⟨t, rfl, rfl⟩
    · rintro ⟨_, ⟨⟩, rfl⟩
      rfl
  | error e t =>
    constructor
    · exact fun h => nomatch h
    · rintro ⟨_, h, _⟩
      cases h

namespace Watch

theorem runRoutine_ended {a : Artifact} {depth : Nat}
    {call : String → List Float → Act Watch HostValue} {args xs : List Float} {w w' : Watch}
    (h : runRoutine a depth call args w = .ok xs w') :
    ∃ f, Sight.ended a w.session f xs ∈ w'.seen := by
  unfold runRoutine at h
  dsimp only at h
  split at h
  · cases h
    exact ⟨_, List.mem_cons_self⟩
  · cases h

/-- **The end of an evaluation is seen**, with the values that it returns. -/
theorem hosted_ended {host : Host} {limit : Nat} {a : Artifact} {args xs : List Float}
    {w w' : Watch} (h : hosted host limit a args w = .ok xs w') :
    ∃ s f, Sight.ended a s f xs ∈ w'.seen := by
  cases limit with
  | zero => cases h
  | succ limit =>
    unfold hosted Manner.hosted Manner.evaluateWith at h
    by_cases hArgs : args.length ≠ a.args
    · rw [if_pos hArgs] at h
      cases h
    · rw [if_neg hArgs] at h
      obtain ⟨t, hRun, rfl⟩ := followedBy_eq_ok.mp h
      obtain ⟨f, hEnded⟩ := runRoutine_ended hRun
      exact ⟨_, f, hEnded⟩

end Watch

/-- **Nested evaluations never disturb the ones around them.**  An artifact of any session that
commands lead to is evaluated with host functions that do whatever they like.  If this is watched,
the result and the session are the same, and everything that was seen on the way is good; in
particular an evaluation that succeeds was seen to end with its values. -/
theorem nested_evaluations_are_isolated {s : Session} (hReached : s.Reached) {a : Artifact}
    (hKept : some a ∈ s.artifacts) (host : Host) (limit : Nat) (args : List Float) :
    Agree
      (fun xs s' ys w => ys = xs ∧ w.session = s' ∧ w.active = [] ∧ (∀ x ∈ w.seen, x.Good) ∧
        ∃ t f, Sight.ended a t f xs ∈ w.seen)
      (fun s' w => w.session = s' ∧ w.active = [] ∧ ∀ x ∈ w.seen, x.Good)
      (Session.hosted host limit a args s) (Watch.hosted host limit a args ⟨s, [], []⟩) := by
  have hSound := hReached.atRest.sound
  have hBoth := Watch.manner_reflects.hosted host limit a args (s := ⟨s, [], []⟩)
    (hSound.artifacts hKept) (.start hSound)
  have hEnded {xs : List Float} {w : Watch} :
      Watch.hosted host limit a args ⟨s, [], []⟩ = .ok xs w →
        ∃ t f, Sight.ended a t f xs ∈ w.seen :=
    Watch.hosted_ended
  change Shadows _ _ _ _ (Watch.hosted host limit a args ⟨s, [], []⟩)
    (Session.hosted host limit a args s) at hBoth
  generalize Session.hosted host limit a args s = out at hBoth ⊢
  generalize Watch.hosted host limit a args ⟨s, [], []⟩ = out' at hBoth hEnded ⊢
  cases hBoth with
  | ok hDone =>
    obtain ⟨hAttends, hLe, -⟩ := hDone
    exact .ok ⟨rfl, rfl, hLe.2, hAttends.seen, hEnded rfl⟩
  | error hFailed => exact .error ⟨rfl, hFailed.2.2, hFailed.1.seen⟩
  | excused h => exact h.elim

/-- An artifact that calls a host function twice and puts the values side by side. -/
def callingTwice : Session :=
  (Session.start none).obeyAll .mute "a"
    [.create "a" ⟨some [("q.f", .host "f" 0 1)], false, [], false, false⟩,
      .task "a" (.compile ⟨"[q.f(), q.f()]", [], []⟩)]

/-- A host function that evaluates the artifact that called it, deals with the failure of the
innermost evaluation, and compiles a source that needs a longer buffer. -/
def rerunning : Host := fun _ _ _ =>
  .evaluate .running [] fun _ =>
    .work (.compile ⟨"[q.f(), q.f(), q.f()]", [], []⟩) fun _ => .give (.number 0)

/-- Evaluations inside each other on one instance, which lengthen the shared buffer meanwhile. -/
theorem rerunning_is_isolated :
    callingTwice.Reached ∧ ∃ a, some a ∈ callingTwice.artifacts ∧
      ((Session.outcome (Session.hosted rerunning 2 a []) callingTwice).1.toOption.map (·.length)) =
        some 2 ∧
      Agree
        (fun xs s' ys w => ys = xs ∧ w.session = s' ∧ w.active = [] ∧ (∀ x ∈ w.seen, x.Good) ∧
          ∃ t f, Sight.ended a t f xs ∈ w.seen)
        (fun s' w => w.session = s' ∧ w.active = [] ∧ ∀ x ∈ w.seen, x.Good)
        (Session.hosted rerunning 2 a [] callingTwice)
        (Watch.hosted rerunning 2 a [] ⟨callingTwice, [], []⟩) := by
  have hReached : callingTwice.Reached := Session.reached_obeyAll "a" _ _
  have hLength : (callingTwice.artifacts.head?.join.map fun a => (Session.outcome
      (Session.hosted rerunning 2 a []) callingTwice).1.toOption.map (·.length)) =
      some (some 2) := by
    decide +kernel
  obtain ⟨a, ha, hTwo⟩ := Option.map_eq_some_iff.mp hLength
  have hMem : some a ∈ callingTwice.artifacts :=
    List.mem_of_mem_head? (Option.join_eq_some_iff.mp ha)
  exact ⟨hReached, a, hMem, hTwo, nested_evaluations_are_isolated hReached hMem rerunning 2 []⟩

end MolangCompiler
