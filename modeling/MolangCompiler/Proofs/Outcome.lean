import MolangCompiler.Ledger

/-!
# Outcomes of two runs

An operation ends with a result and a state, or with a failure and a state.  `Agree` relates the
outcomes of two runs: either both succeed and their results and states are related, or both fail
with the same failure and their states are related.  Runs are compared operation by operation:
`Agree.bind` is the only rule that looks inside a sequence of two operations.
-/

namespace MolangCompiler

abbrev Outcome (σ α : Type) := EStateM.Result Failure σ α

/-- The state that an operation leaves behind, whether it failed or not. -/
def Outcome.state {σ α : Type} : Outcome σ α → σ
  | .ok _ s => s
  | .error _ s => s

/-- What an operation returned, unless it failed. -/
def Outcome.result? {σ α : Type} : Outcome σ α → Option α
  | .ok a _ => some a
  | .error _ _ => none

/-- Why an operation failed. -/
def Outcome.failure? {σ α : Type} : Outcome σ α → Option Failure
  | .ok _ _ => none
  | .error e _ => some e

theorem Outcome.ok_of_result? {σ α : Type} {x : Outcome σ α} {a : α} (h : x.result? = some a) :
    ∃ s, x = .ok a s := by
  cases x with
  | ok b s => exact ⟨s, congrArg (EStateM.Result.ok · s) (Option.some.inj h)⟩
  | error => cases h

/-- The operation succeeded, and its result and the state behind it pass a test. -/
def Outcome.passes {σ α : Type} (test : α → σ → Bool) : Outcome σ α → Bool
  | .ok a s => test a s
  | .error _ _ => false

theorem Outcome.of_passes {σ α : Type} {x : Outcome σ α} {test : α → σ → Bool}
    (h : x.passes test = true) : ∃ a s, x = .ok a s ∧ test a s = true := by
  cases x with
  | ok a s => exact ⟨a, s, rfl, h⟩
  | error => cases h

variable {e : Failure}

theorem Outcome.error_of_failure? {σ α : Type} {x : Outcome σ α} (h : x.failure? = some e) :
    ∃ s, x = .error e s := by
  cases x with
  | ok => cases h
  | error f s => exact ⟨s, congrArg (EStateM.Result.error · s) (Option.some.inj h)⟩

section

variable {ε σ τ α β γ δ : Type}

/-! ## One run -/

variable {act : EStateM ε σ α} {next : α → EStateM ε σ β} {s s' : σ} {a : α} {part : σ → τ}
  {put : τ → σ → σ}

theorem bind_of_ok (h : act s = .ok a s') : (act >>= next) s = next a s' := by
  show EStateM.bind act next s = next a s'
  simp only [EStateM.bind, h]

theorem bind_of_error {e : ε} (h : act s = .error e s') : (act >>= next) s = .error e s' := by
  show EStateM.bind act next s = .error e s'
  simp only [EStateM.bind, h]

theorem get_bind (f : σ → EStateM ε σ β) (s : σ) : (MonadState.get >>= f) s = f s s := rfl

theorem bind_eq_ok {b : β} :
    (act >>= next) s = .ok b s' ↔ ∃ a t, act s = .ok a t ∧ next a t = .ok b s' := by
  constructor
  · intro h
    cases hAct : act s with
    | ok a t =>
      rw [bind_of_ok hAct] at h
      exact ⟨a, t, rfl, h⟩
    | error e t =>
      rw [bind_of_error hAct] at h
      cases h
  · rintro ⟨a, t, hAct, hNext⟩
    rw [bind_of_ok hAct, hNext]

variable {t : τ} {x : EStateM.Result ε σ α}

theorem onPart_of_ok {act : Act τ α} (h : act (part s) = .ok a t) :
    onPart part put act s = .ok a (put t s) := by
  unfold onPart
  rw [h]

theorem onPart_eq_ok {act : Act τ α} :
    onPart part put act s = .ok a s' ↔ ∃ t, act (part s) = .ok a t ∧ s' = put t s := by
  constructor
  · intro h
    unfold onPart at h
    cases hAct : act (part s) with
    | ok b t =>
      rw [hAct] at h
      cases h
      exact ⟨t, rfl, rfl⟩
    | error e t =>
      rw [hAct] at h
      cases h
  · rintro ⟨t, hAct, rfl⟩
    exact onPart_of_ok hAct

theorem onPart_of_error {act : Act τ α} (h : act (part s) = .error e t) :
    onPart part put act s = .error e (put t s) := by
  unfold onPart
  rw [h]

/-! ## How a run ends -/

/-- A run succeeds with a result and a state as `done` says, or fails in a state as `failed`
says. -/
inductive Ends (done : α → σ → Prop) (failed : σ → Prop) : EStateM.Result ε σ α → Prop where
  | ok {a : α} {s : σ} : done a s → Ends done failed (.ok a s)
  | error {e : ε} {s : σ} : failed s → Ends done failed (.error e s)

namespace Ends

variable {done done' : α → σ → Prop} {failed failed' : σ → Prop}

theorem mono (h : Ends done failed x) (hDone : ∀ a s, done a s → done' a s)
    (hFailed : ∀ s, failed s → failed' s) :
    Ends done' failed' x := by
  cases h with
  | ok h => exact .ok (hDone _ _ h)
  | error h => exact .error (hFailed _ h)

theorem bind {next : β → σ → Prop} {x : EStateM ε σ α} {f : α → EStateM ε σ β}
    (h : Ends done failed (x s)) (hNext : ∀ a s', done a s' → Ends next failed (f a s')) :
    Ends next failed ((x >>= f) s) := by
  generalize hx : x s = out at h
  cases h with
  | ok h =>
    rw [bind_of_ok hx]
    exact hNext _ _ h
  | error h =>
    rw [bind_of_error hx]
    exact .error h

theorem of_ok (h : Ends done failed x) (hx : x = .ok a s) : done a s := by
  subst hx
  cases h with
  | ok h => exact h

theorem of_error {e : ε} (h : Ends done failed x) (hx : x = .error e s) : failed s := by
  subst hx
  cases h with
  | error h => exact h

theorem and (h : Ends done failed x) (h' : Ends done' failed' x) :
    Ends (fun a s => done a s ∧ done' a s) (fun s => failed s ∧ failed' s) x := by
  cases h with
  | ok h => exact .ok ⟨h, h'.of_ok rfl⟩
  | error h =>
    cases h' with
    | error h' => exact .error ⟨h, h'⟩

theorem exists_ok (h : Ends done (fun _ => False) x) : ∃ a s, x = .ok a s ∧ done a s := by
  cases h with
  | ok h => exact ⟨_, _, rfl, h⟩
  | error h => exact h.elim

end Ends

/-- A run succeeds with a result and a state as `done` says, or with a failure and a state as
`failed` says. -/
inductive Concludes (done : α → σ → Prop) (failed : Failure → σ → Prop) : Outcome σ α → Prop where
  | ok {a : α} {s : σ} : done a s → Concludes done failed (.ok a s)
  | error {e : Failure} {s : σ} : failed e s → Concludes done failed (.error e s)

namespace Concludes

variable {done done' : α → σ → Prop} {failed failed' : Failure → σ → Prop}

theorem mono {x : Outcome σ α} (h : Concludes done failed x)
    (hDone : ∀ a s, done a s → done' a s) (hFailed : ∀ e s, failed e s → failed' e s) :
    Concludes done' failed' x := by
  cases h with
  | ok h => exact .ok (hDone _ _ h)
  | error h => exact .error (hFailed _ _ h)

theorem imp {x : Outcome σ α} (h : Concludes done failed x) (hDone : ∀ a s, done a s → done' a s) :
    Concludes done' failed x := h.mono hDone fun _ _ hFailed => hFailed

theorem of_ok {x : Outcome σ α} (h : Concludes done failed x) (hx : x = .ok a s) : done a s := by
  subst hx
  cases h with
  | ok h => exact h

theorem of_error {x : Outcome σ α} (h : Concludes done failed x) (hx : x = .error e s) :
    failed e s := by
  subst hx
  cases h with
  | error h => exact h

theorem ends {x : Outcome σ α} {failed' : σ → Prop} (h : Concludes done failed x)
    (hDone : ∀ a s, done a s → done' a s) (hFailed : ∀ e s, failed e s → failed' s) :
    Ends done' failed' x := by
  cases h with
  | ok h => exact .ok (hDone _ _ h)
  | error h => exact .error (hFailed _ _ h)

theorem bind {next : β → σ → Prop} {x : Act σ α} {f : α → Act σ β} (h : Concludes done failed (x s))
    (hNext : ∀ a s', done a s' → Concludes next failed (f a s')) :
    Concludes next failed ((x >>= f) s) := by
  generalize hx : x s = out at h
  cases h with
  | ok h =>
    rw [bind_of_ok hx]
    exact hNext _ _ h
  | error h =>
    rw [bind_of_error hx]
    exact .error h

end Concludes

/-- A direction in which operations may move a state: `le` says how a state may change, and `ok`
is what holds of every state on the way. -/
structure Course (σ : Type) where
  ok : σ → Prop
  le : σ → σ → Prop
  refl : ∀ s, le s s
  trans : ∀ {s t u}, le s t → le t u → le s u

def Course.any (σ : Type) : Course σ :=
  ⟨fun _ => True, fun _ _ => True, fun _ => trivial, fun _ _ => trivial⟩

def Course.holding (P : σ → Prop) : Course σ := { any σ with ok := P }

/-- Started in a good state, an operation keeps to a course whether it fails or not, and `post`
holds of its result. -/
def Keeps (c : Course σ) (post : α → σ → Prop) (act : EStateM ε σ α) (s : σ) : Prop :=
  c.ok s → Ends (fun a s' => c.ok s' ∧ c.le s s' ∧ post a s') (fun s' => c.ok s' ∧ c.le s s')
    (act s)

/-- The same where nothing is said of the result. -/
abbrev Stays (c : Course σ) : EStateM ε σ α → σ → Prop := Keeps c fun _ _ => True

namespace Keeps

variable {c : Course σ} {p p' : α → σ → Prop}

variable {s : σ} {act : EStateM ε σ α} {next : β → σ → Prop}

theorem pure (h : p a s) : Keeps c p (Pure.pure a : EStateM ε σ α) s :=
  fun hOk => .ok ⟨hOk, c.refl s, h⟩

theorem throw {e : ε} : Keeps c p (MonadExcept.throw e : EStateM ε σ α) s :=
  fun hOk => .error ⟨hOk, c.refl s⟩

theorem mono (h : Keeps c p act s) (hPost : ∀ a s', c.ok s' → c.le s s' → p a s' → p' a s') :
    Keeps c p' act s := by
  intro hOk
  refine .mono (h hOk) ?_ fun _ hEnd => hEnd
  intro a s' hEnd
  exact ⟨hEnd.1, hEnd.2.1, hPost a s' hEnd.1 hEnd.2.1 hEnd.2.2⟩

theorem bind {x : EStateM ε σ α} {f : α → EStateM ε σ β} (h : Keeps c p x s)
    (hNext : ∀ a s', c.ok s' → c.le s s' → p a s' → Keeps c next (f a) s') :
    Keeps c next (x >>= f) s := by
  intro hOk
  refine .bind (h hOk) ?_
  intro a s' hEnd
  refine .mono (hNext a s' hEnd.1 hEnd.2.1 hEnd.2.2 hEnd.1) ?_ ?_
  · intro b s'' hLast
    exact ⟨hLast.1, c.trans hEnd.2.1 hLast.2.1, hLast.2.2⟩
  · intro s'' hLast
    exact ⟨hLast.1, c.trans hEnd.2.1 hLast.2⟩

/-- Whatever the result is. -/
theorem forget (h : Keeps c p act s) : Stays c act s :=
  h.mono fun _ _ _ _ _ => trivial

/-- An operation whose result is only passed on. -/
theorem bind_pure {x : EStateM ε σ α} {f : α → β} (h : Keeps c p x s) :
    Stays c (x >>= fun a => Pure.pure (f a)) s :=
  .bind h fun _ _ _ _ _ => .pure trivial

/-- A course that promises less. -/
theorem weaken {c' : Course σ} (h : Keeps c p act s) (hOk : ∀ s, c.ok s ↔ c'.ok s)
    (hLe : ∀ s s', c.le s s' → c'.le s s') : Keeps c' p act s := by
  intro hStart
  refine .mono (h ((hOk s).mpr hStart)) ?_ ?_
  · exact fun a s' hEnd => ⟨(hOk s').mp hEnd.1, hLe s s' hEnd.2.1, hEnd.2.2⟩
  · exact fun s' hEnd => ⟨(hOk s').mp hEnd.1, hLe s s' hEnd.2⟩

theorem of_ok (h : Keeps c p act s) (hOk : c.ok s) (hAct : act s = .ok a s') :
    c.ok s' ∧ c.le s s' ∧ p a s' := (h hOk).of_ok hAct

/-- An operation that changes nothing when it fails. -/
theorem of_concludes {x : Act σ α} {done : α → σ → Prop} {failed : Failure → σ → Prop}
    (h : Concludes done failed (x s))
    (hDone : c.ok s → ∀ a s', done a s' → c.ok s' ∧ c.le s s' ∧ p a s')
    (hFailed : ∀ e s', failed e s' → s' = s) : Keeps c p x s := by
  intro hOk
  generalize x s = out at h ⊢
  cases h with
  | ok h => exact .ok (hDone hOk _ _ h)
  | error h =>
    rw [hFailed _ _ h]
    exact .error ⟨hOk, c.refl s⟩

theorem ran (h : Keeps c p act s) : Keeps c (fun a s' => act s = .ok a s' ∧ p a s') act s := by
  intro hOk
  have hEnd := h hOk
  generalize act s = out at hEnd ⊢
  cases hEnd with
  | ok hEnd => exact .ok ⟨hEnd.1, hEnd.2.1, rfl, hEnd.2.2⟩
  | error hEnd => exact .error hEnd

/-- Whatever an operation comes to. -/
theorem ran_any : Keeps (.any σ) (fun a s' => act s = .ok a s') act s := by
  intro _
  cases act s with
  | ok a s' => exact .ok ⟨trivial, trivial, rfl⟩
  | error e s' => exact .error ⟨trivial, trivial⟩

theorem get_bind {f : σ → EStateM ε σ β} (h : Keeps c next (f s) s) :
    Keeps c next (MonadState.get >>= f) s := by
  intro hOk
  exact h hOk

theorem modify {f : σ → σ} {p : PUnit → σ → Prop} (hOk : c.ok s → c.ok (f s))
    (hLe : c.ok s → c.le s (f s)) (hPost : c.ok s → p ⟨⟩ (f s)) :
    Keeps c p (MonadState.modifyGet fun s => (⟨⟩, f s) : EStateM ε σ PUnit) s :=
  fun h => .ok ⟨hOk h, hLe h, hPost h⟩

end Keeps

theorem followedBy_ends {done : α → σ → Prop} {failed : σ → Prop} {act : Act σ α} {after : σ → σ}
    (h : Ends (fun a s' => done a (after s')) (fun s' => failed (after s')) (act s)) :
    Ends done failed (followedBy act after s) := by
  unfold followedBy
  generalize act s = out at h ⊢
  cases h with
  | ok h => exact .ok h
  | error h => exact .error h

theorem followedBy_keeps {c : Course σ} {p : α → σ → Prop} {act : Act σ α} {after : σ → σ}
    (h : Keeps c p act s)
    (hAfter : ∀ s', c.ok s' → c.le s s' → c.ok (after s') ∧ c.le s' (after s')) :
    Stays c (followedBy act after) s := by
  refine fun hOk => followedBy_ends (.mono (h hOk) (fun _ s' hEnd => ?_) fun s' hEnd => ?_)
  · obtain ⟨hOk', hLe⟩ := hAfter s' hEnd.1 hEnd.2.1
    exact ⟨hOk', c.trans hEnd.2.1 hLe, trivial⟩
  · obtain ⟨hOk', hLe⟩ := hAfter s' hEnd.1 hEnd.2
    exact ⟨hOk', c.trans hEnd.2 hLe⟩

/-! ## Two runs -/

/-- Two outcomes agree: both are successes, related by `done`, or both are the same failure, in
states related by `failed`. -/
inductive Agree (done : α → σ → β → τ → Prop) (failed : σ → τ → Prop) :
    Outcome σ α → Outcome τ β → Prop where
  | ok {a : α} {s : σ} {b : β} {t : τ} : done a s b t → Agree done failed (.ok a s) (.ok b t)
  | error {e : Failure} {s : σ} {t : τ} : failed s t → Agree done failed (.error e s) (.error e t)

namespace Agree

variable {done done' : α → σ → β → τ → Prop} {failed failed' : σ → τ → Prop}

variable {x : Outcome σ α} {y : Outcome τ β}

theorem mono (h : Agree done failed x y) (hDone : ∀ a s b t, done a s b t → done' a s b t)
    (hFailed : ∀ s t, failed s t → failed' s t) : Agree done' failed' x y := by
  cases h with
  | ok h => exact .ok (hDone _ _ _ _ h)
  | error h => exact .error (hFailed _ _ h)

theorem of_ok_left (h : Agree done failed (.ok a s) y) : ∃ b t, y = .ok b t ∧ done a s b t := by
  cases h with
  | ok h => exact ⟨_, _, rfl, h⟩

theorem of_ok_right {b : β} (h : Agree done failed x (.ok b t)) :
    ∃ a s, x = .ok a s ∧ done a s b t := by
  cases h with
  | ok h => exact ⟨_, _, rfl, h⟩

/-- Two sequences of operations agree if their first operations do, and the second ones do
wherever the first ones may lead. -/
theorem bind {next : γ → σ → δ → τ → Prop} {x : Act σ α} {y : Act τ β} {f : α → Act σ γ}
    {g : β → Act τ δ} (h : Agree done failed (x s) (y t))
    (hNext : ∀ a s' b t', done a s' b t' → Agree next failed (f a s') (g b t')) :
    Agree next failed ((x >>= f) s) ((y >>= g) t) := by
  generalize hx : x s = outX at h
  generalize hy : y t = outY at h
  cases h with
  | ok h =>
    rw [bind_of_ok hx, bind_of_ok hy]
    exact hNext _ _ _ _ h
  | error h =>
    rw [bind_of_error hx, bind_of_error hy]
    exact .error h

theorem and_ends {p : α → σ → Prop} {q : σ → Prop} (h : Agree done failed x y)
    (hEnds : Ends p q x) :
    Agree (fun a s b t => done a s b t ∧ p a s) (fun s t => failed s t ∧ q s) x y := by
  cases h with
  | ok h =>
    cases hEnds with
    | ok hEnd => exact .ok ⟨h, hEnd⟩
  | error h =>
    cases hEnds with
    | error hEnd => exact .error ⟨h, hEnd⟩

theorem and_ends_right {p : β → τ → Prop} {q : τ → Prop} (h : Agree done failed x y)
    (hEnds : Ends p q y) :
    Agree (fun a s b t => done a s b t ∧ p b t) (fun s t => failed s t ∧ q t) x y := by
  cases h with
  | ok h =>
    cases hEnds with
    | ok hEnd => exact .ok ⟨h, hEnd⟩
  | error h =>
    cases hEnds with
    | error hEnd => exact .error ⟨h, hEnd⟩

end Agree

end

end MolangCompiler
