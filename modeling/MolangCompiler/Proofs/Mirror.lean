import MolangCompiler.Proofs.Check
import MolangCompiler.Proofs.Helpers
import MolangCompiler.Routine.Run

/-!
# Two machines in step

A checked routine that runs on two machines goes the same way on both of them if the machines do the
same for it.  `Machine.Mirrors` says what that means, operation by operation: states are related by
`R`, which may depend on which slots of the scratch buffer the routine has written so far.  Copying
between the buffer and the store counts as one operation.  A run that fails fails on both machines,
in states related by `F`.

Apart from the operations, only two things can go wrong in a routine that calls no host functions:
reading a local that is not set, which the check rules out, and a helper that gets the wrong number
of values.  So `F` may be impossible if the check rules out the latter as well.
-/

namespace MolangCompiler

open Code

open Agree

def Limits.Opens (lim : Limits) (j : Nat) : Prop :=
  ∃ slot size, lim.writable slot size ∧ slot.toNat ≤ j ∧ j < slot.toNat + size

/-- The slots that are known to be written, some neighbouring ones among them. -/
def withSlots (slot size : Nat) (W : Nat → Prop) (j : Nat) : Prop :=
  (slot ≤ j ∧ j < slot + size) ∨ W j

section

variable {σ τ : Type}

/-- Two machines that do the same for a checked routine. -/
structure Machine.Mirrors (m : Machine σ) (m' : Machine τ) (lim : Limits)
    (R : (Nat → Prop) → σ → τ → Prop) (F : σ → τ → Prop) : Prop where
  weaken {W W' s t} (hLe : ∀ j, W' j → W j) (h : R W s t) : R W' s t
  readVariable {W s t slot} (hSlot : slot < lim.slots)
    (h : R W s t) :
    Agree (fun x s' y t' => y = x ∧ R W s' t') F (m.readVariable slot s) (m'.readVariable slot t)
  writeVariable {W s t slot} (hSlot : slot < lim.slots) (x : Float)
    (h : R W s t) :
    Agree (fun _ s' _ t' => R W s' t') F (m.writeVariable slot x s) (m'.writeVariable slot x t)
  call {W s t} (hHost : lim.calls.host) (function : String)
    (args : List Float) (h : R W s t) :
    Agree (fun v s' u t' => u = v ∧ R W s' t') F (m.call function args s) (m'.call function args t)
  writeSlot {W s t slot} (hSlot : lim.Opens slot) (x : Float)
    (h : R W s t) :
    Agree (fun _ s' _ t' => R (withSlots slot 1 W) s' t') F
      (m.writeSlot slot x s) (m'.writeSlot slot x t)
  load {W s t slot offset size}
    (hSlot : lim.writable slot size) (hSpan : offset + size ≤ lim.slots) (h : R W s t) :
    Agree (fun _ s' _ t' => R (withSlots slot.toNat size W) s' t') F
      ((m.readVariables offset size >>= m.writeSlots slot.toNat size) s)
      ((m'.readVariables offset size >>= m'.writeSlots slot.toNat size) t)
  store {W s t slot offset size}
    (hSpan : offset + size ≤ lim.slots) (hSlot : lim.Spans slot size)
    (hWritten : ∀ j, slot.toNat ≤ j → j < slot.toNat + size → W j) (h : R W s t) :
    Agree (fun _ s' _ t' => R W s' t') F
      ((m.readSlots slot.toNat size >>= m.writeVariables offset size) s)
      ((m'.readSlots slot.toNat size >>= m'.writeVariables offset size) t)

/-! ## Failures of the routine itself -/

def Facts.Hold (K : Facts) (locals : Nat → Option Float) : Prop :=
  ∀ i, K.locals i → (locals i).isSome

variable {K : Facts} {locals : Nat → Option Float}

theorem Facts.Hold.mono {K' : Facts} (h : K.Hold locals) (hLe : K'.Le K) :
    K'.Hold locals := fun i hi => h i (hLe.locals i hi)

theorem Facts.Hold.setLocal (h : K.Hold locals) (index : Nat) (x : Float) :
    (K.setLocal index).Hold fun i => if i = index then some x else locals i := by
  intro i hi
  dsimp only
  by_cases hSame : i = index
  · rw [if_pos hSame]
    rfl
  · rw [if_neg hSame]
    exact h i (hi.resolve_left hSame)

theorem Limits.not_plain {lim : Limits} (hHost : lim.calls.host) (hPlain : lim.calls = .plain) :
    False := by
  rw [hPlain] at hHost
  exact hHost

/-- A routine may fail by itself, or it cannot: it calls only helpers, with as many values as they
take, and the locals that it reads are set. -/
def Excused (lim : Limits) (R : (Nat → Prop) → σ → τ → Prop) (F : σ → τ → Prop) (K : Facts)
    (locals : Nat → Option Float) : Prop :=
  (∀ {W s t}, R W s t → F s t) ∨ (lim.calls = .plain ∧ K.Hold locals)

variable {m : Machine σ} {m' : Machine τ} {lim : Limits} {R : (Nat → Prop) → σ → τ → Prop}
  {F : σ → τ → Prop}

theorem Excused.imp {K' : Facts} {locals' : Nat → Option Float} (h : Excused lim R F K locals)
    (hHold : K.Hold locals → K'.Hold locals') :
    Excused lim R F K' locals' :=
  Or.imp id (And.imp id hHold) h

/-! ## Activations -/

/-- Activations with the same locals, in related worlds. -/
structure Beside (lim : Limits) (R : (Nat → Prop) → σ → τ → Prop) (F : σ → τ → Prop) (K : Facts)
    (a : Activation σ) (b : Activation τ) : Prop where
  locals : b.locals = a.locals
  excused : Excused lim R F K a.locals
  world : R K.slots a.world b.world

def FailedBeside (F : σ → τ → Prop) (a : Activation σ) (b : Activation τ) : Prop :=
  F a.world b.world

theorem Beside.onWorld {α β : Type} {act : Act σ α} {act' : Act τ β} {L : Facts}
    {done : α → σ → β → τ → Prop} {a : Activation σ} {b : Activation τ} (h : Beside lim R F K a b)
    (hAct : Agree done F (act a.world) (act' b.world)) (hLe : ∀ i, L.locals i → K.locals i)
    (hWorld : ∀ {x s y t}, done x s y t → R L.slots s t) :
    Agree (fun x a' y b' => Beside lim R F L a' b' ∧ done x a'.world y b'.world) (FailedBeside F)
      (MolangCompiler.onWorld act a) (MolangCompiler.onWorld act' b) := by
  unfold MolangCompiler.onWorld onPart
  generalize act a.world = out at hAct ⊢
  generalize act' b.world = out' at hAct ⊢
  cases hAct with
  | ok hDone =>
    exact .ok ⟨⟨h.locals, h.excused.imp fun hHold i hi => hHold i (hLe i hi), hWorld hDone⟩, hDone⟩
  | error hFailed => exact .error hFailed

theorem Beside.fails {α β : Type} {done : α → Activation σ → β → Activation τ → Prop}
    {a : Activation σ} {b : Activation τ} (h : Beside lim R F K a b) (problem : RunProblem)
    (hSure : lim.calls = .plain → K.Hold a.locals → False) :
    Agree done (FailedBeside F) ((runFailure problem : Act (Activation σ) α) a)
      ((runFailure problem : Act (Activation τ) β) b) :=
  .error (h.excused.elim (fun hFailed => hFailed h.world) fun hKnown =>
    (hSure hKnown.1 hKnown.2).elim)

def SameBeside (lim : Limits) (R : (Nat → Prop) → σ → τ → Prop) (F : σ → τ → Prop) (K : Facts)
    {α : Type} (x : α) (a : Activation σ) (y : α) (b : Activation τ) : Prop :=
  y = x ∧ Beside lim R F K a b

mutual

theorem Code.eval_agrees (M : m.Mirrors m' lim R F) {K : Facts} :
    ∀ (c : Code) {a : Activation σ} {b : Activation τ}, c.Checked lim K → Beside lim R F K a b →
      Agree (SameBeside lim R F K) (FailedBeside F) (c.eval m a) (c.eval m' b)
  | .literal _, _, _, _, h => .ok ⟨rfl, h⟩
  | .readLocal index, a, b, hChecked, h => by
    show Agree _ _ (MolangCompiler.readLocal index a) (MolangCompiler.readLocal index b)
    unfold MolangCompiler.readLocal
    rw [get_bind, get_bind, h.locals]
    cases hLocal : a.locals index with
    | some x => exact .ok ⟨rfl, h⟩
    | none =>
      refine h.fails _ fun _ hHold => ?_
      cases hLocal ▸ hHold index hChecked
  | .readVariable slot, a, b, hChecked, h => by
    refine mono (h.onWorld (M.readVariable hChecked h.world) (fun _ hi => hi) (·.2)) ?_
      fun _ _ hF => hF
    exact fun x a' y b' h' => ⟨h'.2.1, h'.1⟩
  | .negate operand, a, b, hChecked, h | .not operand, a, b, hChecked, h => by
    refine bind (eval_agrees M operand hChecked h) ?_
    rintro x a' y b' ⟨rfl, h'⟩
    exact .ok ⟨rfl, h'⟩
  | .binary op left right, a, b, hChecked, h => by
    refine bind (eval_agrees M left hChecked.1 h) ?_
    rintro x a' y b' ⟨rfl, h'⟩
    refine bind (eval_agrees M right hChecked.2 h') ?_
    rintro x' a'' y' b'' ⟨rfl, h''⟩
    exact .ok ⟨rfl, h''⟩
  | .helper f args, a, b, hChecked, h => by
    refine bind (evalAll_agrees M args hChecked.2 h) ?_
    rintro xs a' ys b' ⟨hLength, rfl, h'⟩
    unfold Helper.apply
    cases hResult : f.result? ys with
    | some x => exact .ok ⟨rfl, h'⟩
    | none =>
      refine h'.fails _ fun hPlain _ => ?_
      have hArity := hChecked.1
      rw [hPlain] at hArity
      obtain ⟨x, hx⟩ := f.exists_result (hLength.trans hArity)
      cases hResult.symm.trans hx
  | .call callee args, a, b, hChecked, h => by
    refine bind (evalAll_agrees M args hChecked.2 h) ?_
    rintro xs a' ys b' ⟨-, rfl, h'⟩
    refine bind (h'.onWorld (M.call hChecked.1 callee.function ys h'.world)
      (fun _ hi => hi) (·.2)) ?_
    rintro v a'' u b'' ⟨h'', rfl, -⟩
    cases u with
    | number x => exact .ok ⟨rfl, h''⟩
    | list xs => exact h''.fails _ fun hPlain _ => Limits.not_plain hChecked.1 hPlain

theorem Code.evalAll_agrees (M : m.Mirrors m' lim R F) {K : Facts} :
    ∀ (cs : List Code) {a : Activation σ} {b : Activation τ}, AllChecked lim K cs →
      Beside lim R F K a b →
      Agree (fun xs a' ys b' => ys.length = cs.length ∧ SameBeside lim R F K xs a' ys b')
        (FailedBeside F) (evalAll m cs a) (evalAll m' cs b)
  | [], _, _, _, h => .ok ⟨rfl, rfl, h⟩
  | c :: rest, a, b, hChecked, h => by
    refine bind (eval_agrees M c hChecked.1 h) ?_
    rintro x a' y b' ⟨rfl, h'⟩
    refine bind (evalAll_agrees M rest hChecked.2 h') ?_
    rintro xs a'' ys b'' ⟨hLength, rfl, h''⟩
    exact .ok ⟨congrArg Nat.succ hLength, rfl, h''⟩

end

/-! ## Steps -/

/-- What is known when a flow leaves steps with the given facts behind them. -/
def Flow.facts (lim : Limits) (K : Facts) : Flow → Facts
  | .goOn => K
  | .ended => ⟨fun _ => False, fun j => j < lim.returns⟩

def FlowsBeside (lim : Limits) (R : (Nat → Prop) → σ → τ → Prop) (F : σ → τ → Prop) (K : Facts)
    (f : Flow) (a : Activation σ) (g : Flow) (b : Activation τ) : Prop :=
  g = f ∧ Beside lim R F (f.facts lim K) a b

private theorem setSlots_agrees (M : m.Mirrors m' lim R F) (xs : List Float) :
    ∀ {slot : Nat} {K : Facts} {a : Activation σ} {b : Activation τ},
      (∀ j, slot ≤ j → j < slot + xs.length → lim.Opens j) → Beside lim R F K a b →
      Agree (fun _ a' _ b' => Beside lim R F (K.write slot xs.length) a' b') (FailedBeside F)
        (setSlots m slot xs a) (setSlots m' slot xs b) := by
  induction xs with
  | nil =>
    intro slot K a b _ h
    refine .ok ⟨h.locals, h.excused, M.weaken (fun j hj => ?_) h.world⟩
    exact hj.resolve_left fun hIn => absurd hIn.2 (Nat.not_lt.mpr hIn.1)
  | cons x rest ih =>
    intro slot K a b hOpens h
    have hFirst : lim.Opens slot := hOpens slot (Nat.le_refl _) (by rw [List.length_cons]; omega)
    refine bind (h.onWorld (L := K.write slot 1) (M.writeSlot hFirst x h.world)
      (fun _ hi => hi) id) ?_
    rintro _ a' _ b' ⟨h', -⟩
    refine mono (ih (fun j hLow hHigh => ?_) h') ?_ fun _ _ hF => hF
    · exact hOpens j (by omega) (by rw [List.length_cons]; omega)
    · intro _ a'' _ b'' h''
      refine ⟨h''.locals, h''.excused, M.weaken (fun j hj => ?_) h''.world⟩
      rw [List.length_cons] at hj
      by_cases hIn : slot + 1 ≤ j ∧ j < slot + 1 + rest.length
      · exact .inl hIn
      · refine .inr (hj.imp (fun hj => ?_) id)
        omega

private theorem onWorld_bind {α β : Type} (act : Act σ α) (next : α → Act σ β) :
    (onWorld act >>= fun x => onWorld (next x)) = onWorld (act >>= next) := by
  funext a
  cases hAct : act a.world with
  | ok x s =>
    have hFirst : onWorld act a = .ok x { a with world := s } := onPart_of_ok hAct
    refine (bind_of_ok hFirst).trans ?_
    cases hNext : next x s with
    | ok y s' =>
      have hBoth : onWorld (act >>= next) a = .ok y { a with world := s' } :=
        onPart_of_ok ((bind_of_ok hAct).trans hNext)
      exact Eq.trans (onPart_of_ok hNext) hBoth.symm
    | error e s' =>
      have hBoth : onWorld (act >>= next) a = .error e { a with world := s' } :=
        onPart_of_error ((bind_of_ok hAct).trans hNext)
      exact Eq.trans (onPart_of_error hNext) hBoth.symm
  | error e s =>
    have hFirst : onWorld act a = .error e { a with world := s } := onPart_of_error hAct
    have hBoth : onWorld (act >>= next) a = .error e { a with world := s } :=
      onPart_of_error (bind_of_error hAct)
    exact (bind_of_error hFirst).trans hBoth.symm

theorem Action.run_load (m : Machine σ) (slot : Int) (offset size : Nat) :
    (load slot offset size).run m =
      onWorld (m.readVariables offset size >>= m.writeSlots slot.toNat size) >>=
        fun _ => pure .goOn := by
  rw [← onWorld_bind, bind_assoc]
  rfl

theorem Action.run_store (m : Machine σ) (offset size : Nat) (slot : Int) :
    (store offset size slot).run m =
      onWorld (m.readSlots slot.toNat size >>= m.writeVariables offset size) >>=
        fun _ => pure .goOn := by
  rw [← onWorld_bind, bind_assoc]
  rfl

variable {K : Facts} {a : Activation σ} {b : Activation τ}

theorem HostValue.values_agrees (hHost : lim.calls.host) (v : HostValue) (expected : Nat)
    (h : Beside lim R F K a b) :
    Agree (fun xs a' ys b' => xs.length = expected ∧ SameBeside lim R F K xs a' ys b')
      (FailedBeside F) (v.values expected a) (v.values expected b) := by
  have hSure (hPlain : lim.calls = .plain) (_ : K.Hold a.locals) : False :=
    Limits.not_plain hHost hPlain
  cases v with
  | number x => exact h.fails _ hSure
  | list xs =>
    simp only [values]
    by_cases hFew : xs.length < expected
    · rw [if_pos hFew, if_pos hFew]
      exact h.fails _ hSure
    · rw [if_neg hFew, if_neg hFew]
      by_cases hMany : expected < xs.length
      · rw [if_pos hMany, if_pos hMany]
        exact h.fails _ hSure
      · rw [if_neg hMany, if_neg hMany]
        exact .ok ⟨by omega, rfl, h⟩

theorem Beside.setLocal (h : Beside lim R F K a b) (index : Nat) (x : Float) :
    Beside lim R F (K.setLocal index)
      { a with locals := fun i => if i = index then some x else a.locals i }
      { b with locals := fun i => if i = index then some x else b.locals i } := by
  refine ⟨?_, h.excused.imp fun hHold => hHold.setLocal index x, h.world⟩
  rw [h.locals]

theorem Action.run_agrees (M : m.Mirrors m' lim R F) {action : Action}
    (hChecked : action.Checked lim K) (h : Beside lim R F K a b) :
    Agree (FlowsBeside lim R F (action.after K)) (FailedBeside F) (action.run m a)
      (action.run m' b) := by
  have hOnWorld {act : Act σ Unit} {act' : Act τ Unit} {K' : Facts} {a' : Activation σ}
      {b' : Activation τ} (h' : Beside lim R F K a' b') (hLe : ∀ i, K'.locals i → K.locals i)
      (hAct : Agree (fun _ s _ t => R K'.slots s t) F (act a'.world) (act' b'.world)) :
      Agree (FlowsBeside lim R F K') (FailedBeside F) ((onWorld act >>= fun _ => pure .goOn) a')
        ((onWorld act' >>= fun _ => pure .goOn) b') := by
    refine bind (h'.onWorld (L := K') hAct hLe id) ?_
    rintro _ a'' _ b'' ⟨h'', -⟩
    exact .ok ⟨rfl, h''⟩
  cases action with
  | acquire slots => exact absurd hChecked id
  | setLocal index value =>
    refine bind (eval_agrees M value hChecked h) ?_
    rintro x a' y b' ⟨rfl, h'⟩
    exact .ok ⟨rfl, h'.setLocal index y⟩
  | setTruth index value =>
    refine bind (eval_agrees M value hChecked h) ?_
    rintro x a' y b' ⟨rfl, h'⟩
    exact .ok ⟨rfl, h'.setLocal index _⟩
  | setSlot slot value =>
    refine bind (eval_agrees M value hChecked.2 h) ?_
    rintro x a' y b' ⟨rfl, h'⟩
    have hOpens : lim.Opens slot.toNat := ⟨slot, 1, hChecked.1, Nat.le_refl _, Nat.lt_succ_self _⟩
    exact hOnWorld h' (fun _ hi => hi) (M.writeSlot hOpens y h'.world)
  | setSlots slot width callee args =>
    obtain ⟨hHost, hWritable, hArgs⟩ := hChecked
    refine bind (evalAll_agrees M args hArgs h) ?_
    rintro xs a' ys b' ⟨-, rfl, h'⟩
    refine bind (h'.onWorld (M.call hHost callee.function ys h'.world) (fun _ hi => hi) (·.2)) ?_
    rintro v a₁ u b₁ ⟨h₁, rfl, -⟩
    refine bind (HostValue.values_agrees hHost u width h₁) ?_
    rintro zs a₂ zs' b₂ ⟨hLength, rfl, h₂⟩
    refine bind (setSlots_agrees M zs' (fun j hLow hHigh => ?_) h₂) ?_
    · exact ⟨slot, width, hWritable, hLow, by omega⟩
    · intro _ a₃ _ b₃ h₃
      rw [hLength] at h₃
      exact .ok ⟨rfl, h₃⟩
  | setVariable slot value =>
    refine bind (eval_agrees M value hChecked.2 h) ?_
    rintro x a' y b' ⟨rfl, h'⟩
    exact hOnWorld h' (fun _ hi => hi) (M.writeVariable hChecked.1 y h'.world)
  | load slot offset size =>
    rw [run_load, run_load]
    exact hOnWorld h (fun _ hi => hi) (M.load hChecked.1 hChecked.2 h.world)
  | store offset size slot =>
    obtain ⟨hSpan, hSlot, hWritten⟩ := hChecked
    rw [run_store, run_store]
    exact hOnWorld h (fun _ hi => hi) (M.store hSpan hSlot hWritten h.world)
  | finish =>
    refine .ok ⟨rfl, h.locals, h.excused.imp fun _ _ hNone => hNone.elim, ?_⟩
    exact M.weaken hChecked h.world

theorem Test.eval_agrees (M : m.Mirrors m' lim R F) {test : Test} (hChecked : test.Checked lim K)
    (h : Beside lim R F K a b) :
    Agree (SameBeside lim R F K) (FailedBeside F) (test.eval m a) (test.eval m' b) := by
  cases test with
  | holds value | fails value =>
    refine bind (Code.eval_agrees M value hChecked h) ?_
    rintro x a' y b' ⟨rfl, h'⟩
    exact .ok ⟨rfl, h'⟩

/-- Behind a choice only what both branches established is kept. -/
theorem FlowsBeside.mono (M : m.Mirrors m' lim R F) {K' : Facts} (hLe : K'.Le K) {f g : Flow}
    (h : FlowsBeside lim R F K f a g b) :
    FlowsBeside lim R F K' f a g b := by
  obtain ⟨hSame, hLocals, hExcused, hWorld⟩ := h
  cases f with
  | goOn => exact ⟨hSame, hLocals, hExcused.imp (·.mono hLe), M.weaken hLe.slots hWorld⟩
  | ended => exact ⟨hSame, hLocals, hExcused, hWorld⟩

namespace Step

mutual

theorem run_agrees (M : m.Mirrors m' lim R F) {K : Facts} :
    ∀ (s : Step) {a : Activation σ} {b : Activation τ}, s.Checked lim K → Beside lim R F K a b →
      Agree (FlowsBeside lim R F (s.after K)) (FailedBeside F) (s.run m a) (s.run m' b)
  | .act action, _, _, hChecked, h => Action.run_agrees M hChecked h
  | .choose test yes no, a, b, hChecked, h => by
    refine bind (Test.eval_agrees M hChecked.1 h) ?_
    rintro chosen a' chosen' b' ⟨rfl, h'⟩
    cases chosen' with
    | true =>
      refine mono (runAll_agrees M yes hChecked.2.1 h') ?_ fun _ _ hF => hF
      exact fun _ _ _ _ hDone => hDone.mono M (Facts.meet_le_left _ _)
    | false =>
      refine mono (runAll_agrees M no hChecked.2.2 h') ?_ fun _ _ hF => hF
      exact fun _ _ _ _ hDone => hDone.mono M (Facts.meet_le_right _ _)

/-- **Steps lead to the same on both machines.** -/
theorem runAll_agrees (M : m.Mirrors m' lim R F) {K : Facts} :
    ∀ (steps : List Step) {a : Activation σ} {b : Activation τ}, AllChecked lim K steps →
      Beside lim R F K a b →
      Agree (FlowsBeside lim R F (afterAll K steps)) (FailedBeside F) (runAll m steps a)
        (runAll m' steps b)
  | [], _, _, _, h => .ok ⟨rfl, h⟩
  | s :: rest, a, b, hChecked, h => by
    refine bind (run_agrees M s hChecked.1 h) ?_
    rintro f a' g b' ⟨rfl, h'⟩
    cases g with
    | goOn => exact runAll_agrees M rest hChecked.2 h'
    | ended => exact .ok ⟨rfl, h'⟩

end

end Step

/-- **A checked routine leads to the same on both machines** if it gets its buffer on both. -/
theorem Routine.run_agrees (M : m.Mirrors m' lim R F) {K : Facts} {r : Routine}
    (hChecked : r.Checked lim K) {s : σ} {t : τ}
    (hAcquire : Agree (fun _ s' _ t' => R K.slots s' t') F (m.acquire lim.room s)
      (m'.acquire lim.room t)) (args : List Float)
    (hExcused : Excused lim R F K fun i => args[i]?) :
    Agree (fun _ s' _ t' => R (fun j => j < lim.returns) s' t') F (r.run m args s)
      (r.run m' args t) := by
  obtain ⟨rest, hBody, hRest, hEnds⟩ := hChecked.body
  have hRun : Agree (fun _ a _ b => R (fun j => j < lim.returns) a.world b.world) (FailedBeside F)
      (Step.runAll m r.body ⟨fun i => args[i]?, s⟩)
      (Step.runAll m' r.body ⟨fun i => args[i]?, t⟩) := by
    rw [hBody]
    have hBuffer : Agree (fun _ a _ b => Beside lim R F K a b) (FailedBeside F)
        (onWorld (m.acquire lim.room) ⟨fun i => args[i]?, s⟩)
        (onWorld (m'.acquire lim.room) ⟨fun i => args[i]?, t⟩) := by
      unfold onWorld onPart
      generalize m.acquire lim.room s = out at hAcquire ⊢
      generalize m'.acquire lim.room t = out' at hAcquire ⊢
      cases hAcquire with
      | ok h => exact .ok ⟨rfl, hExcused, h⟩
      | error h => exact .error h
    have hGiven : Agree (FlowsBeside lim R F K) (FailedBeside F)
        ((Action.acquire lim.room).run m ⟨fun i => args[i]?, s⟩)
        ((Action.acquire lim.room).run m' ⟨fun i => args[i]?, t⟩) :=
      bind hBuffer fun _ _ _ _ h => .ok ⟨rfl, h⟩
    refine bind hGiven ?_
    rintro f a g b ⟨rfl, h⟩
    cases g with
    | goOn =>
      refine mono (Step.runAll_agrees M rest hRest h) ?_ fun _ _ hF => hF
      rintro f' a' g' b' ⟨rfl, h'⟩
      cases g' with
      | goOn => exact M.weaken hEnds h'.world
      | ended => exact h'.world
    | ended => exact .ok h.world
  unfold run
  generalize Step.runAll m r.body ⟨fun i => args[i]?, s⟩ = out at hRun ⊢
  generalize Step.runAll m' r.body ⟨fun i => args[i]?, t⟩ = out' at hRun ⊢
  cases hRun with
  | ok h => exact .ok h
  | error h => exact .error h

end

/-! ## One machine -/

section

variable {σ : Type} {Q F : σ → Prop}

/-- A machine whose operations keep an invariant, as far as a checked routine uses them, or fail in
a state as `F` says. -/
structure Machine.Maintains (m : Machine σ) (lim : Limits) (Q F : σ → Prop) : Prop where
  readVariable {slot : Nat} (hSlot : slot < lim.slots) {s : σ} (h : Q s) :
    Ends (fun _ => Q) F (m.readVariable slot s)
  writeVariable {slot : Nat} (hSlot : slot < lim.slots) (x : Float) {s : σ} (h : Q s) :
    Ends (fun _ => Q) F (m.writeVariable slot x s)
  call (hHost : lim.calls.host) (function : String) (args : List Float) {s : σ} (h : Q s) :
    Ends (fun _ => Q) F (m.call function args s)
  writeSlot {slot : Nat} (hSlot : lim.Opens slot) (x : Float) {s : σ} (h : Q s) :
    Ends (fun _ => Q) F (m.writeSlot slot x s)
  load {slot : Int} {offset size : Nat} (hSlot : lim.writable slot size)
    (hSpan : offset + size ≤ lim.slots) {s : σ} (h : Q s) :
    Ends (fun _ => Q) F ((m.readVariables offset size >>= m.writeSlots slot.toNat size) s)
  store {slot : Int} {offset size : Nat} (hSpan : offset + size ≤ lim.slots)
    (hSlot : lim.Spans slot size) {s : σ} (h : Q s) :
    Ends (fun _ => Q) F ((m.readSlots slot.toNat size >>= m.writeVariables offset size) s)

theorem Ends.agrees {α : Type} {p : α → σ → Prop} {q : σ → Prop} {x : Outcome σ α}
    (h : Ends p q x) :
    Agree (fun a s b t => b = a ∧ t = s ∧ p a s) (fun s t => t = s ∧ q s) x x := by
  cases h with
  | ok h => exact .ok ⟨rfl, rfl, h⟩
  | error h => exact .error ⟨rfl, h⟩

/-- **A checked routine keeps an invariant** that the operations of its machine keep. -/
theorem Routine.run_maintains {m : Machine σ} {lim : Limits} (M : m.Maintains lim Q F) {K : Facts}
    {r : Routine} (hChecked : r.Checked lim K) {s : σ}
    (hAcquire : Ends (fun _ => Q) F (m.acquire lim.room s)) (args : List Float)
    (hExcused : (∀ {s}, Q s → F s) ∨ (lim.calls = .plain ∧ K.Hold fun i => args[i]?)) :
    Ends (fun _ => Q) F (r.run m args s) := by
  -- the machine mirrors itself, in states that are equal
  let R (_ : Nat → Prop) (s t : σ) : Prop := t = s ∧ Q s
  have hStates {α : Type} {x : Outcome σ α} (h : Ends (fun _ => Q) F x) :
      Agree (fun _ s _ t => t = s ∧ Q s) (fun s t => t = s ∧ F s) x x :=
    mono h.agrees (fun _ _ _ _ hDone => hDone.2) fun _ _ hF => hF
  have hMirror : m.Mirrors m lim R fun s t => t = s ∧ F s := {
    weaken := fun _ h => h
    readVariable := by
      rintro W s t slot hSlot ⟨rfl, h⟩
      exact (M.readVariable hSlot h).agrees
    writeVariable := by
      rintro W s t slot hSlot x ⟨rfl, h⟩
      exact hStates (M.writeVariable hSlot x h)
    call := by
      rintro W s t hHost function args ⟨rfl, h⟩
      exact (M.call hHost function args h).agrees
    writeSlot := by
      rintro W s t slot hSlot x ⟨rfl, h⟩
      exact hStates (M.writeSlot hSlot x h)
    load := by
      rintro W s t slot offset size hSlot hSpan ⟨rfl, h⟩
      exact hStates (M.load hSlot hSpan h)
    store := by
      rintro W s t slot offset size hSpan hSlot - ⟨rfl, h⟩
      exact hStates (M.store hSpan hSlot h) }
  have hRun := run_agrees hMirror hChecked (t := s) (hStates hAcquire) args
    (Or.imp (fun hFine {_ _ _} h => ⟨h.1, hFine h.2⟩) id hExcused)
  generalize r.run m args s = out at hRun ⊢
  cases hRun with
  | ok hDone => exact .ok hDone.2
  | error hFailed => exact .error hFailed.2

end

end MolangCompiler
