import MolangCompiler.Proofs.Images
import MolangCompiler.Proofs.SinglePrecision

/-!
# Numbers inside a run

What a routine computes on its way is not kept anywhere.  To speak of it, routines are run once more
with a notebook: the value of every expression is noted as soon as it is computed, and all locals
are noted at the beginning and after every action.

A run with a notebook does what the plain run does (`Noting`), and every number in the notebook is
of single precision, also if the run fails.
-/

namespace MolangCompiler

open Activation

/-! ## Notebooks -/

/-- What is noted of a run. -/
inductive Glimpse where
  /-- An expression has a value. -/
  | value (code : Code) (x : Float)
  /-- The locals of a routine. -/
  | locals (locals : Nat → Option Float)

/-- The numbers that are noted. -/
def Glimpse.Shows : Glimpse → Float → Prop
  | .value _ x, y => y = x
  | .locals values, y => ∃ index, values index = some y

def Glimpse.Rounded (g : Glimpse) : Prop := ∀ x, g.Shows x → IsSingle x

/-- A state with a notebook. -/
structure Noted (σ : Type) where
  state : σ
  /-- The latest note comes first. -/
  seen : List Glimpse

/-- The state is good, and only numbers of single precision were noted. -/
structure Noted.Good {σ : Type} (Q : σ → Prop) (n : Noted σ) : Prop where
  state : Q n.state
  seen : ∀ g ∈ n.seen, g.Rounded

section

variable {σ α β : Type}

namespace Noted

def lift (act : Act σ α) : Act (Noted σ) α :=
  onPart state (fun s n => { n with state := s }) act

def see (g : Glimpse) : Act (Noted σ) Unit := modify fun n => { n with seen := g :: n.seen }

def seeValue (code : Code) (act : Act (Noted σ) Float) : Act (Noted σ) Float := do
  let x ← act
  see (.value code x)
  return x

def seeLocals : Act (Noted (Activation σ)) Unit := do see (.locals (← get).state.locals)

/-- Does something with the world around a routine and the notebook. -/
def onWorld (act : Act (Noted σ) α) : Act (Noted (Activation σ)) α :=
  onPart (fun n => ⟨n.state.world, n.seen⟩)
    (fun n' n => ⟨{ n.state with world := n'.state }, n'.seen⟩) act

end Noted

/-! ## Routines with a notebook -/

open Noted

mutual

def Code.evalSeen (m : Machine (Noted σ)) : Code → Act (Noted (Activation σ)) Float
  | .literal value => seeValue (.literal value) (return single value)
  | .readLocal index => seeValue (.readLocal index) (lift (MolangCompiler.readLocal index))
  | .readVariable slot => seeValue (.readVariable slot) (Noted.onWorld (m.readVariable slot))
  | .negate operand => seeValue (.negate operand) do return -(← operand.evalSeen m)
  | .not operand => seeValue (.not operand) do
    return BinaryOp.ofBool (!isTrue (← operand.evalSeen m))
  | .binary op left right => seeValue (.binary op left right) do
    let l ← left.evalSeen m
    let r ← right.evalSeen m
    return op.apply l r
  | .helper h args => seeValue (.helper h args) do
    let values ← evalAllSeen m args
    h.apply values
  | .call callee args => seeValue (.call callee args) do
    let values ← evalAllSeen m args
    (← Noted.onWorld (m.call callee.function values)).single

/-- The values of a list of expressions, from left to right. -/
def Code.evalAllSeen (m : Machine (Noted σ)) : List Code → Act (Noted (Activation σ)) (List Float)
  | [] => return []
  | c :: rest => do
    let x ← c.evalSeen m
    let xs ← evalAllSeen m rest
    return x :: xs

end

/-- Sets slots of the scratch buffer one after the other. -/
def setSlotsSeen (m : Machine (Noted σ)) :
    (slot : Nat) → List Float → Act (Noted (Activation σ)) Unit
  | _, [] => return ()
  | slot, x :: xs => do
    Noted.onWorld (m.writeSlot slot x)
    setSlotsSeen m (slot + 1) xs

def Action.runSeen (m : Machine (Noted σ)) : Action → Act (Noted (Activation σ)) Flow
  | .acquire slots => do
    Noted.onWorld (m.acquire slots.toNat)
    return .goOn
  | .setLocal index value => do
    let x ← value.evalSeen m
    lift (MolangCompiler.setLocal index x)
    return .goOn
  | .setTruth index value => do
    let x ← value.evalSeen m
    lift (MolangCompiler.setLocal index (BinaryOp.ofBool (isTrue x)))
    return .goOn
  | .setSlot slot value => do
    let x ← value.evalSeen m
    Noted.onWorld (m.writeSlot slot.toNat x)
    return .goOn
  | .setSlots slot width callee args => do
    let values ← Code.evalAllSeen m args
    let result ← Noted.onWorld (m.call callee.function values)
    setSlotsSeen m slot.toNat (← result.values width)
    return .goOn
  | .setVariable slot value => do
    let x ← value.evalSeen m
    Noted.onWorld (m.writeVariable slot x)
    return .goOn
  | .load slot offset size => do
    let values ← Noted.onWorld (m.readVariables offset size)
    Noted.onWorld (m.writeSlots slot.toNat size values)
    return .goOn
  | .store offset size slot => do
    let values ← Noted.onWorld (m.readSlots slot.toNat size)
    Noted.onWorld (m.writeVariables offset size values)
    return .goOn
  | .finish => return .ended

def Test.evalSeen (m : Machine (Noted σ)) : Test → Act (Noted (Activation σ)) Bool
  | .holds value => return isTrue (← value.evalSeen m)
  | .fails value => return !isTrue (← value.evalSeen m)

mutual

/-- Runs a step; behind an action the locals are noted. -/
def Step.runSeen (m : Machine (Noted σ)) : Step → Act (Noted (Activation σ)) Flow
  | .act action => do
    let flow ← action.runSeen m
    seeLocals
    return flow
  | .choose test yes no => do
    if ← test.evalSeen m then runAllSeen m yes else runAllSeen m no

/-- Runs steps one after the other until one of them ends the routine. -/
def Step.runAllSeen (m : Machine (Noted σ)) : List Step → Act (Noted (Activation σ)) Flow
  | [] => return .goOn
  | s :: rest => do
    match ← s.runSeen m with
    | .goOn => runAllSeen m rest
    | .ended => return .ended

end

def Routine.runSeen (m : Machine (Noted σ)) (routine : Routine) (args : List Float) :
    Act (Noted σ) Unit := fun n =>
  match (do seeLocals; Step.runAllSeen m routine.body) ⟨⟨fun i => args[i]?, n.state⟩, n.seen⟩ with
  | .ok _ n' => .ok () ⟨n'.state.world, n'.seen⟩
  | .error e n' => .error e ⟨n'.state.world, n'.seen⟩

/-- The same machine with other host functions, which may make notes. -/
def Machine.noted (m : Machine σ) (call : String → List Float → Act (Noted σ) HostValue) :
    Machine (Noted σ) where
  readVariable slot := lift (m.readVariable slot)
  writeVariable slot x := lift (m.writeVariable slot x)
  readVariables offset size := lift (m.readVariables offset size)
  writeVariables offset size xs := lift (m.writeVariables offset size xs)
  call := call
  acquire slots := lift (m.acquire slots)
  writeSlot slot x := lift (m.writeSlot slot x)
  readSlots slot size := lift (m.readSlots slot size)
  writeSlots slot size xs := lift (m.writeSlots slot size xs)

/-! ## What a notebook changes -/

/-- With a notebook an operation does what it does without, its result is as `V` says, and only
numbers of single precision are noted. -/
def Noting (Q : σ → Prop) (V : α → Prop) (x : Act σ α) (y : Act (Noted σ) α) : Prop :=
  (Comparison.through Noted.state (.holding (Good Q))).rel V y x

namespace Noting

open Comparison

variable {Q : σ → Prop} {V : α → Prop} {U : β → Prop}

theorem pure {a : α} (h : V a) : Noting Q V (Pure.pure a) (Pure.pure a) := (through _ _).pure h

theorem throw (e : Failure) : Noting Q V (MonadExcept.throw e) (MonadExcept.throw e) :=
  (through _ _).throw e

variable {x : Act σ α} {y : Act (Noted σ) α}

theorem bind {f : α → Act σ β} {g : α → Act (Noted σ) β} (h : Noting Q V x y)
    (hNext : ∀ a, V a → Noting Q U (f a) (g a)) :
    Noting Q U (x >>= f) (y >>= g) :=
  (through _ _).bind h hNext

theorem lift (h : ∀ s, Q s → Ends (fun a s' => V a ∧ Q s') Q (x s)) :
    Noting Q V x (Noted.lift x) := by
  refine shadowing_lift (fun _ _ => rfl) fun n hn => Ends.mono (h n.state hn.state) ?_ ?_
  · exact fun _ _ hDone => ⟨⟨hDone.2, hn.seen⟩, trivial, hDone.1⟩
  · exact fun _ hFailed => ⟨⟨hFailed, hn.seen⟩, trivial⟩

theorem of_preserves (h : Preserves Q x) : Noting Q (fun _ => True) x (Noted.lift x) :=
  .lift fun s hs => .mono (h s hs) (fun _ _ hDone => ⟨trivial, hDone⟩) fun _ hFailed => hFailed

theorem seeValue (code : Code) {x : Act σ Float} {y : Act (Noted σ) Float}
    (h : Noting Q IsSingle x y) : Noting Q IsSingle x (Noted.seeValue code y) := by
  intro n hn
  have hShadows := h n hn
  unfold Noted.seeValue
  generalize hy : y n = out at hShadows
  generalize x n.state = out' at hShadows ⊢
  cases hShadows with
  | ok hDone =>
    rw [bind_of_ok hy]
    refine .ok ⟨⟨hDone.1.state, List.forall_mem_cons.mpr ⟨fun z hz => ?_, hDone.1.seen⟩⟩, trivial,
      hDone.2.2⟩
    rw [hz]
    exact hDone.2.2
  | error hFailed =>
    rw [bind_of_error hy]
    exact .error hFailed
  | excused h => exact h.elim

theorem followedBy (h : Noting Q V x y) {after : σ → σ} (hAfter : ∀ s, Q s → Q (after s)) :
    Noting Q V (MolangCompiler.followedBy x after)
      (MolangCompiler.followedBy y fun n => { n with state := after n.state }) :=
  shadowing_followedBy h fun n hn => ⟨rfl, ⟨hAfter n.state hn.state, hn.seen⟩, trivial⟩

end Noting

/-! ## Machines with a notebook -/

/-- A machine with a notebook does what the plain machine does; variables and slots hold numbers of
single precision, which is kept if only such numbers are put there as a whole. -/
structure Machine.Notes (m : Machine σ) (m' : Machine (Noted σ)) (Q : σ → Prop) : Prop where
  readVariable (slot : Nat) : Noting Q IsSingle (m.readVariable slot) (m'.readVariable slot)
  writeVariable (slot : Nat) (x : Float) :
    Noting Q (fun _ => True) (m.writeVariable slot x) (m'.writeVariable slot x)
  readVariables (offset size : Nat) :
    Noting Q AllSingle (m.readVariables offset size) (m'.readVariables offset size)
  writeVariables (offset size : Nat) {xs : Array Float} (h : AllSingle xs) :
    Noting Q (fun _ => True) (m.writeVariables offset size xs) (m'.writeVariables offset size xs)
  call (function : String) (args : List Float) :
    Noting Q (fun _ => True) (m.call function args) (m'.call function args)
  acquire (slots : Nat) : Noting Q (fun _ => True) (m.acquire slots) (m'.acquire slots)
  writeSlot (slot : Nat) (x : Float) :
    Noting Q (fun _ => True) (m.writeSlot slot x) (m'.writeSlot slot x)
  readSlots (slot size : Nat) : Noting Q AllSingle (m.readSlots slot size) (m'.readSlots slot size)
  writeSlots (slot size : Nat) {xs : Array Float} (h : AllSingle xs) :
    Noting Q (fun _ => True) (m.writeSlots slot size xs) (m'.writeSlots slot size xs)

/-- All locals are of single precision, and the world is good. -/
structure Activation.Rounded (Q : σ → Prop) (a : Activation σ) : Prop where
  locals : ∀ {index x}, a.locals index = some x → IsSingle x
  world : Q a.world

section

variable {Q : σ → Prop} {m : Machine σ} {m' : Machine (Noted σ)}

theorem Noting.onWorld {V : α → Prop} {x : Act σ α} {y : Act (Noted σ) α} (h : Noting Q V x y) :
    Noting (Rounded Q) V (MolangCompiler.onWorld x) (Noted.onWorld y) := by
  refine Comparison.shadowing_onPart (fun n hn => ?_) (fun n' n hn hn' _ => ?_) h
  · exact ⟨rfl, hn.state.world, hn.seen⟩
  · exact ⟨rfl, ⟨⟨hn.state.locals, hn'.state⟩, hn'.seen⟩, trivial⟩

private theorem readLocal_noting (index : Nat) :
    Noting (Rounded Q) IsSingle (readLocal index) (lift (readLocal index)) := by
  refine .lift fun a ha => ?_
  unfold readLocal
  rw [get_bind]
  cases hLocal : a.locals index with
  | none => exact .error ha
  | some x => exact .ok ⟨ha.locals hLocal, ha⟩

private theorem setLocal_noting (index : Nat) {x : Float} (h : IsSingle x) :
    Noting (Rounded Q) (fun _ => True) (setLocal index x) (lift (setLocal index x)) := by
  refine .of_preserves (.modify fun a ha => ⟨fun {i y} hy => ?_, ha.world⟩)
  dsimp only at hy
  split at hy
  · cases hy
    exact h
  · exact ha.locals hy

private theorem seeLocals_bind_noting {V : α → Prop} {x : Act (Activation σ) α}
    {y : Act (Noted (Activation σ)) α} (h : Noting (Rounded Q) V x y) :
    Noting (Rounded Q) V x (seeLocals >>= fun _ => y) := by
  intro n hn
  exact h ⟨n.state, .locals n.state.locals :: n.seen⟩ ⟨hn.state, List.forall_mem_cons.mpr
    ⟨fun x ⟨index, hx⟩ => hn.state.locals hx, hn.seen⟩⟩

theorem HostValue.single_noting (v : HostValue) : Noting Q IsSingle v.single v.single := by
  cases v with
  | number x => exact .pure (isSingle_single x)
  | list xs => exact .throw _

theorem HostValue.values_noting (v : HostValue) (expected : Nat) :
    Noting Q (fun _ => True) (v.values expected) (v.values expected) := by
  cases v with
  | number x => exact .throw _
  | list xs =>
    simp only [values]
    split
    · exact .throw _
    · split
      · exact .throw _
      · exact .pure trivial

theorem Helper.apply_noting (h : Helper) (vs : List Float) :
    Noting Q IsSingle (h.apply vs) (h.apply vs) := by
  unfold apply
  cases h.result? vs with
  | none => exact .throw _
  | some x => exact .pure (isSingle_single x)

/-! ## Routines -/

mutual

/-- **Every value of an expression** is of single precision. -/
theorem Code.evalSeen_noting (M : m.Notes m' Q) :
    ∀ c : Code, Noting (Rounded Q) IsSingle (c.eval m) (c.evalSeen m')
  | .literal value => .seeValue _ (.pure (isSingle_single value))
  | .readLocal index => .seeValue _ (readLocal_noting index)
  | .readVariable slot => .seeValue _ (.onWorld (M.readVariable slot))
  | .negate operand =>
    .seeValue _ (.bind (evalSeen_noting M operand) fun _ hx => .pure hx.neg)
  | .not operand =>
    .seeValue _ (.bind (evalSeen_noting M operand) fun _ _ =>
      .pure (BinaryOp.isSingle_ofBool _))
  | .binary op left right =>
    .seeValue _ (.bind (evalSeen_noting M left) fun l _ =>
      .bind (evalSeen_noting M right) fun r _ => .pure (op.isSingle_apply l r))
  | .helper h args =>
    .seeValue _ (.bind (evalAllSeen_noting M args) fun vs _ => h.apply_noting vs)
  | .call callee args =>
    .seeValue _ (.bind (evalAllSeen_noting M args) fun vs _ =>
      .bind (.onWorld (M.call callee.function vs)) fun v _ => v.single_noting)

theorem Code.evalAllSeen_noting (M : m.Notes m' Q) :
    ∀ cs : List Code, Noting (Rounded Q) (fun _ => True) (evalAll m cs) (evalAllSeen m' cs)
  | [] => .pure trivial
  | c :: rest =>
    .bind (evalSeen_noting M c) fun _ _ =>
      .bind (evalAllSeen_noting M rest) fun _ _ => .pure trivial

end

private theorem setSlotsSeen_noting (M : m.Notes m' Q) (xs : List Float) :
    ∀ slot, Noting (Rounded Q) (fun _ => True) (setSlots m slot xs) (setSlotsSeen m' slot xs) := by
  induction xs with
  | nil => exact fun _ => .pure trivial
  | cons x rest ih =>
    exact fun slot => .bind (.onWorld (M.writeSlot slot x)) fun _ _ => ih (slot + 1)

/-- **Every local that an action sets** is of single precision. -/
theorem Action.runSeen_noting (M : m.Notes m' Q) (action : Action) :
    Noting (Rounded Q) (fun _ => True) (action.run m) (action.runSeen m') := by
  cases action with
  | acquire slots => exact .bind (.onWorld (M.acquire _)) fun _ _ => .pure trivial
  | setLocal index value =>
    refine .bind (value.evalSeen_noting M) fun x hx => ?_
    exact .bind (setLocal_noting index hx) fun _ _ => .pure trivial
  | setTruth index value =>
    refine .bind (value.evalSeen_noting M) fun x _ => ?_
    exact .bind (setLocal_noting index (BinaryOp.isSingle_ofBool _)) fun _ _ => .pure trivial
  | setSlot slot value =>
    refine .bind (value.evalSeen_noting M) fun x _ => ?_
    exact .bind (.onWorld (M.writeSlot _ x)) fun _ _ => .pure trivial
  | setSlots slot width callee args =>
    refine .bind (Code.evalAllSeen_noting M args) fun vs _ => ?_
    refine .bind (.onWorld (M.call callee.function vs)) fun v _ => ?_
    refine .bind (v.values_noting width) fun xs _ => ?_
    exact .bind (setSlotsSeen_noting M xs _) fun _ _ => .pure trivial
  | setVariable slot value =>
    refine .bind (value.evalSeen_noting M) fun x _ => ?_
    exact .bind (.onWorld (M.writeVariable slot x)) fun _ _ => .pure trivial
  | load slot offset size =>
    refine .bind (.onWorld (M.readVariables offset size)) fun xs hxs => ?_
    exact .bind (.onWorld (M.writeSlots _ size hxs)) fun _ _ => .pure trivial
  | store offset size slot =>
    refine .bind (.onWorld (M.readSlots _ size)) fun xs hxs => ?_
    exact .bind (.onWorld (M.writeVariables offset size hxs)) fun _ _ => .pure trivial
  | finish => exact .pure trivial

theorem Test.evalSeen_noting (M : m.Notes m' Q) (test : Test) :
    Noting (Rounded Q) (fun _ => True) (test.eval m) (test.evalSeen m') := by
  cases test with
  | holds value | fails value => exact .bind (value.evalSeen_noting M) fun _ _ => .pure trivial

mutual

theorem Step.runSeen_noting (M : m.Notes m' Q) :
    ∀ s : Step, Noting (Rounded Q) (fun _ => True) (s.run m) (s.runSeen m')
  | .act action => by
    have hRun := Noting.bind (action.runSeen_noting M) fun flow _ =>
      seeLocals_bind_noting (Noting.pure (V := fun _ => True) (a := flow) trivial)
    rw [bind_pure] at hRun
    exact hRun
  | .choose test yes no => by
    refine .bind (test.evalSeen_noting M) fun chosen _ => ?_
    cases chosen with
    | true => exact runAllSeen_noting M yes
    | false => exact runAllSeen_noting M no

/-- **Steps with a notebook** do what they do without, and note nothing but numbers of single
precision. -/
theorem Step.runAllSeen_noting (M : m.Notes m' Q) :
    ∀ steps : List Step, Noting (Rounded Q) (fun _ => True) (runAll m steps) (runAllSeen m' steps)
  | [] => .pure trivial
  | s :: rest => by
    refine .bind (runSeen_noting M s) fun flow _ => ?_
    cases flow with
    | goOn => exact runAllSeen_noting M rest
    | ended => exact .pure trivial

end

/-- **A routine** whose arguments are of single precision computes nothing else. -/
theorem Routine.runSeen_noting (M : m.Notes m' Q) (r : Routine) {args : List Float}
    (hArgs : ∀ x ∈ args, IsSingle x) :
    Noting Q (fun _ => True) (r.run m args) (r.runSeen m' args) := by
  intro n hn
  have hLocals {index : Nat} {x : Float} (hx : args[index]? = some x) : IsSingle x :=
    hArgs x (List.mem_of_getElem? hx)
  have hShadows := seeLocals_bind_noting (Step.runAllSeen_noting M r.body)
    ⟨⟨fun i => args[i]?, n.state⟩, n.seen⟩ ⟨⟨hLocals, hn.state⟩, hn.seen⟩
  unfold run runSeen
  dsimp only at hShadows ⊢
  generalize Step.runAll m r.body ⟨fun i => args[i]?, n.state⟩ = out at hShadows ⊢
  generalize (seeLocals >>= fun _ => Step.runAllSeen m' r.body)
    ⟨⟨fun i => args[i]?, n.state⟩, n.seen⟩ = out' at hShadows ⊢
  cases hShadows with
  | ok hDone => exact .ok ⟨⟨hDone.1.state.world, hDone.1.seen⟩, trivial, trivial⟩
  | error hFailed => exact .error ⟨⟨hFailed.1.state.world, hFailed.1.seen⟩, trivial⟩
  | excused h => exact h.elim

end

end

end MolangCompiler
