import Mathlib.Order.Interval.Finset.Nat
import Mathlib.Order.Interval.Multiset
import MolangCompiler.Proofs.Outcome
import MolangCompiler.Proofs.Outline
import MolangCompiler.Routine.Run

/-!
# What steps leave alone

The steps of an expression never end the routine, and they assign only locals that were handed out
while the expression was written, or that the tree names (`Step.AllWithin`).  So steps can be run
one list after the other, and a value that was set aside at or above the bound is still there when
they are through.
-/

namespace MolangCompiler

open MolangCompiler.Expr Step

def Flow.andThen {σ : Type} (flow : Flow) (next : Act (Activation σ) Flow) :
    Act (Activation σ) Flow :=
  match flow with
  | .goOn => next
  | .ended => return .ended

/-! ## Steps within a bound -/

/-- An action does not end the routine, and assigns only locals below a bound. -/
def Action.Within (bound : Nat) : Action → Prop
  | .setLocal index _ | .setTruth index _ => index < bound
  | .finish => False
  | _ => True

mutual

/-- A step does not end the routine, and assigns only locals below a bound. -/
def Step.Within (bound : Nat) : Step → Prop
  | .act action => action.Within bound
  | .choose _ yes no => AllWithin bound yes ∧ AllWithin bound no

/-- No step ends the routine or assigns a local at or above a bound. -/
def Step.AllWithin (bound : Nat) : List Step → Prop
  | [] => True
  | s :: rest => s.Within bound ∧ AllWithin bound rest

end

variable {action : Action} {α : Type} {index : Nat}

theorem Action.Within.mono {bound bound' : Nat} (hLe : bound ≤ bound') (h : action.Within bound) :
    action.Within bound' := by
  cases action with
  | setLocal | setTruth => exact Nat.lt_of_lt_of_le h hLe
  | finish => exact h
  | _ => trivial

namespace Step

mutual

theorem Within.mono {bound bound' : Nat} (hLe : bound ≤ bound') :
    ∀ s : Step, s.Within bound → s.Within bound'
  | .act _, h => Action.Within.mono hLe h
  | .choose _ yes no, h => ⟨AllWithin.mono hLe yes h.1, AllWithin.mono hLe no h.2⟩

theorem AllWithin.mono {bound bound' : Nat} (hLe : bound ≤ bound') :
    ∀ steps : List Step, AllWithin bound steps → AllWithin bound' steps
  | [], _ => trivial
  | s :: rest, h => ⟨Within.mono hLe s h.1, AllWithin.mono hLe rest h.2⟩

end

variable {bound : Nat}

theorem allWithin_append {xs ys : List Step} :
    AllWithin bound (xs ++ ys) ↔ AllWithin bound xs ∧ AllWithin bound ys := by
  induction xs with
  | nil => simp [AllWithin]
  | cons s rest ih => simp [AllWithin, ih, and_assoc]

theorem allWithin_act (h : action.Within bound) : AllWithin bound [.act action] := ⟨h, trivial⟩

theorem allWithin_map {f : α → Action} {xs : List α} (h : ∀ x, (f x).Within bound) :
    AllWithin bound (xs.map fun x => .act (f x)) := by
  induction xs with
  | nil => trivial
  | cons x rest ih => exact ⟨h x, ih⟩

end Step

/-! ## Running steps within a bound -/

section

variable {σ : Type}

theorem readLocal_of_some {a : Activation σ} {x : Float} (h : a.locals index = some x) :
    readLocal index a = .ok x a := by
  have hGet : (get : Act (Activation σ) _) a = .ok a a := rfl
  rw [readLocal, bind_of_ok hGet, h]
  rfl

theorem readLocal_of_none {a : Activation σ} (h : a.locals index = none) :
    readLocal index a = .error (.run (.unsetLocal index)) a := by
  have hGet : (get : Act (Activation σ) _) a = .ok a a := rfl
  rw [readLocal, bind_of_ok hGet, h]
  rfl

/-- An operation that changes no local at or above a bound. -/
def KeepsLocals {α : Type} (bound : Nat) (act : Act (Activation σ) α) : Prop :=
  ∀ a x a', act a = .ok x a' → ∀ i, bound ≤ i → a'.locals i = a.locals i

namespace KeepsLocals

variable {α β : Type} {bound : Nat}

theorem pure (x : α) : KeepsLocals (σ := σ) bound (Pure.pure x) := by
  intro a y a' h i _
  cases h
  rfl

theorem bind {x : Act (Activation σ) α} {f : α → Act (Activation σ) β}
    (hx : KeepsLocals bound x) (hf : ∀ y, KeepsLocals bound (f y)) :
    KeepsLocals bound (x >>= f) := by
  intro a y a' h i hi
  obtain ⟨z, b, hFirst, hNext⟩ := bind_eq_ok.mp h
  rw [hf z b y a' hNext i hi, hx a z b hFirst i hi]

theorem onWorld (act : Act σ α) : KeepsLocals bound (MolangCompiler.onWorld act) := by
  intro a x a' h i _
  simp only [MolangCompiler.onWorld, onPart] at h
  split at h
  · cases h
    rfl
  · cases h

theorem failure (problem : RunProblem) : KeepsLocals (σ := σ) bound (α := α)
    (runFailure problem) := by
  intro a x a' h
  cases h

theorem readLocal (index : Nat) : KeepsLocals (σ := σ) bound (MolangCompiler.readLocal index) := by
  intro a x a' h i _
  cases hLocal : a.locals index with
  | none =>
    rw [readLocal_of_none hLocal] at h
    cases h
  | some y =>
    rw [readLocal_of_some hLocal] at h
    cases h
    rfl

theorem setLocal (hIndex : index < bound) (x : Float) :
    KeepsLocals (σ := σ) bound (MolangCompiler.setLocal index x) := by
  intro a y a' h i hi
  cases h
  show (if i = index then some x else a.locals i) = a.locals i
  rw [if_neg (by omega)]

theorem ite {c : Prop} [Decidable c] {x y : Act (Activation σ) α} (hx : KeepsLocals bound x)
    (hy : KeepsLocals bound y) : KeepsLocals bound (if c then x else y) := by
  split
  · exact hx
  · exact hy

end KeepsLocals

variable {m : Machine σ} {bound : Nat}

theorem Helper.keepsLocals_apply (helper : Helper) (xs : List Float) :
    KeepsLocals (σ := σ) bound (helper.apply xs) := by
  simp only [apply]
  split
  · exact .pure _
  · exact .failure _

theorem HostValue.keepsLocals_single (v : HostValue) : KeepsLocals (σ := σ) bound v.single := by
  cases v with
  | number x => exact .pure _
  | list xs => exact .failure _

theorem HostValue.keepsLocals_values (expected : Nat) (v : HostValue) :
    KeepsLocals (σ := σ) bound (v.values expected) := by
  cases v with
  | number x => exact .failure _
  | list xs => exact .ite (.failure _) (.ite (.failure _) (.pure _))

mutual

theorem Code.keepsLocals_eval : ∀ c : Code, KeepsLocals bound (c.eval m)
  | .literal _ => .pure _
  | .readLocal index => .readLocal index
  | .readVariable _ => .onWorld _
  | .negate operand | .not operand => .bind (keepsLocals_eval operand) fun _ => .pure _
  | .binary _ left right =>
    .bind (keepsLocals_eval left) fun _ =>
      .bind (keepsLocals_eval right) fun _ => .pure _
  | .helper h args => .bind (keepsLocals_evalAll args) fun _ => h.keepsLocals_apply _
  | .call _ args =>
    .bind (keepsLocals_evalAll args) fun _ => .bind (.onWorld _) fun v =>
      v.keepsLocals_single

theorem Code.keepsLocals_evalAll : ∀ cs : List Code, KeepsLocals bound (evalAll m cs)
  | [] => .pure _
  | c :: rest =>
    .bind (keepsLocals_eval c) fun _ =>
      .bind (keepsLocals_evalAll rest) fun _ => .pure _

end

private theorem keepsLocals_setSlots (xs : List Float) :
    ∀ slot : Nat, KeepsLocals bound (setSlots m slot xs) := by
  induction xs with
  | nil => exact fun _ => .pure _
  | cons x rest ih => exact fun slot => .bind (.onWorld _) fun _ => ih (slot + 1)

/-- An operation that goes on, and changes no local at or above a bound. -/
structure GoesOn (bound : Nat) (act : Act (Activation σ) Flow) : Prop where
  keeps : KeepsLocals bound act
  flow : ∀ a flow a', act a = .ok flow a' → flow = .goOn

namespace GoesOn

theorem done : GoesOn (σ := σ) bound (pure .goOn) where
  keeps := .pure _
  flow a flow a' h := by
    cases h
    rfl

theorem bind {x : Act (Activation σ) α} {f : α → Act (Activation σ) Flow} (hx : KeepsLocals bound x)
    (hf : ∀ y, GoesOn bound (f y)) : GoesOn bound (x >>= f) where
  keeps := hx.bind fun y => (hf y).keeps
  flow a flow a' h := by
    obtain ⟨y, b, _, hNext⟩ := bind_eq_ok.mp h
    exact (hf y).flow b flow a' hNext

theorem andThen {x y : Act (Activation σ) Flow} (hx : GoesOn bound x) (hy : GoesOn bound y) :
    GoesOn bound (do (← x).andThen y) where
  keeps := hx.keeps.bind fun flow => by
    cases flow with
    | goOn => exact hy.keeps
    | ended => exact .pure _
  flow a flow a' h := by
    obtain ⟨first, b, hFirst, hNext⟩ := bind_eq_ok.mp h
    cases hx.flow a first b hFirst
    exact hy.flow b flow a' hNext

theorem andThen_eq {x : Act (Activation σ) Flow} (hx : GoesOn bound x)
    (y : Act (Activation σ) Flow) : (do (← x).andThen y) = (do let _ ← x; y) := by
  funext a
  cases hRun : x a with
  | ok flow a' =>
    cases hx.flow a flow a' hRun
    rw [bind_of_ok hRun, bind_of_ok hRun]
    rfl
  | error e a' => rw [bind_of_error hRun, bind_of_error hRun]

end GoesOn

theorem Action.goesOn_run (h : action.Within bound) : GoesOn bound (action.run m) := by
  cases action with
  | acquire slots => exact .bind (.onWorld _) fun _ => .done
  | setLocal index value | setTruth index value =>
    exact .bind (Code.keepsLocals_eval value) fun _ => .bind (.setLocal h _) fun _ => .done
  | setSlot slot value | setVariable slot value =>
    exact .bind (Code.keepsLocals_eval value) fun _ => .bind (.onWorld _) fun _ => .done
  | setSlots slot width callee args =>
    exact .bind (Code.keepsLocals_evalAll args) fun _ => .bind (.onWorld _) fun v =>
      .bind (v.keepsLocals_values width) fun _ => .bind (keepsLocals_setSlots _ _) fun _ => .done
  | load | store =>
    exact .bind (.onWorld _) fun _ => .bind (.onWorld _) fun _ => .done
  | finish => exact absurd h id

theorem Test.keepsLocals_eval (test : Test) : KeepsLocals bound (test.eval m) := by
  cases test with
  | holds value | fails value => exact .bind (Code.keepsLocals_eval value) fun _ => .pure _

namespace Step

mutual

theorem goesOn_run : ∀ s : Step, s.Within bound → GoesOn bound (s.run m)
  | .act _, h => Action.goesOn_run h
  | .choose test yes no, h =>
    .bind (test.keepsLocals_eval) fun b => by
      cases b with
      | true => exact goesOn_runAll yes h.1
      | false => exact goesOn_runAll no h.2

/-- **Steps within a bound** never end the routine, and what was set aside is still there. -/
theorem goesOn_runAll : ∀ steps : List Step, AllWithin bound steps → GoesOn bound (runAll m steps)
  | [], _ => .done
  | s :: rest, h => (goesOn_run s h.1).andThen (goesOn_runAll rest h.2)

end

/-! ## Going on -/

theorem runAll_cons (s : Step) (rest : List Step) :
    runAll m (s :: rest) = (do (← s.run m).andThen (runAll m rest)) := rfl

theorem runAll_append (xs ys : List Step) :
    runAll m (xs ++ ys) = (do (← runAll m xs).andThen (runAll m ys)) := by
  induction xs with
  | nil => rfl
  | cons s rest ih =>
    rw [List.cons_append, runAll_cons, runAll_cons, bind_assoc]
    refine congrArg (s.run m >>= ·) (funext fun flow => ?_)
    cases flow with
    | goOn => exact ih
    | ended => rfl

theorem runAll_append_within {xs : List Step} (h : AllWithin bound xs) (ys : List Step) :
    runAll m (xs ++ ys) = (do
      let _ ← runAll m xs
      runAll m ys) := by
  rw [runAll_append, (goesOn_runAll xs h).andThen_eq]

theorem runAll_cons_within {s : Step} (h : s.Within bound) (rest : List Step) :
    runAll m (s :: rest) = (do
      let _ ← s.run m
      runAll m rest) := by
  rw [runAll_cons, (goesOn_run s h).andThen_eq]

theorem runAll_single (s : Step) : runAll m [s] = s.run m := by
  have hId : (fun flow : Flow => flow.andThen (runAll m [])) = pure := by
    funext flow
    cases flow <;> rfl
  rw [runAll_cons, hId, bind_pure]

end Step

end

/-! ## Places that set locals -/

/-- The locals that an action sets, in a routine that keeps its scratch buffer in local `scratch`.
-/
def Action.sets (scratch : Nat) : Action → Multiset Nat
  | .acquire _ => {scratch}
  | .setLocal index _ | .setTruth index _ => {index}
  | _ => 0

/-- The locals that the last of some steps sets. -/
def Step.lastSets (scratch : Nat) (steps : List Step) : Multiset Nat :=
  match steps.getLast? with
  | some (.act action) => action.sets scratch
  | _ => 0

mutual

/-- The locals that a step sets, once for each place that sets them.  A choice whose blocks end by
setting one local is one place. -/
def Step.homes (scratch : Nat) : Step → Multiset Nat
  | .act action => action.sets scratch
  | .choose _ yes no => homesOf scratch yes +
      (homesOf scratch no - lastSets scratch yes ∩ lastSets scratch no)

def Step.homesOf (scratch : Nat) : List Step → Multiset Nat
  | [] => 0
  | s :: rest => s.homes scratch + homesOf scratch rest

end

namespace Step

variable {n : Nat} {xs ys : List Step}

theorem homesOf_append : homesOf n (xs ++ ys) = homesOf n xs + homesOf n ys := by
  induction xs with
  | nil => exact (zero_add _).symm
  | cons s rest ih => rw [List.cons_append, homesOf, homesOf, ih, add_assoc]

theorem homesOf_act (action : Action) : homesOf n [.act action] = action.sets n := add_zero _

theorem lastSets_le (steps : List Step) : lastSets n steps ≤ homesOf n steps := by
  unfold lastSets
  split
  · rename_i action hLast
    obtain ⟨init, rfl⟩ := List.getLast?_eq_some_iff.mp hLast
    rw [homesOf_append, homesOf_act]
    exact Multiset.le_add_left _ _
  · exact Multiset.zero_le _

theorem mem_homes_choose {test : Test} {i : Nat} :
    i ∈ (choose test xs ys).homes n ↔ i ∈ homesOf n xs ∨ i ∈ homesOf n ys := by
  refine Multiset.mem_add.trans (or_congr_right' fun hOther => ?_)
  have hNone : (lastSets n xs ∩ lastSets n ys).count i = 0 := by
    refine Multiset.count_eq_zero_of_notMem fun hi => hOther ?_
    exact Multiset.mem_of_le (lastSets_le xs) (Multiset.mem_inter.mp hi).1
  rw [← Multiset.count_pos, Multiset.count_sub, hNone, Nat.sub_zero, Multiset.count_pos]

theorem allWithin_of_sets {i bound : Nat} (h : action.sets n = {i}) (hi : i < bound) :
    AllWithin bound [.act action] := by
  refine allWithin_act ?_
  cases action with
  | setLocal index _ | setTruth index _ => exact Multiset.singleton_inj.mp h ▸ hi
  | finish => exact absurd h.symm (Multiset.singleton_ne_zero i)
  | _ => trivial

theorem Ico_succ_self (i : Nat) : Multiset.Ico i (i + 1) = {i} :=
  congrArg Finset.val (Nat.Ico_succ_singleton i)

theorem Ico_succ {i j : Nat} (h : i ≤ j) : Multiset.Ico i (j + 1) = Multiset.Ico i j + {j} := by
  rw [← Ico_succ_self j, Multiset.Ico_add_Ico_eq_Ico h (Nat.le_succ j)]

/-- Steps set locals in `T`, and all locals from `first` up to `next`, each at one place only.  If
`on`, then they do not end the routine. -/
structure Owns (n : Nat) (on : Prop) (T : Multiset Nat) (first next : Nat) (steps : List Step) :
    Prop where
  le : first ≤ next
  fresh : ∀ i ∈ Multiset.Ico first next, i ∈ homesOf n steps
  once : homesOf n steps ≤ T + Multiset.Ico first next
  within : on → ∀ bound, next ≤ bound → (∀ i ∈ T, i < bound) → AllWithin bound steps

namespace Owns

variable {on : Prop} {T U V : Multiset Nat} {a b c : Nat}

theorem nil : Owns n on 0 a a [] :=
  ⟨Nat.le_refl a, fun _ hi => absurd hi (by simp), Multiset.zero_le _, fun _ _ _ _ => trivial⟩

theorem mono (h : Owns n on T a b xs) (hLe : T ≤ U) : Owns n on U a b xs where
  le := h.le
  fresh := h.fresh
  once := h.once.trans (Multiset.add_le_add_right hLe)
  within hOn bound hNext hU := h.within hOn bound hNext fun i hi => hU i (Multiset.mem_of_le hLe hi)

theorem act (action : Action) (h : on → action ≠ .finish) :
    Owns n on (action.sets n) a a [.act action] where
  le := Nat.le_refl a
  fresh _ hi := absurd hi (by simp)
  once := by rw [homesOf_act, Multiset.Ico_self, add_zero]
  within hOn bound _ hT := by
    refine allWithin_act ?_
    cases action with
    | setLocal index _ | setTruth index _ => exact hT index (Multiset.mem_singleton_self index)
    | finish => exact absurd rfl (h hOn)
    | _ => trivial

theorem append (h : Owns n on T a b xs) (h' : Owns n on U b c ys) :
    Owns n on (T + U) a c (xs ++ ys) where
  le := Nat.le_trans h.le h'.le
  fresh i hi := by
    rw [← Multiset.Ico_add_Ico_eq_Ico h.le h'.le] at hi
    rw [homesOf_append]
    exact Multiset.mem_add.mpr ((Multiset.mem_add.mp hi).imp (h.fresh i) (h'.fresh i))
  once := by
    rw [homesOf_append, ← Multiset.Ico_add_Ico_eq_Ico h.le h'.le, add_add_add_comm]
    exact add_le_add h.once h'.once
  within hOn bound hNext hBoth := by
    simp only [Multiset.mem_add, or_imp, forall_and] at hBoth
    exact allWithin_append.mpr ⟨h.within hOn bound (Nat.le_trans h'.le hNext) hBoth.1,
      h'.within hOn bound hNext hBoth.2⟩

theorem choose (test : Test) (h : Owns n on T a b xs) (h' : Owns n on U b c ys) :
    Owns n on (T + U) a c [.choose test xs ys] where
  le := Nat.le_trans h.le h'.le
  fresh i hi := by
    have hBoth := (h.append h').fresh i hi
    rw [homesOf_append, Multiset.mem_add] at hBoth
    exact Multiset.mem_add.mpr (.inl (mem_homes_choose.mpr hBoth))
  once := by
    refine le_trans ?_ (h.append h').once
    rw [homesOf_append, homesOf, homesOf, add_zero]
    exact add_le_add_right (Multiset.sub_le_self _ _) _
  within hOn bound hNext hBoth :=
    ⟨allWithin_append.mp ((h.append h').within hOn bound hNext hBoth), trivial⟩

/-- A choice whose blocks end by setting a local that was handed out before them. -/
theorem result (test : Test) {steps : List Step} {yes no : Action} (hYes : yes.sets n = {a})
    (hNo : no.sets n = {a}) (h : Owns n on T (a + 1) b steps) (hXs : Owns n on U b c xs) {d : Nat}
    (hYs : Owns n on V c d ys) : Owns n on (T + (U + V)) a d
      (steps ++ [.choose test (xs ++ [.act yes]) (ys ++ [.act no])]) := by
  have hAll := h.append (hXs.append hYs)
  have hLast {zs : List Step} {action : Action} (hSets : action.sets n = {a}) :
      lastSets n (zs ++ [.act action]) = {a} := by
    rw [lastSets, List.getLast?_concat]
    exact hSets
  have hHomes : homesOf n (steps ++ [.choose test (xs ++ [.act yes]) (ys ++ [.act no])]) =
      homesOf n (steps ++ (xs ++ ys)) + {a} := by
    have hSame : {a} ∩ {a} = {a} := inf_idem ({a} : Multiset Nat)
    simp only [homesOf_append, homesOf, homes, hLast hYes, hLast hNo, hYes, hNo, add_zero, hSame]
    rw [add_tsub_cancel_right, add_right_comm, ← add_assoc]
  have hIco : Multiset.Ico a d = Multiset.Ico (a + 1) d + {a} := by
    rw [← Multiset.Ico_add_Ico_eq_Ico (Nat.le_succ a) hAll.le, Ico_succ_self, add_comm]
  refine ⟨Nat.le_of_succ_le hAll.le, fun i hi => ?_, ?_, fun hOn bound hNext hT => ?_⟩
  · rw [hIco] at hi
    rw [hHomes]
    exact Multiset.mem_add.mpr ((Multiset.mem_add.mp hi).imp_left (hAll.fresh i))
  · rw [hHomes, hIco, ← add_assoc]
    exact Multiset.add_le_add_right hAll.once
  · obtain ⟨hSteps, hBlocks⟩ := allWithin_append.mp (hAll.within hOn bound hNext hT)
    obtain ⟨hX, hY⟩ := allWithin_append.mp hBlocks
    have hBelow : a < bound := Nat.lt_of_lt_of_le hAll.le hNext
    exact allWithin_append.mpr ⟨hSteps, ⟨allWithin_append.mpr ⟨hX, allWithin_of_sets hYes hBelow⟩,
      allWithin_append.mpr ⟨hY, allWithin_of_sets hNo hBelow⟩⟩, trivial⟩

end Owns

end Step

/-! ## The steps of expressions -/

mutual

/-- The locals that an expression binds, once for each binding. -/
def Expr.bindings : Expr → Multiset Nat
  | .constant _ | .localRead .. | .variableRead _ | .sequence .. => 0
  | .negate operand | .not operand => operand.bindings
  | .binary _ left right | .logical _ left right => left.bindings + right.bindings
  | .ternary condition yes no => condition.bindings + (yes.bindings + no.bindings)
  | .vector es | .helperCall _ es | .hostCall _ es _ => bindingsOf es
  | .bind index value body => value.bindings + ({index} + body.bindings)

def Expr.bindingsOf : List Expr → Multiset Nat
  | [] => 0
  | e :: rest => e.bindings + bindingsOf rest

end

theorem Layout.nextLocal_bind (f hint : String) (l : Layout) :
    (l.bind f hint).2.nextLocal = l.nextLocal := by
  simp only [Layout.bind]
  split <;> rfl

namespace Part

variable {n : Nat} {on : Prop} {T : Multiset Nat} {first bound : Nat} {ps : List Part} {l : Layout}

theorem allWithin_stepsOf : AllWithin bound (stepsOf ps) ↔ ∀ p ∈ ps, AllWithin bound p.steps := by
  induction ps with
  | nil => simp [stepsOf, AllWithin]
  | cons p rest ih => simp [stepsOf, allWithin_append, ← ih]

/-- What is set aside goes to locals that are handed out for it. -/
theorem homesOf_setAside (ps : List Part) (l : Layout) : homesOf n (stepsOf (setAside ps l).1) =
    homesOf n (stepsOf ps) + Multiset.Ico l.nextLocal (setAside ps l).2.nextLocal := by
  induction ps with
  | nil =>
    rw [show (setAside [] l).2 = l from rfl, Multiset.Ico_self, add_zero]
    rfl
  | cons p rest ih =>
    have hSplit (p : Part) (ps : List Part) : stepsOf (p :: ps) = p.steps ++ stepsOf ps := rfl
    have hGrows := (Layout.Grows.setAside rest l).nextLocal
    simp only [setAside]
    split
    · have hIco : Multiset.Ico l.nextLocal ((setAside rest l).2.reserveLocals 1).2.nextLocal = _ :=
        Ico_succ hGrows
      rw [hSplit, hSplit, homesOf_append, homesOf_append, homesOf_append, ih, homesOf_act, hIco,
        add_comm (Multiset.Ico _ _)]
      exact add_add_add_comm _ _ _ _
    · rw [hSplit, hSplit, homesOf_append, homesOf_append, ih, add_assoc]

theorem within_setAside (hl : (setAside ps l).2.nextLocal ≤ bound)
    (h : ∀ p ∈ ps, AllWithin bound p.steps) : AllWithin bound (stepsOf (setAside ps l).1) := by
  induction ps with
  | nil => trivial
  | cons p rest ih =>
    obtain ⟨hFirst, hRest⟩ := List.forall_mem_cons.mp h
    simp only [setAside] at hl ⊢
    split at hl
    · rename_i hAside
      rw [if_pos hAside]
      exact allWithin_append.mpr ⟨allWithin_append.mpr ⟨hFirst, allWithin_act hl⟩,
        ih (Nat.le_of_succ_le hl) hRest⟩
    · rename_i hAside
      rw [if_neg hAside]
      exact allWithin_append.mpr ⟨hFirst, ih hl hRest⟩

theorem owns_setAside (h : Owns n on T first l.nextLocal (stepsOf ps)) :
    Owns n on T first (setAside ps l).2.nextLocal (stepsOf (setAside ps l).1) := by
  have hGrows := (Layout.Grows.setAside ps l).nextLocal
  have hIco := Multiset.Ico_add_Ico_eq_Ico h.le hGrows
  refine ⟨Nat.le_trans h.le hGrows, ?_, ?_, fun hOn bound hNext hT => ?_⟩
  · intro i hi
    rw [← hIco] at hi
    rw [homesOf_setAside]
    exact Multiset.mem_add.mpr ((Multiset.mem_add.mp hi).imp_left (h.fresh i))
  · rw [homesOf_setAside, ← hIco, ← add_assoc]
    exact Multiset.add_le_add_right h.once
  · exact within_setAside hNext
      (allWithin_stepsOf.mp (h.within hOn bound (Nat.le_trans hGrows hNext) hT))

end Part

section

variable {n : Nat} {on : Prop}

mutual

/-- **The steps of a scalar** set locals that the expression binds and all that are handed out for
them. -/
theorem Expr.owns_part : ∀ (e : Expr) (l : Layout),
    Owns n on e.bindings l.nextLocal (e.part l).2.nextLocal (e.part l).1.steps
  | .constant _, _ | .localRead _ _, _ | .variableRead _, _ | .sequence _ _, _ => .nil
  | .negate operand, l | .not operand, l => owns_part operand l
  | .binary _ left right, l => by
    refine Part.owns_setAside ?_
    have hBoth := (owns_part left l).append (owns_part right (left.part l).2)
    rwa [← List.append_nil (right.part _).1.steps] at hBoth
  | .logical _ left right, l =>
    (Owns.result _ rfl rfl (owns_part left (l.reserveLocals 1).2)
      (owns_part right _) .nil).mono (by rw [add_zero]; exact le_refl _)
  | .ternary cond yes no, l =>
    .result _ rfl rfl (owns_part cond (l.reserveLocals 1).2) (owns_part yes _) (owns_part no _)
  | .vector es, l => by
    have hParts := owns_parts es l
    simp only [part]
    split
    · rename_i p hOne
      rw [hOne] at hParts
      rwa [Part.stepsOf, List.flatMap_singleton] at hParts
    · exact Owns.nil.mono (Multiset.zero_le _)
  | .helperCall _ args, l => Part.owns_setAside (owns_parts args l)
  | .hostCall f args _, l => by
    have hParts := owns_parts args (l.bind f "fn").2
    rw [Layout.nextLocal_bind] at hParts
    exact Part.owns_setAside hParts
  | .bind index value body, l =>
    (owns_part value l).append ((Owns.act (.setLocal index _) nofun).append (owns_part body _))

theorem Expr.owns_parts : ∀ (es : List Expr) (l : Layout),
    Owns n on (bindingsOf es) l.nextLocal (parts es l).2.nextLocal (Part.stepsOf (parts es l).1)
  | [], _ => .nil
  | e :: rest, l => (owns_part e l).append (owns_parts rest _)

end

theorem Step.owns_acts {f : α → Action} (xs : List α) {a : Nat}
    (h : ∀ x, (f x).sets n = 0 ∧ f x ≠ .finish) : Owns n on 0 a a (xs.map fun x => .act (f x)) := by
  induction xs with
  | nil => exact .nil
  | cons x rest ih =>
    have hFirst := Owns.act (n := n) (a := a) (f x) fun _ : on => (h x).2
    rw [(h x).1] at hFirst
    exact hFirst.append ih

theorem Expr.owns_regions {es : List Expr} (h : ∀ e ∈ es, ∀ slot (l : Layout),
      Owns n on e.bindings l.nextLocal (e.region slot l).2.nextLocal (e.region slot l).1)
    (slot : Int) (l : Layout) :
    Owns n on (bindingsOf es) l.nextLocal (regions es slot l).2.nextLocal
      (regions es slot l).1 := by
  induction es generalizing slot l with
  | nil => exact .nil
  | cons e rest ih =>
    obtain ⟨hFirst, hRest⟩ := List.forall_mem_cons.mp h
    exact (hFirst slot l).append (ih hRest _ _)

theorem Expr.owns_region (e : Expr) (slot : Int) (l : Layout) :
    Owns n on e.bindings l.nextLocal (e.region slot l).2.nextLocal (e.region slot l).1 := by
  induction e using region_induction generalizing slot l with
  | simple e hSimple hWidth =>
    rw [region_of_simple hSimple hWidth, ← add_zero e.bindings]
    exact (owns_part e l).append (.act (.setSlot slot _) fun _ => Action.noConfusion)
  | constant xs => exact owns_acts xs.zipIdx fun _ => ⟨rfl, Action.noConfusion⟩
  | load v hSize =>
    rw [region, if_neg hSize]
    exact .act (.load slot _ _) fun _ => Action.noConfusion
  | choice cond yes no hWidth ihYes ihNo =>
    rw [region, if_neg hWidth]
    exact (owns_part cond l).append (.choose _ (ihYes slot _) (ihNo slot _))
  | vector es ih => exact owns_regions ih slot l
  | call f args width hWidth =>
    have hParts := @owns_parts n on args (l.bind f "fn").2
    rw [Layout.nextLocal_bind] at hParts
    rw [region, if_neg hWidth, ← add_zero (bindings _)]
    exact (Part.owns_setAside hParts).append (.act (.setSlots slot _ _ _)
      fun _ => Action.noConfusion)
  | bind index value body ih =>
    exact (owns_part value l).append
      ((Owns.act (.setLocal index _) fun _ => Action.noConfusion).append (ih slot _))
  | sequence => exact .nil

end

section

variable {b : Bounds}

mutual

theorem Expr.bindings_lt : ∀ e : Expr, e.WellFormed b → ∀ i ∈ e.bindings, i < b.firstFresh
  | .constant _, _, _, hi | .localRead _ _, _, _, hi | .variableRead _, _, _, hi
  | .sequence _ _, _, _, hi => absurd hi (Multiset.notMem_zero _)
  | .negate a, h, i, hi | .not a, h, i, hi => bindings_lt a h.2 i hi
  | .binary _ a c, h, i, hi | .logical _ a c, h, i, hi =>
    (Multiset.mem_add.mp hi).elim (bindings_lt a h.2.1 i) (bindings_lt c h.2.2 i)
  | .ternary a c d, h, i, hi =>
    (Multiset.mem_add.mp hi).elim (bindings_lt a h.2.1 i) fun hi =>
      (Multiset.mem_add.mp hi).elim (bindings_lt c h.2.2.1 i) (bindings_lt d h.2.2.2 i)
  | .vector es, h, i, hi | .helperCall _ es, h, i, hi | .hostCall _ es _, h, i, hi =>
    bindingsOf_lt es h.2 i hi
  | .bind _ a c, h, i, hi =>
    (Multiset.mem_add.mp hi).elim (bindings_lt a h.2.1 i) fun hi =>
      (Multiset.mem_add.mp hi).elim (fun hi => Multiset.mem_singleton.mp hi ▸ h.1.1.1.2)
        (bindings_lt c h.2.2 i)

theorem Expr.bindingsOf_lt : ∀ es : List Expr, EachOf (fun e => e.Fits b ∧ e.Delivers) es →
    ∀ i ∈ bindingsOf es, i < b.firstFresh
  | [], _, _, hi => absurd hi (Multiset.notMem_zero _)
  | e :: rest, h, i, hi =>
    (Multiset.mem_add.mp hi).elim (bindings_lt e h.1 i) (bindingsOf_lt rest h.2 i)

end

theorem Step.Owns.allWithin {n : Nat} {T : Multiset Nat} {first next : Nat} {steps : List Step}
    (h : Owns n True T first next steps) (hT : ∀ i ∈ T, i < b.firstFresh)
    (hl : b.firstFresh ≤ first) :
    AllWithin next steps :=
  h.within trivial next (Nat.le_refl _) fun i hi =>
    Nat.lt_of_lt_of_le (hT i hi) (Nat.le_trans hl h.le)

theorem Expr.within_part (e : Expr) (h : e.WellFormed b) (l : Layout)
    (hl : b.firstFresh ≤ l.nextLocal) : AllWithin (e.part l).2.nextLocal (e.part l).1.steps :=
  (owns_part (n := 0) e l).allWithin (bindings_lt e h) hl

theorem Expr.within_region (e : Expr) (h : e.WellFormed b) (slot : Int) (l : Layout)
    (hl : b.firstFresh ≤ l.nextLocal) :
      AllWithin (e.region slot l).2.nextLocal (e.region slot l).1 :=
  (owns_region (n := 0) e slot l).allWithin (bindings_lt e h) hl

end

theorem Expr.within_parts {b : Bounds} (es : List Expr)
    (h : EachOf (fun e => e.Fits b ∧ e.Delivers) es)
    (l : Layout) (hl : b.firstFresh ≤ l.nextLocal) :
    ∀ p ∈ (parts es l).1, AllWithin (parts es l).2.nextLocal p.steps :=
  Part.allWithin_stepsOf.mp ((owns_parts (n := 0) es l).allWithin (bindingsOf_lt es h) hl)

end MolangCompiler
