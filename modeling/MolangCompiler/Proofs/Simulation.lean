import MolangCompiler.Proofs.Helpers
import MolangCompiler.Proofs.Rounding
import MolangCompiler.Proofs.Service
import MolangCompiler.Proofs.Written

/-!
# Routines do what their trees mean

For each kind of expression the steps and the code of its outline are compared with its meaning.
The codes of several operands are evaluated after the steps of all of them.  An operand keeps its
place among the others for one of three reasons: no later operand has steps; or its value was set
aside in a local that the later steps do not assign; or it is constant.
-/

namespace MolangCompiler

open MolangCompiler.Expr MolangCompiler.Part

variable {b : Bounds} {bound : Nat} {p : Part}

section

variable {ω σ : Type}

/-! ## Constants -/

theorem Part.setAside_of_noSteps {ps : List Part} (h : stepsOf ps = []) (l : Layout) :
    setAside ps l = (ps, l) := by
  induction ps with
  | nil => rfl
  | cons p rest ih =>
    have hRest : stepsOf rest = [] := (List.append_eq_nil_iff.mp h).2
    simp only [setAside, ih hRest, hRest, List.isEmpty_nil, Bool.not_true, Bool.and_false]
    rfl

mutual

theorem Expr.fixed_part (h : Surroundings ω) (m : Machine σ) :
    ∀ e : Expr, e.WellFormed b → e.Each ConstantsApply → e.width = 1 → e.isConstant = true →
    ∀ l : Layout, ∃ v, e.value h = pure v ∧ (e.part l).1.steps = [] ∧
      (e.part l).1.code.eval m = pure v
  | .constant xs, _, _, hWidth, _, l => by
    match xs, hWidth with
    | [x], _ => exact ⟨single x, rfl, rfl, rfl⟩
  | .binary op left right, hWF, hApply, _, hConst, l => by
    obtain ⟨hLeft, hRight⟩ := (Bool.and_eq_true _ _).mp hConst
    obtain ⟨x, hx, hxSteps, hxCode⟩ :=
      fixed_part h m left hWF.2.1 hApply.2.1 hWF.1.1.1 hLeft l
    obtain ⟨y, hy, hySteps, hyCode⟩ :=
      fixed_part h m right hWF.2.2 hApply.2.2 hWF.1.1.2 hRight (left.part l).2
    have hSteps : stepsOf [(left.part l).1, (right.part (left.part l).2).1] = [] := by
      simp [stepsOf, hxSteps, hySteps]
    refine ⟨op.apply x y, ?_, ?_, ?_⟩
    · simp only [value, hx, hy, pure_bind]
    · simp only [part, setAside_of_noSteps hSteps, hSteps]
    · simp only [part, setAside_of_noSteps hSteps]
      show Code.eval m (.binary op _ _) = _
      simp only [Code.eval, hxCode, hyCode, pure_bind]
  | .vector [e], hWF, hApply, _, hConst, l => by
    obtain ⟨hFirst, _⟩ := (Bool.and_eq_true _ _).mp hConst
    exact fixed_part h m e hWF.2.1 hApply.2.1 (hWF.1.1 e (List.mem_singleton.mpr rfl)) hFirst l
  | .vector [], _, _, hWidth, _, _ => absurd hWidth width_vector_nil
  | .vector (_ :: _ :: _), _, _, hWidth, _, _ =>
    absurd hWidth width_vector_cons_cons
  | .helperCall helper args, hWF, hApply, _, hConst, l => by
    obtain ⟨vs, hLength, hValues, hSteps, hCodes⟩ :=
      fixed_parts h m args hWF.2 hApply.2 hWF.1.1 hConst l
    obtain ⟨x, hx⟩ := helper.exists_result (hLength.trans (hApply.1 hConst))
    refine ⟨single x, ?_, ?_, ?_⟩
    · simp only [value, hValues, pure_bind, Helper.apply, hx]
    · simp only [part, setAside_of_noSteps hSteps, hSteps]
    · simp only [part, setAside_of_noSteps hSteps, Code.eval, hCodes, pure_bind, Helper.apply, hx]
  | .localRead _ _, _, _, _, hConst, _ | .variableRead _, _, _, _, hConst, _
  | .negate _, _, _, _, hConst, _ | .not _, _, _, _, hConst, _ | .logical _ _ _, _, _, _, hConst, _
  | .ternary _ _ _, _, _, _, hConst, _ | .hostCall _ _ _, _, _, _, hConst, _
  | .bind _ _ _, _, _, _, hConst, _ | .sequence _ _, _, _, _, hConst, _ => by cases hConst

theorem Expr.fixed_parts (h : Surroundings ω) (m : Machine σ) :
    ∀ es : List Expr, EachOf (fun e => e.Fits b ∧ e.Delivers) es →
    EachOf ConstantsApply es → (∀ e ∈ es, e.width = 1) → allConstant es = true →
    ∀ l : Layout, ∃ vs : List Float, vs.length = es.length ∧ valueAll h es = pure vs ∧
      stepsOf (parts es l).1 = [] ∧
      Code.evalAll m (codesOf (parts es l).1) = pure vs
  | [], _, _, _, _, l => ⟨[], rfl, rfl, rfl, rfl⟩
  | e :: rest, hWF, hApply, hWidth, hConst, l => by
    obtain ⟨hFirst, hRest⟩ := (Bool.and_eq_true _ _).mp hConst
    obtain ⟨x, hx, hxSteps, hxCode⟩ :=
      fixed_part h m e hWF.1 hApply.1 (hWidth e List.mem_cons_self) hFirst l
    obtain ⟨xs, hLength, hxs, hxsSteps, hxsCodes⟩ := fixed_parts h m rest hWF.2 hApply.2
      (fun e' he' => hWidth e' (List.mem_cons_of_mem e he')) hRest (e.part l).2
    refine ⟨x :: xs, congrArg (· + 1) hLength, ?_, ?_, ?_⟩
    · simp only [valueAll, hx, hxs, pure_bind]
    · exact List.append_eq_nil_iff.mpr ⟨hxSteps, hxsSteps⟩
    · show Code.evalAll m ((e.part l).1.code :: codesOf (parts rest (e.part l).2).1) = _
      simp only [Code.evalAll, hxCode, hxsCodes, pure_bind]

end

/-! ## Operands -/

def Part.run (m : Machine σ) (p : Part) : Act (Activation σ) Float := do
  let _ ← Step.runAll m p.steps
  p.code.eval m

/-- Evaluates parts together: all of their steps, and then all of their codes. -/
def Part.runAll (m : Machine σ) (ps : List Part) : Act (Activation σ) (List Float) := do
  let _ ← Step.runAll m (stepsOf ps)
  Code.evalAll m (codesOf ps)

/-- Keeping the value of a part in a local before further steps. -/
theorem Part.runAll_setLocal (m : Machine σ) (hp : Step.AllWithin bound p.steps) (k : Nat)
    (rest : List Step) :
    Step.runAll m (p.steps ++ .act (.setLocal k p.code) :: rest) = (do
      let x ← p.run m
      setLocal k x
      Step.runAll m rest) := by
  have hSet : (Step.act (.setLocal k p.code)).Within (k + 1) := Nat.lt_succ_self k
  simp only [run, Step.runAll_append_within hp, Step.runAll_cons_within hSet, Step.run, Action.run,
    bind_assoc, pure_bind]

theorem readLocal_after {α β : Type} {act : Act (Activation σ) α} {k : Nat}
    (hKeep : KeepsLocals k act) (x : Float) (f : α → Float → Act (Activation σ) β) :
    (do
      setLocal k x
      let a ← act
      let y ← readLocal k
      f a y) = (do
      setLocal k x
      let a ← act
      f a x) := by
  funext a
  let a₁ : Activation σ := { a with locals := fun i => if i = k then some x else a.locals i }
  have hSet : setLocal k x a = .ok () a₁ := rfl
  rw [bind_of_ok hSet, bind_of_ok hSet]
  cases hRun : act a₁ with
  | error e a₂ => rw [bind_of_error hRun, bind_of_error hRun]
  | ok z a₂ =>
    have hThere : a₂.locals k = some x := by
      rw [hKeep a₁ z a₂ hRun k (Nat.le_refl k)]
      show (if k = k then some x else a.locals k) = some x
      rw [if_pos rfl]
    rw [bind_of_ok hRun, bind_of_ok hRun, bind_of_ok (readLocal_of_some hThere)]

namespace Service

variable {h : Surroundings ω} {m : Machine σ} {slots room : Nat} {S : Service h m slots room}
  {n : Nat} {buffer : Nat → Float}

/-- **One operand before the others.**  Setting it aside where needed keeps its place in the order
of evaluation. -/
theorem operands_cons {e : Expr} {rest : List Expr} {ps : List Part} {l : Layout}
    (hLocal : n ≤ l.nextLocal) (hp : Step.AllWithin bound p.steps)
    (hps : ∀ q ∈ ps, Step.AllWithin l.nextLocal q.steps) (hFixed : p.constant = true →
      ∃ v, e.value h = pure v ∧ p.steps = [] ∧ p.code.eval m = pure v)
    (hFirst : S.Matches n buffer (e.value h) (p.run m))
    (hRest : S.Matches n buffer (valueAll h rest) (runAll m (setAside ps l).1)) :
    S.Matches n buffer (valueAll h (e :: rest)) (runAll m (setAside (p :: ps) l).1) := by
  have hTree : valueAll h (e :: rest) = (do
      let x ← e.value h
      let xs ← valueAll h rest
      return x :: xs) := rfl
  by_cases hNone : stepsOf ps = []
  · -- no steps follow: the codes are evaluated right behind the steps of the first operand
    have hSame : (setAside (p :: ps) l).1 = p :: ps := by
      simp only [setAside, setAside_of_noSteps hNone, hNone, List.isEmpty_nil,
        Bool.not_true, Bool.and_false]
      rfl
    rw [setAside_of_noSteps hNone] at hRest
    have hEmpty : runAll m ps = Code.evalAll m (codesOf ps) := by
      simp only [runAll, hNone, Step.runAll, pure_bind]
    have hCode : runAll m (p :: ps) = (do
        let x ← p.run m
        let xs ← runAll m ps
        return x :: xs) := by
      have hSteps : stepsOf (p :: ps) = p.steps := by
        show p.steps ++ stepsOf ps = p.steps
        rw [hNone, List.append_nil]
      simp only [hEmpty, run, bind_assoc]
      rw [runAll, hSteps]
      rfl
    rw [hSame, hTree, hCode]
    exact .matches_bind hFirst fun x => .matches_bind hRest fun xs => .pure ⟨rfl, rfl⟩
  · have hFollow : (stepsOf ps).isEmpty = false := by
      rw [List.isEmpty_eq_false_iff]
      exact hNone
    cases hConst : p.constant with
    | true =>
      obtain ⟨v, hValue, hSteps, hEval⟩ := hFixed hConst
      have hSame : (setAside (p :: ps) l).1 = p :: (setAside ps l).1 := by
        simp only [setAside, hConst, Bool.not_true, Bool.false_and]
        rfl
      have hCode : runAll m (p :: (setAside ps l).1) = (do
          let xs ← runAll m (setAside ps l).1
          return v :: xs) := by
        have hAll : stepsOf (p :: (setAside ps l).1) = stepsOf (setAside ps l).1 := by
          show p.steps ++ _ = _
          rw [hSteps, List.nil_append]
          rfl
        simp only [runAll, hAll, bind_assoc]
        show (do
          let _ ← _
          let x ← p.code.eval m
          let xs ← Code.evalAll m (codesOf (setAside ps l).1)
          return x :: xs) = _
        simp only [hEval, pure_bind]
      rw [hSame, hTree, hCode, hValue]
      simp only [pure_bind]
      exact .matches_bind hRest fun xs => .pure ⟨rfl, rfl⟩
    | false =>
      -- the value is kept in a local above all that the later steps assign
      let k := (setAside ps l).2.nextLocal
      have hFresh : n ≤ k := Nat.le_trans hLocal (Layout.Grows.setAside ps l).nextLocal
      have hKeep : KeepsLocals k (Step.runAll m (stepsOf (setAside ps l).1)) :=
        (Step.goesOn_runAll _ (within_setAside (Nat.le_refl _) fun p hp =>
          Step.AllWithin.mono (Layout.Grows.setAside ps l).nextLocal _ (hps p hp))).keeps
      have hSame : (setAside (p :: ps) l).1 =
          ⟨p.constant, p.steps ++ [.act (.setLocal k p.code)], .readLocal k⟩ ::
            (setAside ps l).1 := by
        simp only [setAside, hConst, hFollow, Bool.not_false, Bool.and_self, if_true]
        rfl
      have hCode : runAll m (setAside (p :: ps) l).1 = (do
          let x ← p.run m
          setLocal k x
          let xs ← runAll m (setAside ps l).1
          return x :: xs) := by
        rw [hSame]
        have hAll : stepsOf (⟨p.constant, p.steps ++ [.act (.setLocal k p.code)],
              .readLocal k⟩ :: (setAside ps l).1) =
            p.steps ++ .act (.setLocal k p.code) :: stepsOf (setAside ps l).1 := by
          show (p.steps ++ [.act (.setLocal k p.code)]) ++ _ = _
          rw [List.append_assoc]
          rfl
        simp only [runAll, hAll, runAll_setLocal m hp, bind_assoc]
        refine congrArg (p.run m >>= ·) (funext fun x => ?_)
        exact readLocal_after hKeep x fun _ y => do
          let xs ← Code.evalAll m (codesOf (setAside ps l).1)
          return y :: xs
      rw [hTree, hCode]
      exact .matches_bind hFirst fun x => .setFresh hFresh x
        (.matches_bind hRest fun xs => .pure ⟨rfl, rfl⟩)

theorem helper_matches (helper : Helper) (xs : List Float) :
    S.Matches n buffer (helper.apply xs) (helper.apply xs) := by
  simp only [Helper.apply]
  split
  · exact .pure ⟨rfl, rfl⟩
  · exact .failure _

theorem single_matches (v : HostValue) : S.Matches n buffer v.single v.single := by
  cases v with
  | number x => exact .pure ⟨rfl, rfl⟩
  | list xs => exact .failure _

theorem call_matches (f : String) (args : List Float) :
    S.Matches n buffer (onWorld (h.call f args)) (onWorld (m.call f args)) :=
  .onWorld fun _ _ hRel => S.call hRel f args

end Service

/-! ## Scalars -/

def BinaryOp.applyTo (op : BinaryOp) : List Float → Float
  | [x, y] => op.apply x y
  | _ => 0

theorem Code.eval_ofOperands (m : Machine σ) (op : BinaryOp) {cs : List Code} (h : cs.length = 2) :
    (ofOperands op cs).eval m = (do
      let xs ← evalAll m cs
      return op.applyTo xs) := by
  match cs, h with
  | [c, c'], _ =>
    simp only [ofOperands, eval, evalAll, bind_assoc, pure_bind]
    rfl

private theorem run_choose (m : Machine σ) (hp : Step.AllWithin bound p.steps)
    (decision : Bool → Bool)
    (test : Test) (hTest : test.eval m = (do let x ← p.code.eval m return decision (isTrue x)))
    {yes no : List Step} {code : Code} (constant : Bool) {onYes onNo : Act (Activation σ) Float}
    (hYes : (do let _ ← Step.runAll m yes; code.eval m) = onYes)
    (hNo : (do let _ ← Step.runAll m no; code.eval m) = onNo) :
    run m ⟨constant, p.steps ++ [.choose test yes no], code⟩ = (do
      let x ← p.run m
      if decision (isTrue x) then onYes else onNo) := by
  rw [← hYes, ← hNo]
  simp only [run, Step.runAll_append_within hp, Step.runAll_single, Step.run, hTest,
    bind_assoc, pure_bind]
  refine congrArg (Step.runAll m p.steps >>= ·) (funext fun _ => ?_)
  refine congrArg (p.code.eval m >>= ·) (funext fun x => ?_)
  cases decision (isTrue x) with
  | true | false => rfl

private theorem run_block (m : Machine σ) {bound : Nat} {p : Part}
    (hp : Step.AllWithin bound p.steps) (result : Nat) (f : Float → Float) (action : Action)
    (hAction : action.run m = (do
      let x ← p.code.eval m
      setLocal result (f x)
      return .goOn)) :
    (do
      let _ ← Step.runAll m (p.steps ++ [.act action])
      (Code.readLocal result).eval m) = (do
      let x ← p.run m
      setLocal result (f x)
      readLocal result) := by
  simp only [run, Step.runAll_append_within hp, Step.runAll_single, Step.run, hAction,
    bind_assoc, pure_bind, Code.eval]

namespace LogicalOp

def isOpen : LogicalOp → Bool → Bool
  | and, left => left
  | or, left => !left

theorem eval_openTest (op : LogicalOp) (m : Machine σ) (code : Code) :
    (op.openTest code).eval m = (do
      let x ← code.eval m
      return op.isOpen (isTrue x)) := by
  cases op <;> rfl

theorem single_settled (op : LogicalOp) : single op.settled = op.settled := by
  cases op with
  | and => exact single_zero
  | or => exact single_one

/-- Both logical operators at once: the right operand is evaluated just if the left one leaves the
result open. -/
theorem value_eq (op : LogicalOp) (h : Surroundings ω) (left right : Expr) :
    (logical op left right).value h = (do
      let x ← left.value h
      if op.isOpen (isTrue x) then do
        let y ← right.value h
        return BinaryOp.ofBool (isTrue y)
      else return op.settled) := by
  cases op with
  | and => rfl
  | or =>
    refine congrArg (left.value h >>= ·) (funext fun x => ?_)
    cases isTrue x with
    | true | false => rfl

end LogicalOp

namespace Service

variable {h : Surroundings ω} {m : Machine σ} {slots room : Nat} {S : Service h m slots room}

mutual

/-- **A scalar is evaluated as its tree means it**, and the buffer is left alone. -/
theorem part_matches (hSlots : b.slots ≤ slots) (buffer : Nat → Float) :
    ∀ e : Expr, e.WellFormed b → e.Each ConstantsApply → e.width = 1 →
    ∀ l : Layout, b.firstFresh ≤ l.nextLocal →
    S.Matches b.firstFresh buffer (e.value h) ((e.part l).1.run m)
  | .constant xs, _, _, hWidth, l, _ => by
    match xs, hWidth with
    | [x], _ => exact .pure ⟨rfl, rfl⟩
  | .localRead index name, hWF, _, _, l, _ => .readLocal (hWF.1.2 : index < b.firstFresh)
  | .variableRead v, hWF, _, hWidth, l, _ => by
    have hSize : v.size = 1 := Int.ofNat.inj hWidth
    have hStop : v.offset + v.size ≤ b.slots := hWF.1
    simp only [value, if_pos hSize]
    exact .onWorld fun _ _ hRel => S.readVariable hRel (by omega)
  | .negate operand, hWF, hApply, _, l, hl | .not operand, hWF, hApply, _, l, hl => by
    have hOperand := part_matches hSlots buffer operand hWF.2 hApply.2 hWF.1.1 l hl
    simp only [part, run, Code.eval, ← bind_assoc]
    exact .matches_bind hOperand fun x => .pure ⟨rfl, rfl⟩
  | .binary op left right, hWF, hApply, _, l, hl => by
    let p := (left.part l).1
    let l₁ := (left.part l).2
    let q := (right.part l₁).1
    let l₂ := (right.part l₁).2
    have hl₁ : b.firstFresh ≤ l₁.nextLocal := Nat.le_trans hl (grows_part left l).nextLocal
    have hl₂ : b.firstFresh ≤ l₂.nextLocal :=
      Nat.le_trans hl₁ (grows_part right l₁).nextLocal
    have hLeft := part_matches hSlots buffer left hWF.2.1 hApply.2.1 hWF.1.1.1 l hl
    have hRight := part_matches hSlots buffer right hWF.2.2 hApply.2.2 hWF.1.1.2 l₁ hl₁
    have hWithin := within_part right hWF.2.2 l₁ hl₁
    have hLast : S.Matches b.firstFresh buffer (valueAll h [right])
        (runAll m (setAside [q] l₂).1) :=
      operands_cons hl₂ hWithin (fun _ hq => by cases hq)
        (fun hc => fixed_part h m right hWF.2.2 hApply.2.2 hWF.1.1.2
          ((constant_part right l₁).symm.trans hc) l₁)
        hRight (.pure ⟨rfl, rfl⟩)
    have hBoth : S.Matches b.firstFresh buffer (valueAll h [left, right])
        (runAll m (setAside [p, q] l₂).1) :=
      operands_cons hl₂ (within_part left hWF.2.1 l hl)
        (fun _ hq => by cases List.mem_singleton.mp hq; exact hWithin)
        (fun hc => fixed_part h m left hWF.2.1 hApply.2.1 hWF.1.1.1
          ((constant_part left l).symm.trans hc) l)
        hLeft hLast
    have hTree : (binary op left right).value h = (do
        let xs ← valueAll h [left, right]
        return op.applyTo xs) := by
      simp only [value, valueAll, bind_assoc, pure_bind]
      rfl
    have hLength : (codesOf (setAside [p, q] l₂).1).length = 2 := by
      rw [codesOf, List.length_map, length_setAside]
      rfl
    have hRun : ((binary op left right).part l).1.run m = (do
        let xs ← runAll m (setAside [p, q] l₂).1
        return op.applyTo xs) := by
      simp only [part, run, runAll, bind_assoc]
      rw [Code.eval_ofOperands m op hLength]
    rw [hTree, hRun]
    exact .matches_bind hBoth fun xs => .pure ⟨rfl, rfl⟩
  | .logical op left right, hWF, hApply, _, l, hl => by
    let r := l.nextLocal
    let l₁ := (l.reserveLocals 1).2
    have hl₁ : b.firstFresh ≤ l₁.nextLocal := Nat.le_succ_of_le hl
    let l₂ := (left.part l₁).2
    have hl₂ : b.firstFresh ≤ l₂.nextLocal :=
      Nat.le_trans hl₁ (grows_part left l₁).nextLocal
    have hLeft := part_matches hSlots buffer left hWF.2.1 hApply.2.1 hWF.1.1.1 l₁ hl₁
    have hRight := part_matches hSlots buffer right hWF.2.2 hApply.2.2 hWF.1.1.2 l₂ hl₂
    have hRun : ((logical op left right).part l).1.run m = (do
        let x ← (left.part l₁).1.run m
        if op.isOpen (isTrue x) then do
          let y ← (right.part l₂).1.run m
          setLocal r (BinaryOp.ofBool (isTrue y))
          readLocal r
        else do
          setLocal r op.settled
          readLocal r) := by
      have hBlock := run_block m (within_part right hWF.2.2 l₂ hl₂) r
        (fun y => BinaryOp.ofBool (isTrue y)) (.setTruth r (right.part l₂).1.code) rfl
      have hSettled : (do
          let _ ← Step.runAll m [.act (.setLocal r (.literal op.settled))]
          (Code.readLocal r).eval m) = (do
          setLocal r op.settled
          readLocal r) := by
        simp only [Step.runAll_single, Step.run, Action.run, Code.eval, bind_assoc, pure_bind,
          op.single_settled]
      exact run_choose m (within_part left hWF.2.1 l₁ hl₁) op.isOpen (op.openTest _)
        (op.eval_openTest m _) false hBlock hSettled
    rw [hRun, op.value_eq h left right]
    exact .matches_bind hLeft fun x => .ite (.matches_bind hRight fun y => .keep hl _) (.keep hl _)
  | .ternary cond yes no, hWF, hApply, hWidth, l, hl => by
    let r := l.nextLocal
    let l₁ := (l.reserveLocals 1).2
    have hl₁ : b.firstFresh ≤ l₁.nextLocal := Nat.le_succ_of_le hl
    let l₂ := (cond.part l₁).2
    have hl₂ : b.firstFresh ≤ l₂.nextLocal :=
      Nat.le_trans hl₁ (grows_part cond l₁).nextLocal
    let l₃ := (yes.part l₂).2
    have hl₃ : b.firstFresh ≤ l₃.nextLocal :=
      Nat.le_trans hl₂ (grows_part yes l₂).nextLocal
    have hNoWidth : no.width = 1 := hWF.1.1.2.symm.trans hWidth
    have hTest := part_matches hSlots buffer cond hWF.2.1 hApply.2.1 hWF.1.1.1 l₁ hl₁
    have hYes := part_matches hSlots buffer yes hWF.2.2.1 hApply.2.2.1 hWidth l₂ hl₂
    have hNo := part_matches hSlots buffer no hWF.2.2.2 hApply.2.2.2 hNoWidth l₃ hl₃
    have hRun : ((ternary cond yes no).part l).1.run m = (do
        let x ← (cond.part l₁).1.run m
        if isTrue x then do
          let y ← (yes.part l₂).1.run m
          setLocal r y
          readLocal r
        else do
          let y ← (no.part l₃).1.run m
          setLocal r y
          readLocal r) := by
      exact run_choose m (within_part cond hWF.2.1 l₁ hl₁)
        id (.holds _) rfl false
        (run_block m (within_part yes hWF.2.2.1 l₂ hl₂) r id (.setLocal r _) rfl)
        (run_block m (within_part no hWF.2.2.2 l₃ hl₃) r id (.setLocal r _) rfl)
    have hKeep {x : Act (Activation ω) Float} {y : Act (Activation σ) Float}
        (hMatch : S.Matches b.firstFresh buffer x y) :
        S.Matches b.firstFresh buffer x (do
          let v ← y
          setLocal r v
          readLocal r) := by
      have hBind := Leads.matches_bind hMatch fun v => Leads.keep (S := S) hl v
      rwa [bind_pure] at hBind
    rw [hRun]
    exact .matches_bind hTest fun x => .ite (hKeep hYes) (hKeep hNo)
  | .vector [element], hWF, hApply, _, l, hl =>
    part_matches hSlots buffer element hWF.2.1 hApply.2.1
      (hWF.1.1 element (List.mem_singleton.mpr rfl)) l hl
  | .vector [], _, _, hWidth, _, _ => absurd hWidth width_vector_nil
  | .vector (_ :: _ :: _), _, _, hWidth, _, _ =>
    absurd hWidth width_vector_cons_cons
  | .helperCall helper args, hWF, hApply, _, l, hl => by
    have hArgs := operands_match hSlots buffer args hWF.2 hApply.2 hWF.1.1 l hl
    have hRun : ((helperCall helper args).part l).1.run m = (do
        let xs ← runAll m (setAside (parts args l).1 (parts args l).2).1
        helper.apply xs) := by
      simp only [part, run, runAll, Code.eval, bind_assoc]
    rw [hRun]
    exact .matches_bind hArgs fun xs => helper_matches helper xs
  | .hostCall f args width, hWF, hApply, _, l, hl => by
    let l₁ := (l.bind f "fn").2
    have hl₁ := Nat.le_trans hl (Layout.Grows.bind f "fn" l).nextLocal
    have hArgs := operands_match hSlots buffer args hWF.2 hApply.2 hWF.1.1 l₁ hl₁
    have hRun : ((hostCall f args width).part l).1.run m = (do
        let xs ← runAll m (setAside (parts args l₁).1 (parts args l₁).2).1
        let result ← onWorld (m.call f xs)
        result.single) := by
      simp only [part, run, runAll, Code.eval, bind_assoc]
      rfl
    rw [hRun]
    exact .matches_bind hArgs fun xs => .matches_bind (call_matches f xs) fun v =>
      single_matches v
  | .bind index value body, hWF, hApply, hWidth, l, hl => by
    let l₁ := (value.part l).2
    have hl₁ := Nat.le_trans hl (grows_part value l).nextLocal
    have hValue := part_matches hSlots buffer value hWF.2.1 hApply.2.1 hWF.1.1.2 l hl
    have hBody := part_matches hSlots buffer body hWF.2.2 hApply.2.2 hWidth l₁ hl₁
    have hRun : ((bind index value body).part l).1.run m = (do
        let x ← (value.part l).1.run m
        setLocal index x
        (body.part l₁).1.run m) := by
      rw [part, run, runAll_setLocal m (within_part value hWF.2.1 l hl)]
      simp only [bind_assoc, run, l₁]
    rw [hRun]
    exact .matches_bind hValue fun x => .matches_bind (.setLocal index x) fun _ => hBody
  | .sequence _ _, hWF, _, _, _, _ => absurd hWF.1 id

/-- **Operands are evaluated from left to right**, each of them once. -/
theorem operands_match (hSlots : b.slots ≤ slots) (buffer : Nat → Float) :
    ∀ es : List Expr, EachOf (fun e => e.Fits b ∧ e.Delivers) es →
    EachOf ConstantsApply es → (∀ e ∈ es, e.width = 1) →
    ∀ l : Layout, b.firstFresh ≤ l.nextLocal →
    S.Matches b.firstFresh buffer (valueAll h es)
      (runAll m (setAside (parts es l).1 (parts es l).2).1)
  | [], _, _, _, _, _ => .pure ⟨rfl, rfl⟩
  | e :: rest, hWF, hApply, hWidth, l, hl => by
    let l₁ := (e.part l).2
    have hl₁ : b.firstFresh ≤ l₁.nextLocal := Nat.le_trans hl (grows_part e l).nextLocal
    have hl₂ : b.firstFresh ≤ (parts rest l₁).2.nextLocal :=
      Nat.le_trans hl₁ (grows_parts rest l₁).nextLocal
    have hScalar := hWidth e List.mem_cons_self
    have hFirst := part_matches hSlots buffer e hWF.1 hApply.1 hScalar l hl
    have hRest := operands_match hSlots buffer rest hWF.2 hApply.2
      (fun e' he' => hWidth e' (List.mem_cons_of_mem e he')) l₁ hl₁
    exact operands_cons hl₂ (within_part e hWF.1 l hl)
      (within_parts rest hWF.2 l₁ hl₁)
      (fun hc => fixed_part h m e hWF.1 hApply.1 hScalar ((constant_part e l).symm.trans hc) l)
      hFirst hRest

end

end Service

/-! ## Regions -/

/-- An expression that produces one value produces the number that it stands for, in single
precision. -/
theorem Expr.values_of_scalar (h : Surroundings ω) :
    ∀ e : Expr, e.WellFormed b → e.width = 1 → e.values h = (do
      let x ← e.value h
      return [single x])
  | .constant xs, _, hWidth => by
    obtain ⟨x, rfl⟩ := List.length_eq_one_iff.mp (Int.ofNat.inj hWidth)
    simp only [values, value, pure_bind, single_single]
    rfl
  | .localRead _ _, _, _ => rfl
  | .variableRead v, _, hWidth => by
    have hSize : v.size = 1 := Int.ofNat.inj hWidth
    simp only [values, value, if_pos hSize]
  | .negate _, _, _ | .not _, _, _ | .binary _ _ _, _, _ => rfl
  | .logical op left right, _, _ => by cases op <;> rfl
  | .ternary cond yes no, hWF, hWidth => by
    have hNoWidth : no.width = 1 := hWF.1.1.2.symm.trans hWidth
    simp only [values, value, bind_assoc]
    rw [values_of_scalar h yes hWF.2.2.1 hWidth, values_of_scalar h no hWF.2.2.2 hNoWidth]
    refine congrArg (cond.value h >>= ·) (funext fun x => ?_)
    cases isTrue x with
    | true | false => rfl
  | .vector [element], hWF, _ => by
    have hElement := values_of_scalar h element hWF.2.1
      (hWF.1.1 element (List.mem_singleton.mpr rfl))
    simp only [values, valuesOfAll, value, onlyValue, hElement, bind_assoc,
      pure_bind, List.append_nil]
  | .vector [], _, hWidth => absurd hWidth width_vector_nil
  | .vector (_ :: _ :: _), _, hWidth =>
    absurd hWidth width_vector_cons_cons
  | .helperCall _ _, _, _ => rfl
  | .hostCall f args width, _, hWidth => by
    have hOne : width = 1 := hWidth
    simp only [values, value, if_pos hOne, bind_assoc]
  | .bind index value body, hWF, hWidth => by
    simp only [values, Expr.value, bind_assoc, values_of_scalar h body hWF.2.2 hWidth]
  | .sequence _ _, hWF, _ => absurd hWF.1 id

namespace Service

variable {h : Surroundings ω} {m : Machine σ} {slots room : Nat} (S : Service h m slots room)

/-- The routine goes on with the values of the tree in the buffer from a slot on. -/
abbrev Fills (n : Nat) (buffer : Nat → Float) (slot : Nat) (width : Int)
    (x : Act (Activation ω) (List Float)) (y : Act (Activation σ) Flow) : Prop :=
  S.Leads n buffer (fun xs flow buffer' =>
    flow = .goOn ∧ (xs.length : Int) = width ∧ buffer' = overwrite buffer slot xs) x y

variable {S} {n : Nat} {buffer : Nat → Float}

variable {slot : Nat}

theorem fills_stored {e : Expr} {p : Part × Layout} (hSlot : slot < room)
    (hp : Step.AllWithin bound p.1.steps) (hMatch : S.Matches n buffer (e.value h) (p.1.run m)) :
    S.Fills n buffer slot 1 (do let x ← e.value h; return [single x])
      (Step.runAll m (stored slot p).1) := by
  have hRun : Step.runAll m (stored slot p).1 = (do
      let x ← p.1.run m
      onWorld (m.writeSlot slot x)
      return .goOn) := by
    simp only [stored, Step.runAll_append_within hp, Step.runAll_single, Step.run, Action.run,
      run, bind_assoc, Int.toNat_natCast]
  rw [hRun]
  exact .matches_bind hMatch fun x => .writeSlot hSlot x (.pure ⟨rfl, rfl, rfl⟩)

/-- Numbers that are stored from a slot on; the first of them belongs `k` slots behind it. -/
theorem fills_literals (xs : List Float) :
    ∀ (k : Nat) (buffer : Nat → Float), slot + k + xs.length ≤ room →
    S.Fills n buffer (slot + k) xs.length (pure (xs.map single))
      (Step.runAll m ((xs.zipIdx k).map fun (x, i) =>
        .act (.setSlot ((slot : Int) + i) (.literal x)))) := by
  induction xs with
  | nil =>
    intro k buffer _
    exact .pure ⟨rfl, rfl, (overwrite_nil buffer _).symm⟩
  | cons x rest ih =>
    intro k buffer hRoom
    rw [List.length_cons] at hRoom
    have hPlace : ((slot : Int) + k).toNat = slot + k := by omega
    have hRest := ih (k + 1) (overwrite buffer (slot + k) [single x]) (by omega)
    have hRun : Step.runAll m (((x :: rest).zipIdx k).map fun (x, i) =>
          .act (.setSlot ((slot : Int) + i) (.literal x))) = (do
        onWorld (m.writeSlot (slot + k) (single x))
        Step.runAll m ((rest.zipIdx (k + 1)).map fun (x, i) =>
          .act (.setSlot ((slot : Int) + i) (.literal x)))) := by
      have hSet : (Step.act (.setSlot ((slot : Int) + k) (.literal x))).Within 0 := trivial
      rw [List.zipIdx_cons, List.map_cons, Step.runAll_cons_within hSet]
      simp only [Step.run, Action.run, Code.eval, pure_bind, bind_assoc, hPlace]
    rw [hRun]
    refine .writeSlot (by omega) (single x) ?_
    rw [single_single]
    refine Leads.mapLeft hRest (f := (single x :: ·)) ?_
    rintro ys flow buffer' ⟨hFlow, hLength, hBuffer⟩
    refine ⟨hFlow, ?_, hBuffer.trans (overwrite_cons buffer (slot + k) (single x) ys).symm⟩
    simp only [List.length_cons, Int.natCast_succ, hLength]

theorem fills_load {offset size : Nat} (hRoom : slot + size ≤ room) (hSpan : offset + size ≤ slots)
    :
    S.Fills n buffer slot size (do
      let xs ← onWorld (h.readVariables offset size)
      return xs.toList) (Step.runAll m [.act (.load slot offset size)]) := by
  rw [Step.runAll_single]
  refine Leads.bind (.onWorld (P := fun xs ys => ys = xs ∧ xs.size = size) fun w s hRel =>
    Agree.mono (S.readVariables hRel hSpan) ?_ fun _ _ hRel' => hRel') ?_
  · rintro xs w' ys s' ⟨hSame, hSize, hRel', hSlots⟩
    exact ⟨⟨hSame, hSize⟩, hRel', hSlots⟩
  · rintro xs ys buffer' ⟨⟨rfl, hSize⟩, rfl⟩
    exact .writeSlots hRoom hSize (.pure ⟨rfl, by rw [Array.length_toList, hSize], rfl⟩)

theorem leads_setSlots (xs : List Float) :
    ∀ (slot : Nat) (buffer : Nat → Float), slot + xs.length ≤ room →
    S.Leads n buffer (fun _ _ buffer' => buffer' = overwrite buffer slot (xs.map single))
      (pure ()) (setSlots m slot xs) := by
  induction xs with
  | nil => exact fun slot buffer _ => .pure (overwrite_nil buffer slot).symm
  | cons x rest ih =>
    intro slot buffer hRoom
    rw [List.length_cons] at hRoom
    have hRest := ih (slot + 1) (overwrite buffer slot [single x]) (by omega)
    rw [← overwrite_cons] at hRest
    exact .writeSlot (by omega) x hRest

theorem fills_setSlots {width : Nat} (hRoom : slot + width ≤ room) (v : HostValue) :
    S.Fills n buffer slot width (do
      let ys ← v.values width
      return ys.map single) (do
      setSlots m slot (← v.values width)
      return .goOn) := by
  cases v with
  | number x => exact .failure _
  | list xs =>
    simp only [HostValue.values]
    by_cases hFew : xs.length < width
    · simp only [if_pos hFew]
      exact .failure _
    · by_cases hMany : width < xs.length
      · simp only [if_neg hFew, if_pos hMany]
        exact .failure _
      · have hLength : xs.length = width := by omega
        simp only [if_neg hFew, if_neg hMany, pure_bind]
        have hBind := Leads.bind (S := S) (n := n)
          (f := fun _ => pure (xs.map single)) (g := fun _ => pure Flow.goOn)
          (Q := fun ys flow buffer' => flow = .goOn ∧ (ys.length : Int) = width ∧
            buffer' = overwrite buffer slot ys)
          (leads_setSlots xs slot buffer (by omega))
          fun _ _ buffer' hBuffer => .pure ⟨rfl, by rw [List.length_map, hLength], hBuffer⟩
        rwa [pure_bind] at hBind

theorem regions_fill {es : List Expr} (hWF : ∀ e ∈ es, e.WellFormed b)
    (hWidth : ∀ e ∈ es, e.width = 1)
    (hFills : ∀ e ∈ es, ∀ (slot : Nat) (buffer : Nat → Float) (l : Layout),
      b.firstFresh ≤ l.nextLocal → slot + e.width ≤ room →
      S.Fills b.firstFresh buffer slot e.width (e.values h) (Step.runAll m (e.region slot l).1))
    (slot : Nat) (buffer : Nat → Float) (l : Layout) (hl : b.firstFresh ≤ l.nextLocal)
    (hRoom : slot + (es.length : Int) ≤ room) :
    S.Fills b.firstFresh buffer slot es.length (valuesOfAll h es)
      (Step.runAll m (regions es slot l).1) := by
  induction es generalizing slot buffer l with
  | nil => exact .pure ⟨rfl, rfl, (overwrite_nil buffer slot).symm⟩
  | cons e rest ih =>
    rw [List.length_cons] at hRoom
    obtain ⟨hOne, hOnes⟩ := List.forall_mem_cons.mp hWidth
    obtain ⟨hFills, hFillsRest⟩ := List.forall_mem_cons.mp hFills
    obtain ⟨hFits, hFitsRest⟩ := List.forall_mem_cons.mp hWF
    let l₁ := (e.region slot l).2
    have hl₁ := Nat.le_trans hl (grows_region e slot l).nextLocal
    have hFirst := hFills slot buffer l hl (by omega)
    have hRest (buffer : Nat → Float) :=
      ih hFitsRest hOnes hFillsRest (slot + 1) buffer l₁ hl₁ (by omega)
    have hRun : Step.runAll m (regions (e :: rest) slot l).1 = (do
        let _ ← Step.runAll m (e.region slot l).1
        Step.runAll m (regions rest ((slot + 1 : Nat) : Int) l₁).1) :=
      Step.runAll_append_within (within_region e hFits slot l hl) _
    rw [hRun]
    refine .bind hFirst ?_
    rintro xs flow buffer' ⟨_, hLength, rfl⟩
    refine .mapLeft (hRest _) (f := (xs ++ ·)) ?_
    rintro ys flow' buffer'' ⟨hFlow, hLength', rfl⟩
    have hSingle : xs.length = 1 := by omega
    refine ⟨hFlow, ?_, ?_⟩
    · rw [List.length_append, List.length_cons]
      omega
    · rw [overwrite_append, hSingle]

/-- **A region holds what its tree produces**, and no other slot is touched. -/
theorem region_fills (hSlots : b.slots ≤ slots) (e : Expr) (hWF : e.WellFormed b)
    (hApply : e.Each ConstantsApply) (slot : Nat) (buffer : Nat → Float) (l : Layout)
    (hl : b.firstFresh ≤ l.nextLocal) (hRoom : slot + e.width ≤ room) :
    S.Fills b.firstFresh buffer slot e.width (e.values h) (Step.runAll m (e.region slot l).1) := by
  induction e using region_induction generalizing slot buffer l with
  | simple e hSimple hWidth =>
    rw [values_of_scalar h e hWF hWidth, region_of_simple hSimple hWidth, hWidth]
    exact fills_stored (by omega) (within_part e hWF l hl)
      (part_matches hSlots buffer e hWF hApply hWidth l hl)
  | constant xs =>
    have hLength : (slot : Int) + xs.length ≤ room := hRoom
    exact fills_literals xs 0 buffer (by omega)
  | load v hSize =>
    have hLength : (slot : Int) + v.size ≤ room := hRoom
    have hStop : v.offset + v.size ≤ b.slots := hWF.1
    simp only [values, if_neg hSize, region]
    exact fills_load (by omega) (by omega)
  | choice cond yes no hWidth ihYes ihNo =>
    let l₁ := (cond.part l).2
    have hl₁ := Nat.le_trans hl (grows_part cond l).nextLocal
    let l₂ := (yes.region slot l₁).2
    have hl₂ := Nat.le_trans hl₁ (grows_region yes slot l₁).nextLocal
    have hSame : yes.width = no.width := hWF.1.1.2
    have hTest := part_matches (S := S) hSlots buffer cond hWF.2.1 hApply.2.1 hWF.1.1.1 l hl
    have hYes := ihYes hWF.2.2.1 hApply.2.2.1 slot buffer l₁ hl₁ hRoom
    have hNo := ihNo hWF.2.2.2 hApply.2.2.2 slot buffer l₂ hl₂ (hSame ▸ hRoom)
    rw [← hSame] at hNo
    have hRun : Step.runAll m ((ternary cond yes no).region slot l).1 = (do
        let x ← (cond.part l).1.run m
        if isTrue x then Step.runAll m (yes.region slot l₁).1
        else Step.runAll m (no.region slot l₂).1) := by
      simp only [region, if_neg hWidth, run,
        Step.runAll_append_within (within_part cond hWF.2.1 l hl),
        Step.runAll_single, Step.run, Test.eval, bind_assoc, pure_bind]
      rfl
    rw [hRun]
    exact .matches_bind hTest fun x => .ite hYes hNo
  | vector es ih =>
    have hEach := (eachOf_iff es).mp hWF.2
    exact regions_fill hEach hWF.1.1
      (fun e he => ih e he (hEach e he) ((eachOf_iff es).mp hApply.2 e he)) slot buffer l hl hRoom
  | call f args width hWidth =>
    let l₁ := (l.bind f "fn").2
    have hl₁ := Nat.le_trans hl (Layout.Grows.bind f "fn" l).nextLocal
    have hPositive : 1 ≤ width := hWF.1.2
    have hLength : (slot : Int) + width ≤ room := hRoom
    have hArgs := operands_match (S := S) hSlots buffer args hWF.2 hApply.2 hWF.1.1 l₁ hl₁
    have hWithin := within_setAside (Nat.le_refl _) fun p hp =>
      Step.AllWithin.mono (Layout.Grows.setAside _ _).nextLocal _
        (within_parts args hWF.2 (l.bind f "fn").2 hl₁ p hp)
    have hRun : Step.runAll m ((hostCall f args width).region slot l).1 = (do
        let xs ← runAll m (setAside (parts args l₁).1 (parts args l₁).2).1
        let result ← onWorld (m.call f xs)
        setSlots m slot (← result.values width.toNat)
        return .goOn) := by
      simp only [region, if_neg hWidth, runAll, Step.runAll_append_within hWithin,
        Step.runAll_single, Step.run, Action.run, bind_assoc, Int.toNat_natCast]
      rfl
    have hCast : ((width.toNat : Nat) : Int) = width := Int.toNat_of_nonneg (by omega)
    have hFill (v : HostValue) : S.Fills b.firstFresh buffer slot width.toNat _ _ :=
      fills_setSlots (by omega) v
    rw [hCast] at hFill
    simp only [values, if_neg hWidth]
    rw [hRun]
    exact .matches_bind hArgs fun xs => .matches_bind (call_matches f xs) hFill
  | bind index value body ih =>
    let l₁ := (value.part l).2
    have hl₁ := Nat.le_trans hl (grows_part value l).nextLocal
    have hValue := part_matches (S := S) hSlots buffer value hWF.2.1 hApply.2.1 hWF.1.1.2 l hl
    have hBody := ih hWF.2.2 hApply.2.2 slot buffer l₁ hl₁ hRoom
    rw [region, runAll_setLocal m (within_part value hWF.2.1 l hl)]
    exact .matches_bind hValue fun x => .matches_bind (.setLocal index x) fun _ => hBody
  | sequence => exact absurd hWF.1 id

end Service

end

end MolangCompiler
