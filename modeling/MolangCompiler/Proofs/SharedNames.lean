import MolangCompiler.Proofs.Binding
import MolangCompiler.Proofs.NamedValues

/-!
# Hosts and sources share their variables

What a host calls `n` and a source calls `v.n` is one variable.  What a source assigns to the name
is what a host finds there: the value of the right-hand side, as an evaluation of it as a source of
its own would return it.

An assignment and its right-hand side are compiled into two routines with different buffers, which
are compared through their trees: the tree of the assignment assigns the tree of its right-hand side
(`Workshop.read_assignment`), both routines do what their trees mean, and impartial host functions
do the same while either of them runs (`Session.evaluate_assignment`).
-/

namespace MolangCompiler

open Workshop

/-! ## Instances without templates -/

/-- Calls of helpers with as many arguments as they take, and of host functions. -/
def Callable.fitting : Callable := ⟨fun h count => count = h.arity, True⟩

variable {e : Expr} {i : Instance} {r : Request} {a : Artifact} {temps : Nat} {xs ys : List Float}
  {v : Variable} {width : Int} {host : Host}

theorem Expr.constantsApply_of_fitting (h : e.EachNode (Calls .fitting)) :
    e.EachNode ConstantsApply := by
  refine h.mono fun e he => ?_
  cases e with
  | helperCall helper args => exact fun _ => he
  | _ => trivial

theorem Instance.Obeys.templateless {k : Callable} (h : i.Obeys k) : i.Templateless := by
  intro q hq arity report tree hTemplate
  have hObeys := h q hq
  rw [hTemplate] at hObeys
  exact hObeys

/-- The instance has only grown since; it may be in the middle of an evaluation. -/
def Instance.Precedes (i i' : Instance) : Prop := i.Grows { i' with depth := i.depth }

/-! ## The tree of an assignment -/

theorem Instance.Templateless.disarmed_eq (h : i.Templateless) : i.disarmed = i := by
  have hSame : Query.disarm i.queries = i.queries := by
    refine (List.map_congr_left fun q hq => ?_).trans (List.map_id _)
    rcases q.2.disarmed_cases with ⟨⟨arity, report, tree, hTemplate⟩, -⟩ | ⟨-, hDisarmed⟩
    · exact absurd hTemplate (h q hq arity report tree)
    · rw [hDisarmed]
      rfl
  unfold disarmed
  rw [hSame]

/-- **What was compiled without templates** is read in the same way afterwards, and changes nothing.
-/
theorem Workshop.read_after_compile {home : Nat} {w w' w₁ : Workshop} {p : Expr × Nat}
    (hTemplateless : w.inst.Templateless) (h : compile home r w = .ok a w')
    (hRead : read r w = .ok p w₁) : read r w' = .ok p w' := by
  obtain ⟨hSpace, hQueries, hActor⟩ := inst_of_compile h hRead
  have hFirst : read r w.disarmed = .ok p w₁ := by
    unfold disarmed
    rw [hTemplateless.disarmed_eq]
    exact hRead
  exact read_again hFirst hQueries hActor hSpace

section

variable {n : String} (hPlain : '$' ∉ n.toList) (hSome : n ≠ "")
include hPlain hSome

/-- **What an assignment leaves behind**: the name stands for a variable of the width of the value.
-/
theorem Dictionary.assignVariable_assigns {st : Setting} {position stop : Nat} {value : Expr}
    {s s' : Scope} {t : Stmt} (h : assignVariable st n position stop value s = .ok t s') :
    ∃ v, t = .assignVariable v value ∧ v.size = value.width ∧ s'.space.find? n = some v ∧
      s'.locals = s.locals := by
  obtain ⟨v, hTree, hSize, hMeets, hSame⟩ := (assignVariable_meets hPlain hSome s).of_ok h
  refine ⟨v, hTree, hSize, hMeets.finds hPlain hSome, ?_⟩
  rw [hSame]

end

/-- **The tree of an assignment** assigns the tree of its right-hand side. -/
theorem Workshop.read_assignment {w w' : Workshop} {n e : String} {context : List String}
    {constants : List (String × List Float)} {p q : Expr × Nat} (hTail : IsNameTail n)
    (hLower : IsLowerCase n) (hOne : ';' ∉ e.toList)
    (hAssign : read ⟨"v." ++ n ++ " = " ++ e, context, constants⟩ w = .ok p w)
    (hValue : read ⟨e, context, constants⟩ w = .ok q w') :
    ∃ v width, p = (.sequence [.assignVariable v q.1] width, q.2) ∧ v.size = q.1.width ∧
      w.inst.space.find? n = some v := by
  obtain ⟨s, hSource, hLocals, hSpace⟩ := read_eq_ok.mp hAssign
  obtain ⟨s', hSource', hLocals', -⟩ := read_eq_ok.mp hValue
  obtain ⟨hText, hFinished⟩ := Dictionary.text_of_readSource hSource'
  obtain ⟨value, s₁, t, hRead, hDone, hTree⟩ :=
    Dictionary.readSource_of_assignment hTail hLower hOne rfl hText hFinished hSource
  -- the right-hand side is read as it is on its own
  cases hRead.symm.trans hSource'
  rw [Dictionary.assign_of_variable (hTail.variableName?_eq hLower)] at hDone
  obtain ⟨v, rfl, hSize, hFound, hSame⟩ :=
    Dictionary.assignVariable_assigns hTail.plain hTail.ne_empty hDone
  refine ⟨v, s.resultWidth, Prod.ext hTree ?_, hSize, ?_⟩
  · rw [hLocals, hLocals', hSame]
  · rw [hSpace]
    exact hFound

/-! ## The evaluation of an assignment -/

theorem Expr.evaluate_eq_ok {ω : Type} {h : Surroundings ω} {args : List Float} {w w' : ω} :
    e.evaluate h args temps w = .ok xs w' ↔
      ∃ locals, e.outcome h ⟨startLocals args temps, w⟩ = .ok xs ⟨locals, w'⟩ := by
  unfold evaluate
  cases e.outcome h ⟨startLocals args temps, w⟩ with
  | error failure a =>
    constructor
    · intro hRun
      cases hRun
    · rintro ⟨locals, hRun⟩
      cases hRun
  | ok ys a =>
    constructor
    · intro hRun
      cases hRun
      exact ⟨a.locals, rfl⟩
    · rintro ⟨locals, hRun⟩
      cases hRun
      rfl

/-- An assignment evaluates its right-hand side and then writes the values to the variable. -/
theorem Stmt.execute_assignVariable {ω : Type} {h : Surroundings ω} {b : Bounds}
    (hWF : e.WellFormed b) (hSize : v.size = e.width) {a a' : Activation ω}
    {result : Option (List Float)} (hRun : (assignVariable v e).execute h a = .ok result a') :
    result = none ∧ ∃ xs a₁, e.values h a = .ok xs a₁ ∧
      ((∃ x, xs = [single x] ∧ onWorld (h.writeVariable v.offset x) a₁ = .ok () a') ∨
        onWorld (h.writeVariables v.offset v.size xs.toArray) a₁ = .ok () a') := by
  rw [execute] at hRun
  by_cases hOne : v.size = 1
  · rw [if_pos hOne] at hRun
    obtain ⟨x, a₁, hValue, hRest⟩ := bind_eq_ok.mp hRun
    obtain ⟨_, a₂, hWrite, hEnd⟩ := bind_eq_ok.mp hRest
    cases hEnd
    have hScalar : e.width = 1 := by omega
    refine ⟨rfl, [single x], a₁, ?_, .inl ⟨x, rfl, hWrite⟩⟩
    rw [Expr.values_of_scalar h e hWF hScalar]
    exact bind_of_ok hValue
  · rw [if_neg hOne] at hRun
    obtain ⟨xs, a₁, hValues, hRest⟩ := bind_eq_ok.mp hRun
    obtain ⟨_, a₂, hWrite, hEnd⟩ := bind_eq_ok.mp hRest
    cases hEnd
    exact ⟨rfl, xs, a₁, hValues, .inr hWrite⟩

namespace Session

variable {s : Session} {number : Nat}

theorem variablesOf_put (h : 0 < ((variablesOf number).get s).size) (store : Array Float) :
    (variablesOf number).get ((variablesOf number).put store s) = store := by
  cases hAt : s.instance? number with
  | none =>
    have hEmpty : ((variablesOf number).get s).size = 0 := by
      show (s.workshop number).inst.space.store.size = 0
      unfold workshop
      rw [hAt]
      rfl
    omega
  | some i =>
    show ((s.changeInstance number (·.setStore store)).workshop number).inst.space.store = store
    rw [workshop_inst (instance?_changed hAt _)]
    rfl

section

variable {v : Variable} (hStop : v.stop ≤ ((variablesOf number).get s).size)
include hStop

theorem read_of_write {x : Float} (hSize : v.size = 1) {t : Session}
    (h : (variablesOf number).write v.offset x s = .ok () t) :
    (t.workshop number).inst.space.read v = [single x] := by
  have hIn : v.offset < ((variablesOf number).get s).size := by
    unfold Variable.stop at hStop
    omega
  unfold Slots.write at h
  rw [setSlot?_eq_some hIn] at h
  cases h
  refine Namespace.read_eq hSize.symm fun j hj => ?_
  obtain rfl : j = 0 := by omega
  show ((variablesOf number).get ((variablesOf number).put _ s))[v.offset + 0]? = _
  rw [variablesOf_put (by omega), Nat.add_zero, Array.getElem?_setIfInBounds_self_of_lt hIn]
  rfl

theorem read_of_writeMany (hSome : 1 ≤ v.size) (hSize : xs.length = v.size) {t : Session}
    (h : (variablesOf number).writeMany v.offset v.size xs.toArray s = .ok () t) :
    (t.workshop number).inst.space.read v = xs := by
  unfold Variable.stop at hStop
  cases h
  refine Namespace.read_eq hSize fun j hj => ?_
  show ((variablesOf number).get ((variablesOf number).put _ s))[v.offset + j]? = _
  rw [variablesOf_put (by omega), getElem?_splice_inside hStop hSize (by omega) (by omega),
    Nat.add_sub_cancel_left, List.getElem?_toArray]

end

variable {args : List Float} {t : Session} {a : Artifact} {limit : Nat}

/-- **An assignment** evaluates its right-hand side and leaves the values in the variable. -/
theorem evaluate_assignment {call : Calls} {b : Bounds} (hWF : e.WellFormed b)
    (hSize : v.size = e.width)
    (hRun : (Expr.sequence [.assignVariable v e] width).evaluate
      (surroundings number call) args temps s = .ok ys t) :
    ∃ xs s', e.evaluate (surroundings number call) args temps s = .ok xs s' ∧
      (1 ≤ v.size → v.stop ≤ ((variablesOf number).get s').size → xs.length = v.size →
        (t.workshop number).inst.space.read v = xs) := by
  obtain ⟨locals, hOutcome⟩ := Expr.evaluate_eq_ok.mp hRun
  obtain ⟨result, a, hAll, hEnd⟩ := bind_eq_ok.mp hOutcome
  obtain ⟨returned, a', hFirst, hRest⟩ := bind_eq_ok.mp hAll
  obtain ⟨rfl, xs, a₁, hValues, hWrite⟩ := Stmt.execute_assignVariable hWF hSize hFirst
  cases hRest
  cases hEnd
  refine ⟨xs, a₁.world, Expr.evaluate_eq_ok.mpr ⟨a₁.locals, ?_⟩, fun hSome hStop hLength => ?_⟩
  · rw [hWF.outcome_eq]
    exact hValues
  · rcases hWrite with ⟨x, rfl, hWrite⟩ | hWrite
    · obtain ⟨w, hWrite, hEnd⟩ := onPart_eq_ok.mp hWrite
      cases hEnd
      exact read_of_write hStop hLength.symm hWrite
    · obtain ⟨w, hWrite, hEnd⟩ := onPart_eq_ok.mp hWrite
      cases hEnd
      exact read_of_writeMany hStop hSome hLength hWrite

/-! ## Compiling on an instance of a session -/

theorem compiled_of_compile {s' : Session} (hAt : s.instance? number = some i) (hSound : s.Sound)
    (h : onInstance number (Workshop.compile number r) s = .ok a s') :
    Workshop.compile number r (s.workshop number) = .ok a (s'.workshop number) ∧
      s'.instance? number = some (s'.workshop number).inst ∧
      ∃ p w₁ d, Compiled number r (s.workshop number) a (s'.workshop number) p w₁ d := by
  obtain ⟨w', hRun, rfl⟩ := onPart_eq_ok.mp h
  have hThere : (s.setWorkshop number w').workshop number = w' :=
    workshop_setWorkshop hAt (ledger_of_compile hRun)
  rw [hThere]
  refine ⟨hRun, ?_, ((Workshop.compile_keeps number r _).of_ok (hSound.workshop hAt) hRun).2.2⟩
  rw [instance?_setWorkshop, if_pos rfl, hAt]
  rfl

/-- Nothing hinders an evaluation on an instance: it is idle, or its bytes are not counted. -/
def Unhindered (number : Nat) (s : Session) : Prop :=
  ∃ i, s.instance? number = some i ∧ (i.depth = 0 ∨ (s.workshop number).books.ledger = none)

/-! ## Evaluations without host functions -/

/-- Only as many arguments as an artifact takes are accepted. -/
theorem length_of_hosted (h : hosted host (limit + 1) a args s = .ok ys t) :
    args.length = a.args := by
  by_cases hArgs : args.length = a.args
  · exact hArgs
  · cases (evaluateWith_of_length_ne hArgs _ s).symm.trans h

theorem mute_impartial (number : Nat) : Host.mute.Impartial number := fun _ _ _ => trivial

/-- A routine that succeeds although host functions fail calls none of them. -/
theorem run_of_mute {depth : Nat} {w w' : World}
    (h : a.routine.run (machine a.home depth (callDeed .mute (hosted .mute limit) a)) args w =
      .ok () w')
    :
    a.routine.run (machine a.home depth (callDeed host (hosted host limit) a)) args w =
      .ok () w' := by
  have hCall (f : String) (xs : List Float) : (repeating : Comparison World World).Like
      ((machine a.home depth (callDeed .mute (hosted .mute limit) a)).call f xs)
      ((machine a.home depth (callDeed host (hosted host limit) a)).call f xs) := by
    intro w value w' hRun
    cases hRun
  have hMachines : (machine a.home depth (callDeed .mute (hosted .mute limit) a)).Compared repeating
      (machine a.home depth (callDeed host (hosted host limit) a)) :=
    { readVariable := fun _ => repeating_self _
      writeVariable := fun _ _ => repeating_self _
      readVariables := fun _ _ => repeating_self _
      writeVariables := fun _ _ _ => repeating_self _
      call := hCall
      acquire := fun _ => repeating_self _
      writeSlot := fun _ _ => repeating_self _
      readSlots := fun _ _ => repeating_self _
      writeSlots := fun _ _ _ => repeating_self _ }
  exact (Routine.run_compared hMachines a.routine args h).2

/-- **An evaluation that succeeds although host functions fail** does the same with any others. -/
theorem hosted_of_mute (host : Host) (h : hosted .mute (limit + 1) a args s = .ok xs t) :
    hosted host (limit + 1) a args s = .ok xs t := by
  have hArgs := length_of_hosted h
  have hOpen (host : Host) : hosted host (limit + 1) a args s =
      followedBy (runRoutine a ((s.changeDepth a.home (· + 1)).workshop a.home).inst.depth
        (callDeed host (hosted host limit) a) (args.map single)) (changeDepth a.home (· - 1))
        (s.changeDepth a.home (· + 1)) :=
    evaluateWith_of_length hArgs (callDeed host (hosted host limit) a) s
  rw [hOpen] at h ⊢
  unfold followedBy runRoutine at h ⊢
  generalize hRun : a.routine.run _ _ (⟨s.changeDepth a.home (· + 1), .shared⟩ : World) = out at h
  cases out with
  | error e w => cases h
  | ok u w =>
    rw [run_of_mute hRun]
    exact h

/-! ## From the host to the source -/

section

variable {n : String} (hTail : IsNameTail n) (hLower : IsLowerCase n) {i : Instance}
  (hAt : s.instance? number = some i) (hSound : s.Sound)
include hTail hLower hAt hSound

/-- **A source reads what the host has set.** -/
theorem source_reads_host {vs : List Float} {s₁ : Session}
    (hSet : onInstance number (onTenant (Tenant.setValues n vs)) s = .ok () s₁)
    (hSource : r.source = "v." ++ n) :
    (r.context.length ≤ maxContextValues → (s₁.workshop number).books.Unlimited →
      ∃ a s₂, onInstance number (compile number r) s₁ = .ok a s₂) ∧
    ∀ {a : Artifact} {s₂ : Session}, onInstance number (compile number r) s₁ = .ok a s₂ →
      ∀ (host : Host) (limit : Nat) {args : List Float}, args.length = r.context.length →
        s₂.Unhindered number →
        ∃ s₃, hosted host (limit + 1) a args s₂ = .ok (vs.map single) s₃ := by
  have hSound₁ : s₁.Sound := ((onInstance_keeps hAt (onTenant_keeps
    (Tenant.setValues_keeps n vs _))).of_ok hSound hSet).1
  -- the variable that holds the values
  obtain ⟨i₁, hAt₁, v, hFound, hSize, hRead⟩ : ∃ i₁, s₁.instance? number = some i₁ ∧
      ∃ v, i₁.space.find? n = some v ∧ v.size = vs.length ∧ i₁.space.read v = vs.map single := by
    obtain ⟨w, hRun, rfl⟩ := onPart_eq_ok.mp hSet
    obtain ⟨t, hTenant, rfl⟩ := onPart_eq_ok.mp hRun
    refine ⟨((s.workshop number).setTenant t).inst, ?_,
      Tenant.setValues_sets hTail.plain hTail.ne_empty (hSound.workshop hAt) hTenant⟩
    rw [instance?_setWorkshop, if_pos rfl, hAt]
    rfl
  have hInst₁ : (s₁.workshop number).inst = i₁ := workshop_inst hAt₁
  have hSpace₁ := hSound₁.workshop hAt₁
  have hFound₁ : (s₁.workshop number).inst.space.find? n = some v := by
    rw [hInst₁]
    exact hFound
  constructor
  · intro hContext hUnlimited
    obtain ⟨a, w, hRun⟩ := compile_variable_succeeds hTail hLower hSource hFound₁ hSpace₁
      hUnlimited hContext number
    exact ⟨a, s₁.setWorkshop number w, onPart_of_ok hRun⟩
  · intro a s₂ hCompile host limit args hArgs hFree
    obtain ⟨hSound₂, -, hHoused⟩ := (compile_keeps hAt₁ r).of_ok hSound₁ hCompile
    obtain ⟨hRun, hAt₂, p, w₁, d, hCompiled⟩ := compiled_of_compile hAt₁ hSound₁ hCompile
    obtain ⟨hRenders, hSame⟩ := compile_variable hTail hLower hSource hFound₁ hSpace₁ hRun
    obtain ⟨i₂, hAt₂', hFree⟩ := hFree
    cases hAt₂.symm.trans hAt₂'
    obtain rfl : a.home = number := hCompiled.home
    have hDenotes :=
      hosted_denotes (mute_impartial a.home) limit hRenders trivial hSound₂ hHoused hAt₂
      hFree (hArgs.trans hCompiled.args.symm)
    have hValues : ((s₂.entered a.home).workshop a.home).inst.space.read v = vs.map single := by
      rw [space_entered hAt₂, hSame, hInst₁]
      exact hRead
    rw [evaluate_variable hSize hValues] at hDenotes
    obtain ⟨ys, s₃, hHosted, rfl, -⟩ := hDenotes.of_ok_left
    exact ⟨s₃, hosted_of_mute host hHosted⟩

end

end Session

/-! ## From the source to the host -/

/-- Two artifacts on an instance, of which the one assigns to a variable what the other computes. -/
structure Artifact.Assigns (a : Artifact) (v : Variable) (b : Artifact) (e : Expr) (width : Int)
    (temps : Nat) (i : Instance) : Prop where
  assignment : a.Renders (.sequence [.assignVariable v e] width) temps i
  value : b.Renders e temps i
  applies : (Expr.sequence [.assignVariable v e] width).EachNode Expr.ConstantsApply
  valueApplies : e.EachNode Expr.ConstantsApply
  suits : a.Suits i
  valueSuits : b.Suits i
  size : v.size = e.width
  there : v ∈ i.space.records
  home : b.home = a.home
  args : b.args = a.args

theorem Artifact.Assigns.mono {b : Artifact} {i' : Instance} (h : a.Assigns v b e width temps i)
    (hLater : i.Precedes i') :
    a.Assigns v b e width temps i' :=
  { h with
    assignment := h.assignment.mono hLater.space.cursor hLater.buffer
    value := h.value.mono hLater.space.cursor hLater.buffer
    suits := h.suits.mono hLater.space.cursor hLater.buffer hLater.queries
    valueSuits := h.valueSuits.mono hLater.space.cursor hLater.buffer hLater.queries
    there := hLater.space.records.subset h.there }

namespace Session

variable {s : Session} {number : Nat}

/-- **The routine of an assignment and that of its right-hand side.**  Evaluating the one leaves in
the variable what evaluating the other returns. -/
theorem hosted_assignment {b : Artifact} (h : a.Assigns v b e width temps i) (hSound : s.Sound)
    (hAt : s.instance? a.home = some i)
    (hFree : i.depth = 0 ∨ (s.workshop a.home).books.ledger = none) (hHost : host.Impartial a.home)
    {limit : Nat} {args : List Float} {t : Session}
    (hRun : hosted host (limit + 1) a args s = .ok ys t) :
    ∃ xs t', hosted host (limit + 1) b args s = .ok xs t' ∧
      (t.workshop a.home).inst.space.read v = xs := by
  have hCount := length_of_hosted hRun
  obtain ⟨slots, -, -, hStmt⟩ := h.assignment.tree
  have hWF : e.WellFormed ⟨a.args, temps, slots⟩ := (hStmt _ (List.mem_singleton.mpr rfl)).2
  -- the assignment does what its tree means, so its right-hand side has values
  have hAssign := hosted_denotes hHost limit h.assignment h.applies hSound
    ⟨i, hAt, h.suits⟩ hAt hFree hCount
  rw [hRun] at hAssign
  obtain ⟨_, w, hTree, -, -, hSame⟩ := hAssign.of_ok_right
  obtain ⟨xs, w', hValue, hRead⟩ := evaluate_assignment hWF h.size hTree
  -- the other routine has the same values, whichever of the two the host functions are called by
  have hAt' : s.instance? b.home = some i := h.home ▸ hAt
  have hHoused : s.Houses b := ⟨i, hAt', h.valueSuits⟩
  have hOther := hosted_denotes (h.home ▸ hHost) limit h.value h.valueApplies hSound hHoused hAt'
    (h.home ▸ hFree) (hCount.trans h.args.symm)
  rw [callDeed_eq hHost _ h.home, h.home, hValue] at hOther
  obtain ⟨_, t', hRun', rfl, hLength, hSame'⟩ := hOther.of_ok_left
  refine ⟨_, t', hRun', ?_⟩
  -- the variable is still there after the calls of host functions
  obtain ⟨hSound', hGrows, -⟩ := (hosted_keeps host (limit + 1) args hHoused).of_ok hSound hRun'
  obtain ⟨i', hThere, hMore⟩ := hGrows.some hAt
  have hMem : v ∈ i'.space.records := hMore.space.records.subset h.there
  have hStop : v.stop ≤ ((variablesOf a.home).get w').size := by
    show v.stop ≤ (w'.workshop a.home).inst.space.store.size
    rw [← hSame', workshop_inst hThere]
    exact (hSound'.spaces hThere).stop_le_size hMem
  rw [hSame]
  refine hRead ((hSound'.spaces hThere).sized v hMem).1 hStop ?_
  rw [hLength, h.value.returns, ← h.size, Int.toNat_natCast]

section

variable {n : String} (hTail : IsNameTail n) (hLower : IsLowerCase n) {i₀ : Instance}
  {s₀ s₁ s₂ : Session} (hAt₀ : s₀.instance? number = some i₀) (hSound : s₀.Sound)
  (hObeys : i₀.Obeys .fitting) {e : String} (hOne : ';' ∉ e.toList) {context : List String}
  {constants : List (String × List Float)} {a b : Artifact}
  (hAssign : onInstance number (compile number ⟨"v." ++ n ++ " = " ++ e, context, constants⟩)
    s₀ = .ok a s₁)
  (hValue : onInstance number (compile number ⟨e, context, constants⟩) s₁ = .ok b s₂)
include hTail hLower hAt₀ hSound hObeys hOne hAssign hValue

/-- **Compiling an assignment and its right-hand side** makes two artifacts of which the one assigns
what the other computes. -/
theorem assigns_of_compile {i₂ : Instance} (hAt₂ : s₂.instance? number = some i₂) :
    ∃ v e' width temps, a.Assigns v b e' width temps i₂ ∧ i₂.space.find? n = some v ∧
      a.home = number ∧ i₂.queries = i₀.queries := by
  obtain ⟨hRun, hAt₁, p, w, d, ha⟩ := compiled_of_compile hAt₀ hSound hAssign
  obtain ⟨hSound₁, -, -⟩ := (compile_keeps hAt₀ _).of_ok hSound hAssign
  obtain ⟨hRun', hAt₂', q, w', d', hb⟩ := compiled_of_compile hAt₁ hSound₁ hValue
  obtain rfl : (s₂.workshop number).inst = i₂ := Option.some.inj (hAt₂'.symm.trans hAt₂)
  have hInst₀ : (s₀.workshop number).inst = i₀ := workshop_inst hAt₀
  have hSpace₀ := hSound.workshop hAt₀
  have hObeys₀ : (s₀.workshop number).inst.Obeys .fitting := by
    rw [hInst₀]
    exact hObeys
  have hQueries := (inst_of_compile hRun ha.read).2.1
  have hObeys₁ : (s₁.workshop number).inst.Obeys .fitting := by
    unfold Instance.Obeys
    rw [hQueries]
    exact hObeys₀
  -- the assignment is read again where its right-hand side is read
  have hAgain := read_after_compile hObeys₀.templateless hRun ha.read
  obtain ⟨v, width, rfl, hSize, hFound⟩ :=
    read_assignment hTail hLower hOne hAgain hb.read
  obtain ⟨hRenders, hCalls⟩ := ha.renders hSpace₀ hObeys₀
  obtain ⟨hRenders', hCalls'⟩ := hb.renders (hSound₁.spaces hAt₁) hObeys₁
  obtain ⟨-, hGrows₂, -⟩ := (compile_keeps hAt₁ _).of_ok hSound₁ hValue
  obtain ⟨i', hi', hMore⟩ := hGrows₂.some hAt₁
  cases hAt₂'.symm.trans hi'
  have hFound₂ : (s₂.workshop number).inst.space.find? n = some v := by
    rw [(inst_of_compile hRun' hb.read).1]
    exact (read_resolves hb.read).2.1 hObeys₁.templateless n v hTail.plain hFound
  have hQueries₂ : (s₂.workshop number).inst.queries = i₀.queries := by
    rw [hMore.queries, hQueries, hInst₀]
  refine ⟨v, q.1, width, q.2, ?_, hFound₂, ha.home, hQueries₂⟩
  exact { assignment := hRenders.mono hMore.space.cursor hMore.buffer
          value := hRenders'
          applies := Expr.constantsApply_of_fitting hCalls
          valueApplies := Expr.constantsApply_of_fitting hCalls'
          suits := (ha.suits hSpace₀).mono hMore.space.cursor hMore.buffer hMore.queries
          valueSuits := hb.suits (hSound₁.spaces hAt₁)
          size := hSize
          there := Namespace.mem_of_find? hFound₂
          home := hb.home.trans ha.home.symm
          args := hb.args.trans ha.args.symm }

/-- **The host finds what the source has assigned.** -/
theorem host_finds_source {i₂ : Instance} (hAt₂ : s₂.instance? number = some i₂)
    (hAt : s.instance? number = some i) (hLater : i₂.Precedes i) (hSound' : s.Sound)
    (hNumber : number < s.nextInstance)
    (hFree : i.depth = 0 ∨ (s.workshop number).books.ledger = none)
    (hName : i.space.find? n = i₂.space.find? n) (hHost : host.Impartial number) {limit : Nat}
    {args : List Float} {t : Session} (hRun : hosted host (limit + 1) a args s = .ok ys t) :
    ∃ xs t' t'', hosted host (limit + 1) b args s = .ok xs t' ∧
      onInstance number (onTenant (Tenant.values n)) t = .ok xs t'' := by
  obtain ⟨v, e', width, temps, hAssigns, hFound, rfl, hQueries⟩ :=
    assigns_of_compile hTail hLower hAt₀ hSound hObeys hOne hAssign hValue hAt₂
  have hAssigns' := hAssigns.mono hLater
  obtain ⟨xs, t', hRun', hRead⟩ := hosted_assignment hAssigns' hSound' hAt hFree hHost hRun
  -- whatever host functions have done, the name stands for the variable
  obtain ⟨-, hGrows, -⟩ :=
    (hosted_keeps host (limit + 1) args ⟨i, hAt, hAssigns'.suits⟩).of_ok hSound' hRun
  obtain ⟨j, hj, -⟩ := hGrows.some hAt
  have hSteps : Stepwise (naming a.home n True) := naming_stepwise hTail.plain
  obtain ⟨-, hNamed, -⟩ := (hSteps.hosted_keeps host (limit + 1) a args s).of_ok hNumber hRun
  obtain ⟨i', hi', hFollows⟩ := hNamed j hj
  cases hAt.symm.trans hi'
  have hCalm : i.Templateless := by
    unfold Instance.Templateless
    rw [show i.queries = i₀.queries from hLater.queries.trans hQueries]
    exact hObeys.templateless
  have hStill : (t.workshop a.home).inst.space.find? n = some v := by
    rw [workshop_inst hj]
    exact hFollows.space.finds ⟨trivial, hCalm⟩ v (hName.trans hFound)
  have hValues : Tenant.values n (t.workshop a.home).tenant =
      .ok xs (t.workshop a.home).tenant := by
    rw [Tenant.values_of_found hStill]
    exact congrArg (EStateM.Result.ok · _) hRead
  exact ⟨xs, t', _, hRun', onPart_of_ok (onTenant_of_ok hValues)⟩

end

/-! ## Both directions -/

/-- A sound session in which the numbers of instances are handed out in their order. -/
structure InOrder (s : Session) : Prop where
  sound : s.Sound
  numbers : ∀ {n i}, s.instance? n = some i → n < s.nextInstance

theorem Reached.inOrder (h : s.Reached) : s.InOrder :=
  ⟨h.atRest.sound, h.atRest.numbers⟩

theorem InOrder.compile {s' : Session} (h : s.InOrder) (hAt : s.instance? number = some i)
    (hCompile : onInstance number (compile number r) s = .ok a s') : s'.InOrder := by
  obtain ⟨hSound, hGrows, -⟩ := (compile_keeps hAt r).of_ok h.sound hCompile
  refine ⟨hSound, fun hi' => ?_⟩
  obtain ⟨j, hj, -⟩ := hGrows.back hi'
  rw [hGrows.next]
  exact h.numbers hj

end Session

open Session

/-- **Hosts and sources share their variables.**  Let `n` be the tail of a name in a source, in
lower case.

If a host sets `n` to some values, then `v.n` can be compiled as long as bytes are not limited, and
evaluating it returns these values in single precision.

Let `e` be an expression, let host functions be impartial, and let the instance have no templates
and no helpers with a wrong number of arguments.  If `v.n = e` and `e` have been compiled one after
the other, and at some later moment, when `n` still stands for the same variable, the assignment is
evaluated without an error, then evaluating `e` instead would return values as well, and these are
what the host finds under `n` afterwards.

Evaluations are those that nothing hinders. -/
theorem host_and_source_share_variables {s₀ : Session} (hOrder : s₀.InOrder) {number : Nat}
    {i₀ : Instance} (hAt : s₀.instance? number = some i₀) {n : String} (hTail : IsNameTail n)
    (hLower : IsLowerCase n) (host : Host) (limit : Nat) :
    (∀ (values : List Float) (s₁ : Session) (r : Request), r.source = "v." ++ n →
      onInstance number (Workshop.onTenant (Tenant.setValues n values)) s₀ = .ok () s₁ →
      (r.context.length ≤ maxContextValues → (s₁.workshop number).books.Unlimited →
        ∃ a s₂, onInstance number (Workshop.compile number r) s₁ = .ok a s₂) ∧
      ∀ (a : Artifact) (s₂ : Session) (args : List Float),
        onInstance number (Workshop.compile number r) s₁ = .ok a s₂ → s₂.Unhindered number →
        args.length = r.context.length →
        ∃ s₃, hosted host (limit + 1) a args s₂ = .ok (values.map single) s₃) ∧
    ∀ (e : String) (context : List String) (constants : List (String × List Float))
      (a b : Artifact) (s₁ s₂ s t : Session) (i₂ i : Instance) (args ys : List Float),
      host.Impartial number → i₀.Obeys .fitting → ';' ∉ e.toList →
      onInstance number (Workshop.compile number ⟨"v." ++ n ++ " = " ++ e, context, constants⟩) s₀ =
        .ok a s₁ →
      onInstance number (Workshop.compile number ⟨e, context, constants⟩) s₁ = .ok b s₂ →
      s₂.instance? number = some i₂ → s.instance? number = some i → i₂.Precedes i →
      i.space.find? n = i₂.space.find? n → s.InOrder → s.Unhindered number →
      hosted host (limit + 1) a args s = .ok ys t →
      ∃ xs t' t'', hosted host (limit + 1) b args s = .ok xs t' ∧
        onInstance number (Workshop.onTenant (Tenant.values n)) t = .ok xs t'' := by
  constructor
  · intro values s₁ r hSource hSet
    obtain ⟨hCompiles, hReads⟩ := source_reads_host hTail hLower hAt hOrder.sound hSet hSource
    exact ⟨hCompiles, fun a s₂ args hCompile hFree hArgs =>
      hReads hCompile host limit hArgs hFree⟩
  · intro e context constants a b s₁ s₂ s t i₂ i args ys hHost hObeys hOne hAssign hValue hAt₂ hAt'
      hLater hName hOrder' hFree hRun
    obtain ⟨j, hj, hFree⟩ := hFree
    cases hAt'.symm.trans hj
    exact host_finds_source hTail hLower hAt hOrder.sound hObeys hOne hAssign hValue hAt₂
      hAt' hLater hOrder'.sound (hOrder'.numbers hAt') hFree hName hHost hRun

theorem Query.Obeys.fitting {q : Query} (h : q.Obeys .plain) : q.Obeys .fitting := by
  cases q with
  | host function arity width => trivial
  | template | helper => exact h
  | constant vs => trivial
  | clamp => exact h
  | lerp => trivial

/-- Two numbers, one of which is not exact in single precision. -/
def thirdAndBound : String := "[c.x / 3, math.clamp(c.x, 0, 2)]"

/-- A pair is set by the host and read by a source, and assigned by a source and found by the host.
-/
theorem pair_is_shared : defaultSession.InOrder ∧ IsNameTail "pos.x2" ∧ IsLowerCase "pos.x2" ∧
    Host.mute.Impartial 0 ∧
    (∃ s₁ a s₂ s₃, onInstance 0 (Workshop.onTenant (Tenant.setValues "pos.x2" [0.1, 2]))
        defaultSession = .ok () s₁ ∧
      onInstance 0 (Workshop.compile 0 ⟨"v.pos.x2", [], []⟩) s₁ = .ok a s₂ ∧ s₂.Unhindered 0 ∧
      hosted .mute 256 a [] s₂ = .ok [single 0.1, single 2] s₃) ∧
    ∃ a s₁ b s₂ ys t xs t' t'',
      onInstance 0 (Workshop.compile 0 ⟨"v." ++ "pos.x2" ++ " = " ++ thirdAndBound, ["x"], []⟩)
        defaultSession = .ok a s₁ ∧
      onInstance 0 (Workshop.compile 0 ⟨thirdAndBound, ["x"], []⟩) s₁ = .ok b s₂ ∧
      s₂.Unhindered 0 ∧ hosted .mute 256 a [1] s₂ = .ok ys t ∧
      hosted .mute 256 b [1] s₂ = .ok xs t' ∧
      onInstance 0 (Workshop.onTenant (Tenant.values "pos.x2")) t = .ok xs t'' := by
  have hOrder : defaultSession.InOrder := (Session.reached_obeyAll "a" _ _).inOrder
  have hAt : defaultSession.instance? 0 = some (.fresh Query.defaults [] false) := rfl
  have hObeys : (Instance.fresh Query.defaults [] false).Obeys .fitting :=
    fun q hq => Query.Obeys.fitting (Query.Plain.obeys (.inl (Query.mem_table hq)))
  have hTail : IsNameTail "pos.x2" := by decide
  have hLower : IsLowerCase "pos.x2" := by decide
  have hHost := mute_impartial 0
  have hFree {s : Session} (h : (s.instance? 0).any (·.depth == 0) = true) : s.Unhindered 0 := by
    obtain ⟨i, hi, hDepth⟩ := (Option.any_eq_true _ _).mp h
    exact ⟨i, hi, .inl (beq_iff_eq.mp hDepth)⟩
  obtain ⟨hReads, hFinds⟩ := host_and_source_share_variables hOrder hAt hTail hLower .mute 255
  refine ⟨hOrder, hTail, hLower, hHost, ?_, ?_⟩
  · have hSet : Outcome.passes (fun _ s₁ => Outcome.passes
          (fun _ s₂ => (s₂.instance? 0).any (·.depth == 0))
          (onInstance 0 (Workshop.compile 0 ⟨"v.pos.x2", [], []⟩) s₁))
        (onInstance 0 (Workshop.onTenant (Tenant.setValues "pos.x2" [0.1, 2])) defaultSession) =
          true := by decide +kernel
    obtain ⟨_, s₁, hRun, hSet⟩ := Outcome.of_passes hSet
    obtain ⟨a, s₂, hCompile, hSet⟩ := Outcome.of_passes hSet
    obtain ⟨s₃, hValues⟩ := (hReads [0.1, 2] s₁ ⟨"v.pos.x2", [], []⟩ rfl hRun).2 a s₂ [] hCompile
      (hFree hSet) rfl
    exact ⟨s₁, a, s₂, s₃, hRun, hCompile, hFree hSet, hValues⟩
  · have hAssign : Outcome.passes (fun a s₁ => Outcome.passes
          (fun _ s₂ => Outcome.passes (fun _ _ => (s₂.instance? 0).any (·.depth == 0))
            (hosted .mute 256 a [1] s₂))
          (onInstance 0 (Workshop.compile 0 ⟨thirdAndBound, ["x"], []⟩) s₁))
        (onInstance 0 (Workshop.compile 0 ⟨"v." ++ "pos.x2" ++ " = " ++ thirdAndBound, ["x"], []⟩)
          defaultSession) = true := by decide +kernel
    obtain ⟨a, s₁, hCompile, hAssign⟩ := Outcome.of_passes hAssign
    obtain ⟨b, s₂, hCompile', hAssign⟩ := Outcome.of_passes hAssign
    obtain ⟨ys, t, hRun, hAssign⟩ := Outcome.of_passes hAssign
    obtain ⟨i₂, hi₂, -⟩ := hFree hAssign
    have hOrder₁ := hOrder.compile hAt hCompile
    obtain ⟨i₁, hi₁⟩ : ∃ i₁, s₁.instance? 0 = some i₁ :=
      ⟨_, (compiled_of_compile hAt hOrder.sound hCompile).2.1⟩
    obtain ⟨xs, t', t'', hValue, hFound⟩ := hFinds thirdAndBound ["x"] [] a b s₁ s₂ s₂ t i₂ i₂
      [1] ys hHost hObeys (by decide) hCompile hCompile' hi₂ hi₂ (.refl i₂) rfl
      (hOrder₁.compile hi₁ hCompile') (hFree hAssign) hRun
    exact ⟨a, s₁, b, s₂, ys, t, xs, t', t'', hCompile, hCompile', hFree hAssign, hRun, hValue,
      hFound⟩

/-- What `v.n` returns after the host has set `n`, and what the host finds under `n` then. -/
def readBack (number : Nat) (n : String) (values : List Float) :
    Act Session (List Float × List Float) := do
  onInstance number (Workshop.onTenant (Tenant.setValues n values))
  let a ← onInstance number (Workshop.compile number ⟨"v." ++ n, [], []⟩)
  let xs ← hosted .mute 256 a []
  let ys ← onInstance number (Workshop.onTenant (Tenant.values n))
  return (xs, ys)

/-- What `e` returns, and what the host finds under `n` if `v.n = e` is evaluated instead. -/
def assignInstead (number : Nat) (n e : String) : Act Session (List Float × List Float) := do
  let a ← onInstance number (Workshop.compile number ⟨"v." ++ n ++ " = " ++ e, [], []⟩)
  let b ← onInstance number (Workshop.compile number ⟨e, [], []⟩)
  let s ← get
  let xs ← hosted .mute 256 b []
  set s
  let _ ← hosted .mute 256 a []
  let ys ← onInstance number (Workshop.onTenant (Tenant.values n))
  return (xs, ys)

/-- A template that chooses between two values and one, on an instance with numbers in its buffer.
-/
def unevenChoice : Session :=
  (Session.start none).obeyAll .mute "a"
    [.create "a" ⟨some [("q.m", .template none none
        (.ternary (.constant [0]) (.constant [1, 2]) (.constant [5])))], false, [], false, false⟩,
      .task "a" (.run ⟨"[10, 20, 30, 40]", [], []⟩ [])]

/-- **Capital letters and templates keep hosts and sources apart.**  A source never reads the
variable that a host calls by a name with a capital letter, but makes another one.  And a choice of
one value where two are announced leaves the second one to what happens to be in the buffer, which
is not the same for an assignment and for its right-hand side. -/
theorem capitals_and_templates_keep_apart :
    (IsNameTail "Foo" ∧ ∃ xs ys s', readBack 0 "Foo" [5] defaultSession = .ok (xs, ys) s' ∧
      (xs == [0]) = true ∧ (ys == [5]) = true) ∧
    (IsNameTail "n" ∧ IsLowerCase "n" ∧ ∃ xs ys s',
      assignInstead 0 "n" "q.m()" unevenChoice = .ok (xs, ys) s' ∧
      (xs == [5, 20]) = true ∧ (ys == [5, 30]) = true) := by
  have hEnds {act : Act Session (List Float × List Float)} {s : Session} {us vs : List Float}
      (h : Outcome.passes (fun p _ => p.1 == us && p.2 == vs) (act s) = true) :
      ∃ xs ys s', act s = .ok (xs, ys) s' ∧ (xs == us) = true ∧ (ys == vs) = true := by
    obtain ⟨p, s', hRun, hSame⟩ := Outcome.of_passes h
    exact ⟨p.1, p.2, s', hRun, Bool.and_eq_true_iff.mp hSame⟩
  exact ⟨⟨by decide, hEnds (by decide +kernel)⟩, by decide, by decide, hEnds (by decide +kernel)⟩

end MolangCompiler
