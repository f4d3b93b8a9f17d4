import MolangCompiler.Proofs.Preservation

/-!
# Operands and constants

The codes of operands are evaluated behind the lines of all of them, so an operand is kept in a
fresh local if lines of later operands follow it.  Then the lines and codes of all operands do what
evaluating one operand after the other does (`operands_are_evaluated_in_order`).

A constant needs no local.  It is written without lines, its code reads nothing, and its value is
the same everywhere; so operands do the same whether constants among them are kept in locals or not,
and a constant statement can be left out (`constants_need_no_place`).
-/

namespace MolangCompiler

open Emission MolangCompiler.Expr MolangCompiler.Part

/-! ## Operands that are kept -/

namespace Part

/-- A part whose value is kept in a local behind its own steps. -/
def keptIn (index : Nat) (p : Part) : Part :=
  ⟨p.constant, p.steps ++ [.act (.setLocal index p.code)], .readLocal index⟩

/-- **The parts that are set aside** are those that are not constant and that steps of a later part
follow; they are kept in locals that were free. -/
theorem getElem?_setAside {ps : List Part} {i : Nat} {p : Part} (h : ps[i]? = some p)
    (l : Layout) : ∃ k, l.nextLocal ≤ k ∧ (setAside ps l).1[i]? =
      some (if !p.constant && !(stepsOf (ps.drop (i + 1))).isEmpty then p.keptIn k else p) := by
  induction ps generalizing i with
  | nil => cases h
  | cons q rest ih =>
    cases i with
    | zero =>
      cases h
      refine ⟨_, (Layout.Grows.setAside rest l).nextLocal, ?_⟩
      simp only [setAside, List.drop_succ_cons, List.drop_zero]
      split <;> rfl
    | succ i =>
      obtain ⟨k, hFree, hPart⟩ := ih h
      refine ⟨k, hFree, ?_⟩
      rw [List.drop_succ_cons, ← hPart, setAside]
      split <;> rfl

end Part

/-- A helper that is applied to too few constants, and behind it a choice that calls a function. -/
def misappliedOperands : List Expr :=
  [.helperCall .min [.constant [1]], .ternary (.hostCall "f" [] 1) (.constant [1]) (.constant [0])]

section

variable {ω : Type} (h : Surroundings ω) {b : Bounds} (hSpans : h.Spans b.slots)

/-- **Operands are evaluated in order.**  Writing them adds lines behind those that are there, and
running these lines and then evaluating the codes does what evaluating the first operand, then the
second one and so on does, with the same accesses in the same order.  Each operand is written as it
would be alone, but for those that are kept in a local: they are the ones that are not constant and
that lines of a later operand follow. -/
theorem operands_are_evaluated_in_order {es : List Expr}
    (hWF : EachOf (fun e => e.Fits b ∧ e.Delivers) es) (hApply : EachOf ConstantsApply es)
    (hWidth : ∀ e ∈ es, e.width = 1) (d : Draft) (hFresh : b.firstFresh ≤ d.layout.nextLocal) :
    ∃ alone kept l l', WritesParts (emissions es) d.layout alone l ∧
      operands (emissions es) d = .ok (codesOf kept) ⟨⟨d.listing.lines ++
        Step.listing d.listing.level (stepsOf kept), d.listing.level⟩, l'⟩ ∧
      (∀ i p, alone[i]? = some p → ∃ k, d.layout.nextLocal ≤ k ∧ kept[i]? =
        some (if !p.constant && !(stepsOf (alone.drop (i + 1))).isEmpty then p.keptIn k else p)) ∧
      ∀ room buffer, (h.recording.service hSpans.recording room).Matches b.firstFresh buffer
        (valueAll h.recording es) (runAll h.recording.withBuffer kept) := by
  have hParts := writes_parts es hWF.fits hWidth d.layout
  refine ⟨_, _, _, _, hParts, operands_writes hParts d rfl, fun i p hp => ?_, fun room buffer => ?_⟩
  · obtain ⟨k, hFree, hKept⟩ := getElem?_setAside hp (parts es d.layout).2
    exact ⟨k, Nat.le_trans (grows_parts es d.layout).nextLocal hFree, hKept⟩
  · exact Service.operands_match (Nat.le_refl _) buffer es hWF hApply hWidth d.layout hFresh

end

/-- A call, and behind it a choice, which has lines of its own. -/
def callAndChoice : List Expr :=
  [.hostCall "f" [] 1, .ternary (.localRead 0 "c") (.constant [1]) (.constant [0])]

theorem call_before_choice_is_kept :
    ∃ alone kept l l', WritesParts (emissions callAndChoice) (Routine.draft 1 0).layout alone l ∧
      operands (emissions callAndChoice) (Routine.draft 1 0) =
        .ok (codesOf kept) ⟨⟨Step.listing 0 (stepsOf kept), 0⟩, l'⟩ := by
  obtain ⟨alone, kept, l, l', hAlone, hKept, -⟩ := operands_are_evaluated_in_order
    stillSurroundings (b := ⟨1, 0, 0⟩) (stillSurroundings_spans 0)
    (show EachOf _ callAndChoice by simp [callAndChoice, EachOf, Each, Fits, Delivers, Expr.width,
      Bounds.Names, Bounds.firstFresh]) (by simp [callAndChoice, EachOf, Each, ConstantsApply])
    (by simp [callAndChoice, Expr.width]) (Routine.draft 1 0) (Nat.le_refl 2)
  exact ⟨alone, kept, l, l', hAlone, hKept⟩

/-- Without a condition on helpers that are applied to constants, operands would not be evaluated in
order: the call is made although an operand before it fails. -/
theorem misapplied_operand_is_late :
    ¬ ∀ es : List Expr, EachOf (fun e => e.Fits ⟨0, 0, 0⟩ ∧ e.Delivers) es →
      (∀ e ∈ es, e.width = 1) → ∀ kept l,
        operands (emissions es) (Routine.draft 0 0) =
          .ok (codesOf kept) ((Routine.draft 0 0).extend (stepsOf kept) l) →
        (stillSurroundings.recording.service (stillSurroundings_spans 0).recording 0).Matches 1
          (fun _ => 0) (valueAll stillSurroundings.recording es)
          (runAll stillSurroundings.recording.withBuffer kept) := by
  intro hAll
  have hWF : EachOf (fun e => e.Fits ⟨0, 0, 0⟩ ∧ e.Delivers) misappliedOperands := by
    simp [misappliedOperands, EachOf, Each, Fits, Delivers, Expr.width]
  have hWidth : ∀ e ∈ misappliedOperands, e.width = 1 := by simp [misappliedOperands, Expr.width]
  have hMatch := hAll misappliedOperands hWF hWidth _ _
    (operands_writes (writes_parts _ hWF.fits hWidth _) (Routine.draft 0 0) rfl)
    ⟨fun _ => none, (), []⟩ ⟨fun _ => none, ((), []), #[]⟩
    ⟨⟨rfl, Nat.zero_le _⟩, fun _ _ => rfl, fun _ hj => absurd hj (Nat.not_lt_zero _)⟩
  have hTree : valueAll stillSurroundings.recording misappliedOperands ⟨fun _ => none, (), []⟩ =
      .error (.run (.helperArguments "_min" 1)) ⟨fun _ => none, (), []⟩ := rfl
  rw [hTree] at hMatch
  generalize hRun : runAll _ _ _ = out at hMatch
  cases hMatch with
  | error hWorld =>
    cases hRun
    cases hWorld.1

/-! ## Constants -/

mutual

/-- Code that reads no local and no variable and calls no host function. -/
def Code.Closed : Code → Prop
  | .literal _ => True
  | .readLocal _ | .readVariable _ | .call _ _ => False
  | .negate operand | .not operand => operand.Closed
  | .binary _ left right => left.Closed ∧ right.Closed
  | .helper _ args => AllClosed args

def Code.AllClosed : List Code → Prop
  | [] => True
  | c :: rest => c.Closed ∧ AllClosed rest

end

/-- Whether constants are spared from being kept in locals. -/
def Emission.sparing (spare : Bool) (em : Emission) : Emission :=
  { em with constant := em.constant && spare }

def Part.sparing (spare : Bool) (p : Part) : Part := { p with constant := p.constant && spare }

mutual

theorem Expr.closed_part : ∀ (e : Expr) (l : Layout), e.isConstant = true →
    (e.part l).1.steps = [] ∧ (e.part l).1.code.Closed ∧ (e.part l).2 = l
  | .constant _, _, _ => ⟨rfl, trivial, rfl⟩
  | .binary op left right, l, hConst => by
    obtain ⟨hLeft, hRight⟩ := (Bool.and_eq_true _ _).mp hConst
    obtain ⟨hSteps, hCode, hLayout⟩ := closed_part left l hLeft
    obtain ⟨hSteps', hCode', hLayout'⟩ := closed_part right (left.part l).2 hRight
    have hNone : stepsOf [(left.part l).1, (right.part (left.part l).2).1] = [] := by
      simp [stepsOf, hSteps, hSteps']
    simp only [part, setAside_of_noSteps hNone]
    exact ⟨hNone, ⟨hCode, hCode'⟩, hLayout'.trans hLayout⟩
  | .vector es, l, hConst => by
    obtain ⟨hNone, hCodes, hLayout⟩ := closed_parts es l hConst
    simp only [part]
    split
    next p hOne =>
      rw [hOne] at hNone hCodes
      exact ⟨by simpa [stepsOf] using hNone, hCodes.1, hLayout⟩
    next => exact ⟨rfl, trivial, rfl⟩
  | .helperCall helper args, l, hConst => by
    obtain ⟨hNone, hCodes, hLayout⟩ := closed_parts args l hConst
    simp only [part, setAside_of_noSteps hNone]
    exact ⟨hNone, hCodes, hLayout⟩

theorem Expr.closed_parts : ∀ (es : List Expr) (l : Layout), allConstant es = true →
    stepsOf (parts es l).1 = [] ∧ Code.AllClosed (codesOf (parts es l).1) ∧ (parts es l).2 = l
  | [], _, _ => ⟨rfl, trivial, rfl⟩
  | e :: rest, l, hConst => by
    obtain ⟨hFirst, hRest⟩ := (Bool.and_eq_true _ _).mp hConst
    obtain ⟨hSteps, hCode, hLayout⟩ := closed_part e l hFirst
    obtain ⟨hNone, hCodes, hLayout'⟩ := closed_parts rest (e.part l).2 hRest
    exact ⟨List.append_eq_nil_iff.mpr ⟨hSteps, hNone⟩, ⟨hCode, hCodes⟩, hLayout'.trans hLayout⟩

end

theorem WritesParts.sparing (spare : Bool) {ems : List Emission} {l l' : Layout} {ps : List Part}
    (h : WritesParts ems l ps l') :
    WritesParts (ems.map (·.sparing spare)) l (ps.map (·.sparing spare)) l' := by
  induction h with
  | nil l => exact .nil l
  | cons hConst hFirst _ ih => exact .cons (congrArg (· && spare) hConst) hFirst ih

section

variable {ω σ : Type} {h : Surroundings ω} {m : Machine σ} {b : Bounds}

/-- Operands do the same whether constants are kept in locals or not. -/
theorem Service.operands_sparing {slots room : Nat} {S : Service h m slots room}
    (hSlots : b.slots ≤ slots) (buffer : Nat → Float) (spare : Bool) {es : List Expr}
    (hWF : EachOf (fun e => e.Fits b ∧ e.Delivers) es) (hApply : EachOf ConstantsApply es)
    (hWidth : ∀ e ∈ es, e.width = 1) {l : Layout} (hl : b.firstFresh ≤ l.nextLocal) :
    S.Matches b.firstFresh buffer (valueAll h es)
      (runAll m (setAside ((parts es l).1.map (·.sparing spare)) (parts es l).2).1) := by
  induction es generalizing l with
  | nil => exact .pure ⟨rfl, rfl⟩
  | cons e rest ih =>
    have hScalar := hWidth e List.mem_cons_self
    have hl₁ := Nat.le_trans hl (grows_part e l).nextLocal
    refine operands_cons (p := (e.part l).1.sparing spare)
      (Nat.le_trans hl₁ (grows_parts rest _).nextLocal) (within_part e hWF.1 l hl)
      (List.forall_mem_map.mpr (within_parts rest hWF.2 _ hl₁)) (fun hc => ?_)
      (part_matches hSlots buffer e hWF.1 hApply.1 hScalar l hl)
      (ih hWF.2 hApply.2 (fun e' he' => hWidth e' (List.mem_cons_of_mem e he')) hl₁)
    exact fixed_part h m e hWF.1 hApply.1 hScalar
      ((constant_part e l).symm.trans ((Bool.and_eq_true _ _).mp hc).1) l

theorem Expr.fixed_code {e : Expr} (hWF : e.WellFormed b) (hApply : e.Each ConstantsApply)
    (hWidth : e.width = 1) (hConst : e.isConstant = true) :
    ∃ v, ∀ l, ∃ code, code.Closed ∧ Writes e.emission.scalar l code [] l ∧
      ∀ {τ : Type} (m : Machine τ) (a : Activation τ), code.eval m a = .ok v a := by
  obtain ⟨v, hValue, -⟩ := fixed_part stillSurroundings stillSurroundings.withBuffer e hWF hApply
    hWidth hConst (.start 0 0 0)
  refine ⟨v, fun l => ?_⟩
  obtain ⟨hSteps, hClosed, hLayout⟩ := closed_part e l hConst
  have hWrites := writes_part e hWF.fits hWidth l
  rw [hSteps, hLayout] at hWrites
  refine ⟨_, hClosed, hWrites, fun m a => ?_⟩
  obtain ⟨v', hValue', -, hEval⟩ := fixed_part stillSurroundings m e hWF hApply hWidth hConst l
  have hSame := congrFun (hValue'.symm.trans hValue) ⟨fun _ => none, ()⟩
  injection hSame with hSame
  rw [hEval, hSame]
  rfl

theorem Stmt.executeAll_drop {e : Expr} {xs : List Float} (hValues : e.values h = pure xs)
    (before after : List Stmt) :
    executeAll h (before ++ .discard e :: after) = executeAll h (before ++ after) := by
  induction before with
  | nil =>
    have hTree : execute h (.discard e) = pure none := by
      show (e.values h >>= fun _ => pure none) = pure none
      rw [hValues, pure_bind]
    simp only [List.nil_append, executeAll, hTree, pure_bind]
  | cons s rest ih => simp only [List.cons_append, executeAll, ih]

end

theorem Stmt.emissions_drop {e : Expr} (hConst : e.isConstant = true) (before after : List Stmt) :
    (emissions (before ++ .discard e :: after)).forM id =
      ((emissions (before ++ after)).forM id : Writing Unit) := by
  induction before with
  | nil =>
    have hNone : emission (.discard e) = pure () := by
      show (if e.emission.constant then _ else _) = _
      rw [constant_emission, if_pos hConst]
    show (do emission (.discard e); (emissions after).forM id) = _
    rw [hNone, pure_bind]
    rfl
  | cons s rest ih => exact congrArg (fun next => do s.emission; next) ih

/-- **Constants need no place.**  A constant is written without lines and without a local, its code
reads nothing and calls nothing, and its value is the same in every state.  Operands do the same
whether the constants among them are kept in locals or not, and a program whose statements include a
constant is written as the same lines, and means the same, as the program without it. -/
theorem constants_need_no_place {ω : Type} (h : Surroundings ω) {b : Bounds}
    (hSpans : h.Spans b.slots) :
    (∀ e : Expr, e.WellFormed b → e.Each ConstantsApply → e.width = 1 → e.isConstant = true →
      ∃ v, ∀ l, ∃ code, code.Closed ∧ Writes e.emission.scalar l code [] l ∧
        ∀ {σ : Type} (m : Machine σ) (a : Activation σ), code.eval m a = .ok v a) ∧
    (∀ es : List Expr, EachOf (fun e => e.Fits b ∧ e.Delivers) es → EachOf ConstantsApply es →
      (∀ e ∈ es, e.width = 1) → ∀ (spare : Bool) (d : Draft), b.firstFresh ≤ d.layout.nextLocal →
      ∃ kept l, operands ((emissions es).map (·.sparing spare)) d =
          .ok (codesOf kept) (d.extend (stepsOf kept) l) ∧
        ∀ room buffer, (h.recording.service hSpans.recording room).Matches b.firstFresh buffer
          (valueAll h.recording es) (runAll h.recording.withBuffer kept)) ∧
    ∀ e : Expr, e.WellFormed b → e.Each ConstantsApply → e.isConstant = true →
      ∀ (before after : List Stmt) (width : Int) (name : String) (args temps : Nat),
        Routine.write name (.sequence (before ++ .discard e :: after) width) args temps =
          Routine.write name (.sequence (before ++ after) width) args temps ∧
        ∀ values, Expr.evaluate h.recording (.sequence (before ++ .discard e :: after) width)
          values temps = Expr.evaluate h.recording (.sequence (before ++ after) width)
          values temps :=
    by
  refine ⟨fun e hWF hApply hWidth hConst => ?_, fun es hWF hApply hWidth spare d hFresh => ?_,
    fun e hWF hApply hConst before after width name args temps => ⟨?_, fun values => ?_⟩⟩
  · exact fixed_code hWF hApply hWidth hConst
  · exact ⟨_, _, operands_writes ((writes_parts es hWF.fits hWidth d.layout).sparing spare) d rfl,
      fun room buffer => Service.operands_sparing (Nat.le_refl _) buffer spare hWF hApply hWidth
        hFresh⟩
  · simp only [Routine.write, Routine.writeBody, emission, Emission.sequence, Expr.width,
      Stmt.emissions_drop hConst]
  · obtain ⟨xs, hxs⟩ := fixed_values h.recording h.recording.withBuffer hWF hApply hConst
    have hSame : outcome h.recording (.sequence (before ++ .discard e :: after) width) =
        outcome h.recording (.sequence (before ++ after) width) := by
      simp only [outcome, Stmt.executeAll_drop hxs]
    unfold evaluate
    rw [hSame]

theorem constant_sum_needs_no_place :
    ∃ v, ∀ l, ∃ code, code.Closed ∧
      Writes (Expr.binary .add (.constant [1]) (.constant [2])).emission.scalar l code [] l ∧
      ∀ {σ : Type} (m : Machine σ) (a : Activation σ), code.eval m a = .ok v a :=
  (constants_need_no_place stillSurroundings (b := ⟨0, 0, 0⟩) (stillSurroundings_spans 0)).1 _
    (by simp [WellFormed, Each, Fits, Delivers, Expr.width])
    (by simp [Each, ConstantsApply]) rfl rfl

/-- A helper that is applied to too few constants cannot be left out. -/
theorem misapplied_constant_is_missed :
    ¬ ∀ e : Expr, e.WellFormed ⟨0, 0, 0⟩ → e.isConstant = true →
      ∀ (after : List Stmt) (width : Int),
      Expr.evaluate stillSurroundings (.sequence (.discard e :: after) width) [] 0 =
        Expr.evaluate stillSurroundings (.sequence after width) [] 0 := by
  intro hAll
  have hSame := congrFun (hAll (.helperCall .min [.constant [1]])
    (by simp [WellFormed, Each, EachOf, Fits, Delivers, Expr.width]) rfl
    [.ret (.constant [2])] 1) ()
  have hFails : Expr.evaluate stillSurroundings (.sequence [.discard (.helperCall .min
      [.constant [1]]), .ret (.constant [2])] 1) [] 0 () =
    .error (.run (.helperArguments "_min" 1)) () := rfl
  rw [hFails] at hSame
  cases hSame

end MolangCompiler
