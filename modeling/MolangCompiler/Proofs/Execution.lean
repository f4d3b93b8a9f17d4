import MolangCompiler.Proofs.Simulation

/-!
# Statements and whole routines

A statement that does not return leaves the result region open to later ones; a return fills it and
ends the routine.  Between statements nothing is claimed about the contents of the buffer, because
regions are used again.  The main result is `Service.run_outline`: running the routine of a source
leads to the same as evaluating the source itself.
-/

namespace MolangCompiler

open Stmt

open MolangCompiler.Expr

open Step

variable {b : Bounds} {e : Expr}

section

variable {ω σ : Type}

/-! ## Constants that are dropped -/

theorem Expr.fixed_valuesOfAll (h : Surroundings ω) (m : Machine σ) :
    ∀ es : List Expr, EachOf (fun e => e.Fits b ∧ e.Delivers) es →
    EachOf ConstantsApply es → (∀ e ∈ es, e.width = 1) → allConstant es = true →
    ∃ xs, valuesOfAll h es = pure xs
  | [], _, _, _, _ => ⟨[], rfl⟩
  | e :: rest, hWF, hApply, hWidth, hConst => by
    obtain ⟨hFirst, hRest⟩ := (Bool.and_eq_true _ _).mp hConst
    have hOne := hWidth e List.mem_cons_self
    obtain ⟨x, hx, _⟩ := fixed_part h m e hWF.1 hApply.1 hOne hFirst (.start 0 0 0)
    obtain ⟨xs, hxs⟩ := fixed_valuesOfAll h m rest hWF.2 hApply.2
      (fun e' he' => hWidth e' (List.mem_cons_of_mem e he')) hRest
    refine ⟨[single x] ++ xs, ?_⟩
    simp only [valuesOfAll, values_of_scalar h e hWF.1 hOne, hx, hxs, pure_bind]

theorem Expr.fixed_values (h : Surroundings ω) (m : Machine σ) (hWF : e.WellFormed b)
    (hApply : e.Each ConstantsApply) (hConst : e.isConstant = true) :
    ∃ xs, e.values h = pure xs := by
  have hScalar (hWidth : e.width = 1) : ∃ xs, e.values h = pure xs := by
    obtain ⟨x, hx, _⟩ := fixed_part h m e hWF hApply hWidth hConst (.start 0 0 0)
    refine ⟨[single x], ?_⟩
    rw [values_of_scalar h e hWF hWidth, hx, pure_bind]
  cases e with
  | constant xs => exact ⟨xs.map single, rfl⟩
  | vector elements => exact fixed_valuesOfAll h m elements hWF.2 hApply.2 hWF.1.1 hConst
  | binary | helperCall => exact hScalar rfl
  | _ => cases hConst

namespace Service

variable {h : Surroundings ω} {m : Machine σ} {slots room : Nat} {S : Service h m slots room}

/-! ## Statements -/

def Holds (buffer : Nat → Float) (slot : Nat) (xs : List Float) : Prop :=
  (List.range xs.length).map (fun j => buffer (slot + j)) = xs

/-- How a statement ends: it goes on, or it ends the routine with the values that it returns in the
result region. -/
def Returns (output : Nat) (width : Int) (result : Option (List Float)) (flow : Flow)
    (buffer : Nat → Float) : Prop :=
  match result with
  | none => flow = .goOn
  | some xs => flow = .ended ∧ (xs.length : Int) = width ∧ Holds buffer output xs

theorem leads_readSlots {α γ : Type} {n : Nat} {buf : Nat → Float}
    {P : α → γ → (Nat → Float) → Prop} {i size : Nat} (hRoom : i + size ≤ room)
    {x : Act (Activation ω) α} {g : Array Float → Act (Activation σ) γ}
    (hNext : S.Leads n buf P x (g ((List.range size).map fun j => buf (i + j)).toArray)) :
    S.Leads n buf P x (onWorld (m.readSlots i size) >>= g) := by
  refine .onBuffer (fun w s hRel hSlots => ?_) hNext
  obtain ⟨xs, hRun, hRead⟩ := S.readSlots hRel hRoom
  have hSame : xs = ((List.range size).map fun j => buf (i + j)).toArray := by
    apply Array.toList_inj.mp
    rw [hRead]
    refine List.map_congr_left fun j hj => hSlots _ ?_
    have hLt := List.mem_range.mp hj
    omega
  rw [hSame] at hRun
  exact ⟨s, hRun, hRel, hSlots⟩

/-- **A statement** leads to the same in the routine as in the tree. -/
theorem stmt_leads (hSlots : b.slots ≤ slots) {width : Int} {output : Nat}
    (hOutput : output + width ≤ room) {l : Layout} (hl : b.firstFresh ≤ l.nextLocal) {k : Nat}
    (hk : l.nextSlot = k) (buf : Nat → Float) :
    ∀ s : Stmt, s.WellFormed b width → s.expr.Each ConstantsApply →
    (s.outline output l).2.extent ≤ room →
    S.Leads b.firstFresh buf (Returns output width) (s.execute h) (runAll m (s.outline output l).1)
  | .discard e, hWF, hApply, hExtent => by
    simp only [outline] at hExtent ⊢
    cases hConst : e.isConstant with
    | true =>
      obtain ⟨xs, hxs⟩ : ∃ xs, e.values h = pure xs :=
        fixed_values h m hWF.2 hApply hConst
      have hTree : execute h (.discard e) = pure none := by
        show (e.values h >>= fun _ => pure none) = pure none
        rw [hxs, pure_bind]
      rw [hTree, if_pos rfl]
      exact .pure rfl
    | false =>
      rw [hConst] at hExtent
      have hGrows := (grows_region e l.nextSlot (l.opened e.width)).extent
      have hOpened : l.nextSlot + e.width ≤ (l.opened e.width).extent := Int.le_max_right _ _
      have hRoom : k + e.width ≤ room := by
        rw [← hk]
        exact Int.le_trans hOpened (Int.le_trans hGrows hExtent)
      have hFill := region_fills (S := S) hSlots e hWF.2 hApply k buf (l.opened e.width) hl hRoom
      rw [← hk] at hFill
      exact .mapLeft hFill (f := fun _ => none) fun _ _ _ hDone => hDone.1
  | .assignLocal index e, hWF, hApply, _ => by
    have hMatch := part_matches (S := S) hSlots buf e hWF.2 hApply hWF.1.2 l hl
    have hRun : runAll m (outline output (.assignLocal index e) l).1 = (do
        let x ← (e.part l).1.run m
        setLocal index x
        return .goOn) := by
      simp only [outline, Part.run, runAll_append_within (within_part e hWF.2 l hl),
        runAll_single, run, Action.run, bind_assoc]
    rw [hRun]
    exact .matches_bind hMatch fun x => .matches_bind (.setLocal index x) fun _ => .pure rfl
  | .assignVariable v e, hWF, hApply, hExtent => by
    have hStop : v.offset + v.size ≤ b.slots := hWF.1.1
    have hWidth : e.width = v.size := hWF.1.2
    simp only [outline] at hExtent ⊢
    by_cases hSize : v.size = 1
    · have hOne : e.width = 1 := hWidth.trans (congrArg Int.ofNat hSize)
      have hMatch := part_matches (S := S) hSlots buf e hWF.2 hApply hOne l hl
      have hRun : runAll m ((e.part l).1.steps ++
            [.act (.setVariable v.offset (e.part l).1.code)]) = (do
          let x ← (e.part l).1.run m
          onWorld (m.writeVariable v.offset x)
          return .goOn) := by
        simp only [Part.run, runAll_append_within (within_part e hWF.2 l hl),
          runAll_single, run, Action.run, bind_assoc]
      simp only [if_pos hSize, execute]
      rw [hRun]
      refine .matches_bind hMatch fun x => .bind (.onWorld (P := fun _ _ => True)
        fun w s hRel => ?_) fun _ _ _ _ => .pure rfl
      exact Agree.mono (S.writeVariable hRel (by omega) x)
        (fun _ _ _ _ hDone => ⟨trivial, hDone⟩) fun _ _ hRel' => hRel'
    · rw [if_neg hSize] at hExtent
      have hGrows := (grows_region e l.nextSlot (l.opened v.size)).extent
      have hOpened : l.nextSlot + v.size ≤ (l.opened v.size).extent := Int.le_max_right _ _
      have hRoom : k + (v.size : Int) ≤ room := by
        rw [← hk]
        exact Int.le_trans hOpened (Int.le_trans hGrows hExtent)
      have hFill := region_fills (S := S) hSlots e hWF.2 hApply k buf (l.opened v.size) hl
        (hWidth ▸ hRoom)
      have hWithin := within_region e hWF.2 l.nextSlot (l.opened v.size) hl
      rw [← hk] at hFill
      simp only [if_neg hSize, execute]
      rw [runAll_append_within hWithin, runAll_single]
      refine .bind hFill ?_
      rintro xs flow buffer' ⟨_, hLength, rfl⟩
      have hCount : v.size = xs.length := by omega
      show S.Leads _ _ _ _ (do
        let values ← onWorld (m.readSlots l.nextSlot.toNat v.size)
        onWorld (m.writeVariables v.offset v.size values)
        return Flow.goOn)
      rw [hk, Int.toNat_natCast]
      refine leads_readSlots (by omega) ?_
      rw [hCount, map_overwrite]
      refine .bind (.onWorld (P := fun _ _ => True) fun w s hRel => ?_) fun _ _ _ _ => .pure rfl
      exact Agree.mono (S.writeVariables hRel (by omega) (by simp))
        (fun _ _ _ _ hDone => ⟨trivial, hDone⟩) fun _ _ hRel' => hRel'
  | .ret e, hWF, hApply, _ => by
    have hWidth : e.width = width := hWF.1
    have hFill := region_fills (S := S) hSlots e hWF.2 hApply output buf l hl (hWidth ▸ hOutput)
    have hWithin := within_region e hWF.2 output l hl
    simp only [outline, execute]
    rw [runAll_append_within hWithin, runAll_single]
    refine .bind hFill ?_
    rintro xs flow buffer' ⟨_, hLength, rfl⟩
    exact .pure ⟨rfl, hLength.trans hWidth, map_overwrite buf output xs⟩

/-- **Statements** lead to the same in the routine as in the tree. -/
theorem stmts_lead (hSlots : b.slots ≤ slots) {width : Int} {output : Nat}
    (hOutput : output + width ≤ room) {k : Nat} :
    ∀ stmts : List Stmt, (∀ s ∈ stmts, s.WellFormed b width) →
    (∀ s ∈ stmts, s.expr.Each ConstantsApply) →
    ∀ (l : Layout) (buf : Nat → Float), b.firstFresh ≤ l.nextLocal → l.nextSlot = k →
    (outlines output stmts l).2.extent ≤ room →
    S.Leads b.firstFresh buf (Returns output width) (executeAll h stmts)
      (runAll m (outlines output stmts l).1)
  | [], _, _, _, _, _, _, _ => .pure rfl
  | s :: rest, hWF, hApply, l, buf, hl, hk, hExtent => by
    let l₁ := (s.outline output l).2
    have hGrows := grows_outline output s l
    have hl₁ : b.firstFresh ≤ l₁.nextLocal := Nat.le_trans hl hGrows.nextLocal
    have hk₁ : l₁.nextSlot = k := hGrows.nextSlot.trans hk
    have hLater : l₁.extent ≤ room :=
      Int.le_trans (grows_outlines output rest l₁).extent hExtent
    have hFirst := stmt_leads (S := S) hSlots hOutput hl hk buf s
      (hWF s List.mem_cons_self) (hApply s List.mem_cons_self) hLater
    have hRest (buf : Nat → Float) := stmts_lead hSlots hOutput rest
      (fun s' hs' => hWF s' (List.mem_cons_of_mem s hs'))
      (fun s' hs' => hApply s' (List.mem_cons_of_mem s hs')) l₁ buf hl₁ hk₁ hExtent
    have hRun : runAll m (outlines output (s :: rest) l).1 = (do
        (← runAll m (s.outline output l).1).andThen
          (runAll m (outlines output rest l₁).1)) := runAll_append _ _
    rw [hRun]
    refine .bind hFirst fun result flow buffer' hReturns => ?_
    cases result with
    | none =>
      cases hReturns
      exact hRest buffer'
    | some xs =>
      obtain ⟨rfl, hDone⟩ := hReturns
      exact .pure ⟨rfl, hDone⟩

end Service

/-! ## Whole routines -/

private theorem zeroSteps_eq (slot : Int) (count : Nat) :
    zeroSteps slot count = literalSteps slot (List.replicate count 0) := by
  refine List.ext_getElem (by simp [zeroSteps, literalSteps]) fun i hi hi' => ?_
  simp [zeroSteps, literalSteps]

theorem Expr.WellFormed.outcome_eq (hWF : e.WellFormed b) (h : Surroundings ω) :
    e.outcome h = e.values h := by
  cases e with
  | sequence => exact absurd hWF.1 id
  | _ => rfl

theorem Expr.WellFormed.eachNode (hWF : e.WellFormed b) {p : Expr → Prop} (h : e.EachNode p) :
    e.Each p := by
  cases e with
  | sequence => exact absurd hWF.1 id
  | _ => exact h

private theorem runAll_tempSteps (m : Machine σ) (base temps : Nat) (a : Activation σ) :
    runAll m (tempSteps base temps) a = .ok .goOn
      ⟨fun i => if base < i ∧ i < base + 1 + temps then some 0 else a.locals i, a.world⟩ := by
  induction temps with
  | zero =>
    have hNone : (fun i => if base < i ∧ i < base + 1 + 0 then some 0 else a.locals i) =
        a.locals := by
      funext i
      rw [if_neg (by omega)]
    rw [hNone]
    rfl
  | succ temps ih =>
    have hLast : tempSteps base (temps + 1) =
        tempSteps base temps ++ [.act (.setLocal (base + 1 + temps) (.literal 0))] := by
      simp [tempSteps, List.range_succ]
    rw [hLast, runAll_append, bind_of_ok ih, runAll_single]
    show EStateM.Result.ok Flow.goOn (Activation.mk _ _) = _
    congr 2
    funext i
    show (if i = base + 1 + temps then some (single 0)
      else if base < i ∧ i < base + 1 + temps then some 0 else a.locals i) = _
    rw [single_zero]
    by_cases hIndex : i = base + 1 + temps
    · rw [if_pos hIndex, if_pos (by omega)]
    · rw [if_neg hIndex]
      by_cases hBefore : base < i ∧ i < base + 1 + temps
      · rw [if_pos hBefore, if_pos (by omega)]
      · rw [if_neg hBefore, if_neg (by omega)]

namespace Service

variable {h : Surroundings ω} {m : Machine σ} {slots room : Nat} {S : Service h m slots room}

/-- **The body of a routine** ends with the values of the source in the first slots. -/
theorem main_leads (hSlots : b.slots ≤ slots) (hWF : e.Compilable b)
    (hApply : e.EachNode ConstantsApply) {l : Layout} (hl : b.firstFresh ≤ l.nextLocal)
    (hStart : l.nextSlot = (0 : Nat)) (hExtent : (e.mainSteps l).2.extent ≤ room)
    (buf : Nat → Float) :
    S.Leads b.firstFresh buf
      (fun xs _ buffer' => (xs.length : Int) = e.width ∧ Holds buffer' 0 xs)
      (e.outcome h) (runAll m (e.mainSteps l).1) := by
  have hRoom : ((0 : Nat) : Int) + e.width ≤ room := by
    rw [← hStart]
    exact Int.le_trans (width_le_extent e l) hExtent
  rcases hWF.cases with ⟨stmts, width, rfl⟩ | hExpr
  · let l₁ : Layout := { l.opened width with resultRegion := some l.nextSlot }
    have hWidth : 0 ≤ width := hWF.width_nonneg
    have hRoomWidth : ((0 : Nat) : Int) + width ≤ room := hRoom
    have hNext : l₁.nextSlot = (width.toNat : Nat) := by
      show l.nextSlot + width = _
      omega
    have hStatements := stmts_lead (S := S) hSlots hRoom stmts hWF.2 hApply l₁
      buf hl hNext (by rw [← hStart]; exact hExtent)
    have hRun : runAll m ((sequence stmts width).mainSteps l).1 = (do
        (← runAll m (outlines (0 : Nat) stmts l₁).1).andThen do
          let _ ← runAll m (literalSteps (0 : Nat) (List.replicate width.toNat 0))
          return .ended) := by
      have hZeros : AllWithin 0 (literalSteps (0 : Nat) (List.replicate width.toNat 0)) :=
        allWithin_map fun _ => trivial
      show runAll m ((outlines l.nextSlot stmts l₁).1 ++
        zeroSteps l.nextSlot width.toNat ++ [.act .finish]) = _
      rw [hStart, zeroSteps_eq, List.append_assoc, runAll_append,
        runAll_append_within hZeros, runAll_single]
      rfl
    rw [hRun]
    refine .bind hStatements fun result flow buffer' hReturns => ?_
    cases result with
    | some xs =>
      obtain ⟨rfl, hDone⟩ := hReturns
      exact .pure hDone
    | none =>
      cases hReturns
      have hZeros : S.Fills b.firstFresh buffer' (0 + 0) _ _ _ := fills_literals
        (List.replicate width.toNat 0) 0 buffer' (by rw [List.length_replicate]; omega)
      rw [List.map_replicate, single_zero] at hZeros
      have hBind := Leads.bind hZeros (f := pure) (g := fun _ => pure Flow.ended)
        (Q := fun xs _ buffer' => (xs.length : Int) = width ∧ Holds buffer' 0 xs)
        fun xs _ _ hDone => .pure ⟨by
          have hCount := hDone.2.1
          rw [List.length_replicate] at hCount
          omega, by rw [hDone.2.2]; exact map_overwrite buffer' 0 xs⟩
      rwa [pure_bind] at hBind
  · have hRegion := rootRegion_eq hExpr.fits l.nextSlot (l.opened e.width)
    have hFill := region_fills (S := S) hSlots e hExpr (hExpr.eachNode hApply) 0 buf
      (l.opened e.width) hl hRoom
    have hWithin := within_region e hExpr (0 : Nat) (l.opened e.width) hl
    rw [hExpr.outcome_eq h, mainSteps, hRegion, hStart, runAll_append_within hWithin, runAll_single]
    have hBind := Leads.bind hFill (f := pure) (g := fun _ => pure Flow.ended)
      (Q := fun xs _ buffer' => (xs.length : Int) = e.width ∧ Holds buffer' 0 xs)
      fun xs _ _ hDone => .pure ⟨hDone.2.1, by rw [hDone.2.2]; exact map_overwrite buf 0 xs⟩
    rwa [bind_pure] at hBind

/-- **Running a routine does what its source means.**  Once the scratch buffer is there, evaluating
the source and running its routine make the same accesses to the surroundings and end alike; the
values of the source stand in the first slots of the buffer. -/
theorem run_outline {args : List Float} {temps : Nat}
    (hWF : e.Compilable ⟨args.length, temps, slots⟩) (hApply : e.EachNode ConstantsApply)
    (name : String) {w : ω} {s s₁ : σ}
    (hExtent : (e.mainSteps (Layout.start args.length (args.length + 1 + temps) 0)).2.extent ≤ room)
    (hAcquire : m.acquire (e.mainSteps
      (Layout.start args.length (args.length + 1 + temps) 0)).2.extent.toNat s = .ok () s₁)
    (hRel : S.rel w s₁) :
    Agree (fun xs w' _ s' => (xs.length : Int) = e.width ∧ S.rel w' s' ∧ Holds (S.slot s') 0 xs)
      S.rel (e.evaluate h args temps w)
      ((Routine.outline name e args.length temps).run m args s) := by
  let b : Bounds := ⟨args.length, temps, slots⟩
  let l := Layout.start args.length (args.length + 1 + temps) 0
  -- the locals of the routine when its main part begins
  let ca : Activation σ := ⟨fun i => if args.length < i ∧ i < args.length + 1 + temps then some 0
    else args[i]?, s₁⟩
  have hScratch : (e.mainSteps l).2.scratchLocal = args.length := scratchLocal_mainSteps e l
  have hTracks : S.Tracks b.firstFresh (S.slot s₁) ⟨startLocals args temps, w⟩ ca := by
    refine ⟨hRel, fun i hi => ?_, fun _ _ => rfl⟩
    show (if args.length < i ∧ i < args.length + 1 + temps then some 0 else args[i]?) =
      startLocals args temps i
    simp only [startLocals]
    by_cases hArg : i < args.length
    · rw [if_neg (by omega), if_pos hArg]
    · rw [if_neg hArg]
      by_cases hTemp : args.length < i ∧ i < args.length + 1 + temps
      · rw [if_pos hTemp, if_pos hTemp]
      · rw [if_neg hTemp, if_neg hTemp, List.getElem?_eq_none (by omega)]
  have hBody : runAll m (Routine.outline name e args.length temps).body
      ⟨fun i => args[i]?, s⟩ = runAll m (e.mainSteps l).1 ca := by
    have hTemps := runAll_tempSteps m args.length temps ⟨fun i => args[i]?, s₁⟩
    have hFirst : (act (.acquire (e.mainSteps l).2.extent)).run m ⟨fun i => args[i]?, s⟩ =
        .ok .goOn ⟨fun i => args[i]?, s₁⟩ := by
      have hWorld : onWorld (m.acquire (e.mainSteps l).2.extent.toNat) ⟨fun i => args[i]?, s⟩ =
          .ok () ⟨fun i => args[i]?, s₁⟩ := by
        simp only [onWorld, onPart]
        rw [hAcquire]
      exact bind_of_ok hWorld
    show runAll m (.act (.acquire (e.mainSteps l).2.extent) ::
      (tempSteps (e.mainSteps l).2.scratchLocal temps ++ (e.mainSteps l).1)) _ = _
    rw [runAll_cons, bind_of_ok hFirst, hScratch, runAll_append]
    exact bind_of_ok hTemps
  have hMain := main_leads (S := S) (b := b) (Nat.le_refl _) hWF hApply (l := l)
    (Nat.le_refl _) rfl hExtent (S.slot s₁) _ _ hTracks
  simp only [evaluate, Routine.run, hBody]
  generalize e.outcome h ⟨startLocals args temps, w⟩ = outTree at hMain
  generalize runAll m (e.mainSteps l).1 ca = outCode at hMain
  cases hMain with
  | error hWorld => exact .error hWorld
  | ok hDone =>
    obtain ⟨buffer', ⟨hLength, hHolds⟩, hT⟩ := hDone
    have hWide : 0 + e.width ≤ room := Int.le_trans (width_le_extent e l) hExtent
    refine .ok ⟨hLength, hT.world, Eq.trans (List.map_congr_left fun j hj => ?_) hHolds⟩
    have hLt := List.mem_range.mp hj
    exact hT.slots (0 + j) (by omega)

end Service

end

end MolangCompiler
