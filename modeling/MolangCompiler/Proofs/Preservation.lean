import MolangCompiler.Proofs.Execution
import MolangCompiler.Proofs.Slots

/-!
# Written routines preserve meaning

The lines that are written for a tree, read back and run, do what the tree means.  The surroundings
are arbitrary, and they record all accesses; the record is part of the state, so that equal states
mean equal accesses in equal order.

What is constant is not set aside, and as a statement it is not written at all; so a helper that is
applied to constants must be given as many as it takes, or its failure would come late or never
(`misapplied_constant_is_dropped`).
-/

namespace MolangCompiler

section

variable {ω : Type}

/-! ## Surroundings with a buffer -/

def besideBuffer {α : Type} (act : Act ω α) : Act (ω × Array Float) α :=
  onPart Prod.fst (fun w s => (w, s.2)) act

def ownBuffer (ω : Type) : Slots (ω × Array Float) := ⟨Prod.snd, fun xs s => (s.1, xs)⟩

/-- Surroundings as a machine that keeps a buffer of its own, which is lengthened as needed. -/
def Surroundings.withBuffer (h : Surroundings ω) : Machine (ω × Array Float) where
  readVariable slot := besideBuffer (h.readVariable slot)
  writeVariable slot x := besideBuffer (h.writeVariable slot x)
  readVariables offset size := besideBuffer (h.readVariables offset size)
  writeVariables offset size xs := besideBuffer (h.writeVariables offset size xs)
  call function args := besideBuffer (h.call function args)
  acquire count := modify fun s => (s.1, s.2 ++ Array.replicate (count - s.2.size) 0)
  writeSlot := (ownBuffer ω).write
  readSlots := (ownBuffer ω).readMany
  writeSlots := (ownBuffer ω).writeMany

/-- Every variable that lies in the first `slots` slots has as many values as it is long. -/
def Surroundings.Spans (h : Surroundings ω) (slots : Nat) : Prop :=
  ∀ offset size w xs w', offset + size ≤ slots →
    h.readVariables offset size w = .ok xs w' → xs.size = size

/-- An operation beside a buffer does what the operation itself does, and leaves the buffer
alone. -/
theorem besideBuffer_agrees {α : Type} (act : Act ω α) {room : Nat} {w : ω}
    {s : ω × Array Float} (hRel : s.1 = w ∧ room ≤ s.2.size) :
    Agree (fun x w' y s' => (y = x ∧ act w = .ok x w') ∧ (s'.1 = w' ∧ room ≤ s'.2.size) ∧
        ∀ j < room, slotView s'.2 j = slotView s.2 j)
      (fun w' s' => s'.1 = w' ∧ room ≤ s'.2.size) (act w) (besideBuffer act s) := by
  obtain ⟨rfl, hRoom⟩ := hRel
  simp only [besideBuffer, onPart]
  cases act s.1 with
  | ok x w' => exact .ok ⟨⟨rfl, rfl⟩, ⟨rfl, hRoom⟩, fun _ _ => rfl⟩
  | error e w' => exact .error ⟨rfl, hRoom⟩

/-- A buffer beside the surroundings serves their trees. -/
def Surroundings.service (h : Surroundings ω) {slots : Nat} (hSpans : h.Spans slots) (room : Nat) :
    Service h h.withBuffer slots room where
  rel w s := s.1 = w ∧ room ≤ s.2.size
  slot s := slotView s.2
  readVariable hRel _ := Agree.mono (besideBuffer_agrees _ hRel)
    (fun _ _ _ _ hDone => ⟨hDone.1.1, hDone.2⟩) fun _ _ hFailed => hFailed
  writeVariable hRel _ _ := Agree.mono (besideBuffer_agrees _ hRel)
    (fun _ _ _ _ hDone => hDone.2) fun _ _ hFailed => hFailed
  readVariables hRel hSpan := Agree.mono (besideBuffer_agrees _ hRel)
    (fun _ _ _ _ hDone => ⟨hDone.1.1, hSpans _ _ _ _ _ hSpan hDone.1.2, hDone.2⟩)
    fun _ _ hFailed => hFailed
  writeVariables hRel _ _ _ := Agree.mono (besideBuffer_agrees _ hRel)
    (fun _ _ _ _ hDone => hDone.2) fun _ _ hFailed => hFailed
  call hRel _ _ := Agree.mono (besideBuffer_agrees _ hRel)
    (fun _ _ _ _ hDone => ⟨hDone.1.1, hDone.2⟩) fun _ _ hFailed => hFailed
  writeSlot := by
    rintro w ⟨_, buffer⟩ i ⟨rfl, hRoom⟩ hi x
    have hSlot : i < buffer.size := Nat.lt_of_lt_of_le hi hRoom
    refine ⟨(_, buffer.setIfInBounds i (single x)), ?_, ⟨rfl, ?_⟩, fun j _ => ?_⟩
    · show Slots.write (ownBuffer ω) i x _ = _
      simp only [Slots.write, ownBuffer, setSlot?_eq_some hSlot]
    · rw [Array.size_setIfInBounds]
      exact hRoom
    · rw [slotView_setIfInBounds hSlot]
  readSlots := by
    rintro w ⟨_, buffer⟩ i size ⟨rfl, hRoom⟩ hSpan
    exact ⟨_, rfl, toList_slice buffer i size (Nat.le_trans hSpan hRoom)⟩
  writeSlots := by
    rintro w ⟨_, buffer⟩ i size ⟨rfl, hRoom⟩ hSpan xs hSize
    have hWithin : i + size ≤ buffer.size := Nat.le_trans hSpan hRoom
    refine ⟨(_, splice buffer i (i + size) xs), rfl, ⟨rfl, ?_⟩, fun j _ => ?_⟩
    · rw [size_splice hWithin hSize]
      exact hRoom
    · rw [slotView_splice hWithin hSize]

/-! ## Preservation -/

private theorem recorded_apply {α : Type} (access : Access) (act : Act ω α) (w : ω)
    (record : List Access) :
    recorded access act (w, record) = match act w with
      | .ok x w' => .ok x (w', record ++ [access])
      | .error e w' => .error e (w', record ++ [access]) := rfl

theorem Surroundings.Spans.recording {h : Surroundings ω} {slots : Nat} (hSpans : h.Spans slots) :
    h.recording.Spans slots := by
  rintro offset size ⟨w, record⟩ xs s' hSpan hRead
  change recorded (.read offset size) (h.readVariables offset size) (w, record) = _ at hRead
  rw [recorded_apply] at hRead
  cases hInner : h.readVariables offset size w with
  | error e w' =>
    rw [hInner] at hRead
    cases hRead
  | ok ys w' =>
    rw [hInner] at hRead
    cases hRead
    exact hSpans _ _ _ _ _ hSpan hInner

/-- **Writing preserves meaning.**  For every well-formed tree, all arguments and all surroundings:
the tree can be written, its lines are read back as one routine, and running that routine makes the
same accesses in the same order as evaluating the tree, and ends with the same values or the same
failure. -/
theorem written_routine_means_its_tree (h : Surroundings ω) (name : String) (args : List Float)
    {slots temps : Nat} {e : Expr} (hSpans : h.Spans slots)
    (hWF : e.Compilable ⟨args.length, temps, slots⟩) (hApply : e.EachNode Expr.ConstantsApply) :
    ∃ draft routine,
      Routine.write name e args.length temps (Routine.draft args.length temps) = .ok () draft ∧
      Routine.ofLines? draft.listing.lines = some routine ∧
      (∀ loaded, Routine.load draft.listing.lines = .ok loaded → loaded = routine) ∧
      ∀ (w : ω) (record : List Access) (buffer : Array Float),
        Agree (fun xs s _ s' => s'.1 = s ∧ (slice s'.2 0 e.width.toNat).toList = xs)
          (fun s s' => s'.1 = s)
          (e.evaluate h.recording args temps (w, record))
          (routine.run h.recording.withBuffer args ((w, record), buffer)) := by
  have hRead := Routine.ofLines?_outline name e args.length temps
  refine ⟨_, _, Routine.write_outline hWF.writable name args.length temps, hRead,
    fun _ hLoad => Option.some.inj ((Routine.ofLines?_of_load hLoad).symm.trans hRead),
    fun w record buffer => ?_⟩
  let extent := (e.mainSteps (Layout.start args.length (args.length + 1 + temps) 0)).2.extent
  let S := h.recording.service hSpans.recording extent.toNat
  let grown := buffer ++ Array.replicate (extent.toNat - buffer.size) 0
  have hRoom : extent.toNat ≤ grown.size := by
    simp only [grown, Array.size_append, Array.size_replicate]
    omega
  have hWidth : 0 + e.width ≤ extent := Expr.width_le_extent e _
  refine Agree.mono (Service.run_outline (S := S) hWF hApply name (by omega)
    (rfl : h.recording.withBuffer.acquire extent.toNat ((w, record), buffer) =
      .ok () ((w, record), grown)) ⟨rfl, hRoom⟩) ?_ fun s s' hFailed => hFailed.1
  rintro xs s _ s' ⟨hLength, ⟨hSame, hEnough⟩, hHolds⟩
  refine ⟨hSame, ?_⟩
  have hCount : e.width.toNat = xs.length := by omega
  have hSlice := toList_slice s'.2 0 xs.length (by omega)
  rw [Nat.zero_add] at hSlice
  rw [hCount, hSlice]
  exact hHolds

end

/-! ## Two trees -/

/-- Surroundings in which every variable is zero and every function returns one. -/
def stillSurroundings : Surroundings Unit where
  readVariable _ := return 0
  writeVariable _ _ := return ()
  readVariables _ size := return Array.replicate size 0
  writeVariables _ _ _ := return ()
  call _ _ := return .number 1

theorem stillSurroundings_spans (slots : Nat) : stillSurroundings.Spans slots := by
  intro offset size w xs w' _ hRead
  cases hRead
  exact Array.size_replicate

/-- The sum of a call and of a choice between another call and a number: the call must be made
before the choice. -/
def callBeforeChoice : Expr :=
  .binary .add (.hostCall "f" [] 1)
    (.ternary (.localRead 0 "c") (.hostCall "g" [] 1) (.constant [0]))

theorem written_call_before_choice :
    (stillSurroundings.Spans 0 ∧ callBeforeChoice.Compilable ⟨1, 0, 0⟩ ∧
      callBeforeChoice.EachNode Expr.ConstantsApply) ∧
    ∃ draft routine,
      Routine.write "m" callBeforeChoice 1 0 (Routine.draft 1 0) = .ok () draft ∧
      Routine.ofLines? draft.listing.lines = some routine ∧
      (∀ loaded, Routine.load draft.listing.lines = .ok loaded → loaded = routine) ∧
      ∀ (w : Unit) (record : List Access) (buffer : Array Float),
        Agree (fun xs s _ s' => s'.1 = s ∧ (slice s'.2 0 1).toList = xs) (fun s s' => s'.1 = s)
          (callBeforeChoice.evaluate stillSurroundings.recording [1] 0 (w, record))
          (routine.run stillSurroundings.recording.withBuffer [1] ((w, record), buffer)) := by
  have hWF : callBeforeChoice.Compilable ⟨1, 0, 0⟩ := by
    simp [callBeforeChoice, Expr.Compilable, Expr.WellFormed, Expr.Each, Expr.EachOf, Expr.Fits,
      Expr.Delivers, Expr.width, Bounds.Names, Bounds.firstFresh]
  have hApply : callBeforeChoice.EachNode Expr.ConstantsApply := by
    simp [callBeforeChoice, Expr.EachNode, Expr.Each, Expr.EachOf, Expr.ConstantsApply]
  exact ⟨⟨stillSurroundings_spans 0, hWF, hApply⟩,
    written_routine_means_its_tree stillSurroundings "m" [1] (stillSurroundings_spans 0) hWF hApply⟩

/-- A statement that applies a helper to too few constants, before a return. -/
def misappliedConstant : Expr :=
  .sequence [.discard (.helperCall .min [.constant [1]]), .ret (.constant [2])] 1

/-- Without a condition on helpers that are applied to constants, writing would not preserve
meaning: the statement fails, but nothing is written for it. -/
theorem misapplied_constant_is_dropped :
    ¬ ∀ e : Expr, e.Compilable ⟨0, 0, 0⟩ → ∃ draft routine,
      Routine.write "m" e 0 0 (Routine.draft 0 0) = .ok () draft ∧
      Routine.ofLines? draft.listing.lines = some routine ∧
      Agree (fun xs s _ s' => s'.1 = s ∧ (slice s'.2 0 e.width.toNat).toList = xs)
        (fun s s' => s'.1 = s)
        (e.evaluate stillSurroundings.recording [] 0 ((), []))
        (routine.run stillSurroundings.recording.withBuffer [] (((), []), #[])) := by
  intro hAll
  have hWF : misappliedConstant.Compilable ⟨0, 0, 0⟩ := by
    simp [misappliedConstant, Expr.Compilable, Stmt.WellFormed, Stmt.Fits, Stmt.expr,
      Expr.WellFormed, Expr.Each, Expr.EachOf, Expr.Fits, Expr.Delivers, Expr.width]
  obtain ⟨draft, routine, hWrite, hRead, hAgree⟩ := hAll misappliedConstant hWF
  rw [Routine.write_outline hWF.writable "m" 0 0] at hWrite
  cases hWrite
  rw [Routine.ofLines?_outline] at hRead
  cases hRead
  have hTree : misappliedConstant.evaluate stillSurroundings.recording [] 0 ((), []) =
      .error (.run (.helperArguments "_min" 1)) ((), []) := rfl
  rw [hTree] at hAgree
  generalize hRun : (Routine.outline "m" misappliedConstant 0 0).run
    stillSurroundings.recording.withBuffer [] (((), []), #[]) = outcome at hAgree
  cases hAgree
  cases hRun

end MolangCompiler
