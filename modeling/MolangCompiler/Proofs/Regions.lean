import MolangCompiler.Proofs.Checked
import MolangCompiler.Proofs.Service
import MolangCompiler.Proofs.Shared
import MolangCompiler.Proofs.Written

/-!
# Regions of the scratch buffer

`Machine.recording` does what a machine does, and takes down every slot of the scratch buffer that
is written or read.  Copying a variable into the buffer replaces slots by values; if these were more
or fewer than the slots, everything behind them would change its place, so that is taken down as
well.

The steps of an expression are checked against limits that open just the slots of its region
(`Limits.between`).  A checked run keeps to them, and it has written all of them when it is through.
Regions are handed out like frames of a stack: a statement works behind the regions that are in use,
and gives its own one back.
-/

namespace MolangCompiler

/-! ## A record of slots -/

/-- What a run has done with the slots of its scratch buffer. -/
structure SlotUse where
  written : List Nat
  read : List Nat
  /-- Whether slots were replaced by more or fewer values, so that those behind them have changed
  their places. -/
  moved : Bool
  deriving DecidableEq

namespace SlotUse

def none : SlotUse := ⟨[], [], false⟩

def write (slot size : Nat) (u : SlotUse) : SlotUse :=
  { u with written := List.range' slot size ++ u.written }

def fetch (slot size : Nat) (u : SlotUse) : SlotUse :=
  { u with read := List.range' slot size ++ u.read }

/-- Neighbouring slots are replaced by the given number of values. -/
def replace (slot size count : Nat) (u : SlotUse) : SlotUse :=
  { u.write slot size with moved := u.moved || count != size }

/-- Only slots of a region have been used, and none has changed its place. -/
structure Within (slot size : Nat) (u : SlotUse) : Prop where
  written : ∀ j ∈ u.written, slot ≤ j ∧ j < slot + size
  read : ∀ j ∈ u.read, slot ≤ j ∧ j < slot + size
  still : u.moved = false

/-- Just the slots of a region have been written, and no others have been used. -/
structure Exact (slot size : Nat) (u : SlotUse) : Prop where
  written : ∀ j, j ∈ u.written ↔ slot ≤ j ∧ j < slot + size
  read : ∀ j ∈ u.read, slot ≤ j ∧ j < slot + size
  still : u.moved = false

/-- A use that leaves a region alone. -/
def Spares (slot size : Nat) (u : SlotUse) : Prop :=
  ∀ j, slot ≤ j → j < slot + size → j ∉ u.written ∧ j ∉ u.read

variable {slot size : Nat} {u : SlotUse}

theorem within_none (slot size : Nat) : none.Within slot size :=
  ⟨List.forall_mem_nil _, List.forall_mem_nil _, rfl⟩

variable {slot' size' : Nat}

theorem mem_write {j : Nat} :
    j ∈ (u.write slot' size').written ↔ (slot' ≤ j ∧ j < slot' + size') ∨ j ∈ u.written := by
  simp [write]

theorem Within.write (h : u.Within slot size)
    (hIn : ∀ j, slot' ≤ j → j < slot' + size' → slot ≤ j ∧ j < slot + size) :
    (u.write slot' size').Within slot size where
  written j hj := (mem_write.mp hj).elim (fun hj => hIn j hj.1 hj.2) (h.written j)
  read := h.read
  still := h.still

theorem Within.fetch (h : u.Within slot size)
    (hIn : ∀ j, slot' ≤ j → j < slot' + size' → slot ≤ j ∧ j < slot + size) :
    (u.fetch slot' size').Within slot size where
  written := h.written
  read := List.forall_mem_append.mpr ⟨fun j hj => hIn j (List.mem_range'_1.mp hj).1
    (List.mem_range'_1.mp hj).2, h.read⟩
  still := h.still

theorem Within.spares (h : u.Within slot size)
    (hApart : ∀ j, slot' ≤ j → j < slot' + size' → j < slot) : u.Spares slot' size' := by
  intro j hLow hHigh
  have hBefore := hApart j hLow hHigh
  exact ⟨fun hj => absurd (h.written j hj).1 (Nat.not_le.mpr hBefore),
    fun hj => absurd (h.read j hj).1 (Nat.not_le.mpr hBefore)⟩

theorem replace_eq (slot size : Nat) (u : SlotUse) :
    u.replace slot size size = u.write slot size := by
  simp [replace, write]

end SlotUse

/-! ## A machine with a record -/

/-- A state of a machine and a record of slots. -/
structure Recorded (σ : Type) where
  world : σ
  use : SlotUse

variable {e : Expr}

section

variable {σ : Type}

def Recorded.noting {α : Type} (change : SlotUse → SlotUse) (act : Act σ α) :
    Act (Recorded σ) α := fun r =>
  match act r.world with
  | .ok x s => .ok x ⟨s, change r.use⟩
  | .error e s => .error e ⟨s, r.use⟩

/-- A machine that keeps a record of the slots of its scratch buffer. -/
def Machine.recording (m : Machine σ) : Machine (Recorded σ) where
  readVariable slot := Recorded.noting id (m.readVariable slot)
  writeVariable slot x := Recorded.noting id (m.writeVariable slot x)
  readVariables offset size := Recorded.noting id (m.readVariables offset size)
  writeVariables offset size xs := Recorded.noting id (m.writeVariables offset size xs)
  call function args := Recorded.noting id (m.call function args)
  acquire slots := Recorded.noting id (m.acquire slots)
  writeSlot slot x := Recorded.noting (·.write slot 1) (m.writeSlot slot x)
  readSlots slot size := Recorded.noting (·.fetch slot size) (m.readSlots slot size)
  writeSlots slot size xs :=
    Recorded.noting (·.replace slot size xs.size) (m.writeSlots slot size xs)

theorem Recorded.noting_agrees {α : Type} (change : SlotUse → SlotUse) (act : Act σ α)
    (r : Recorded σ) :
    Agree (fun x s y r' => y = x ∧ r' = ⟨s, change r.use⟩) (fun s r' => r' = ⟨s, r.use⟩)
      (act r.world) (noting change act r) := by
  unfold noting
  cases act r.world with
  | ok x s => exact .ok ⟨rfl, rfl⟩
  | error e s => exact .error rfl

/-- A machine with room for `room` slots on which the variables below `slots` are there: in states
that satisfy `Q`, which its operations keep, as many values of neighbouring variables can be read as
are asked for. -/
structure Machine.Stocked (m : Machine σ) (slots room : Nat) (Q : σ → Prop) : Prop where
  maintains : m.Maintains (.strict .any room slots 0) Q fun _ => True
  readVariables {offset size : Nat} (hSpan : offset + size ≤ slots) {s : σ} (h : Q s) :
    Ends (fun xs _ => xs.size = size) (fun _ => True) (m.readVariables offset size s)

/-! ## Runs within a region -/

def Limits.between (slot size slots : Nat) : Limits where
  calls := .any
  writable slot' size' := (slot : Int) ≤ slot' ∧ slot' + size' ≤ slot + size
  room := slot + size
  slots := slots
  returns := slot + size

theorem Limits.frees_between (slot size slots : Nat) : (between slot size slots).Frees slot size :=
  ⟨Int.natCast_nonneg slot, fun hLow hHigh => ⟨hLow, hHigh⟩⟩

variable {m : Machine σ} {Q : σ → Prop} {slots room slot size : Nat}

/-- A record of a run within a region; the slots that satisfy `W` have been written. -/
structure Recorded.Shows (Q : σ → Prop) (slot size : Nat) (W : Nat → Prop) (s : σ)
    (r : Recorded σ) : Prop where
  world : r.world = s
  kept : Q s
  within : r.use.Within slot size
  written : ∀ j, W j → j ∈ r.use.written

def Recorded.Stops (slot size : Nat) (s : σ) (r : Recorded σ) : Prop :=
  r.world = s ∧ r.use.Within slot size

theorem Recorded.Shows.noting {W W' : Nat → Prop} {s : σ} {r : Recorded σ} {α : Type}
    (h : Shows Q slot size W s r) (change : SlotUse → SlotUse) {act : Act σ α}
    (hAct : Ends (fun _ => Q) (fun _ => True) (act s)) (hWithin : (change r.use).Within slot size)
    (hWritten : ∀ j, W' j → j ∈ (change r.use).written) :
    Agree (fun x s' y r' => y = x ∧ Shows Q slot size W' s' r') (Stops slot size) (act s)
      (noting change act r) := by
  obtain ⟨rfl, -, hBefore, -⟩ := h
  refine .mono ((noting_agrees change act r).and_ends hAct) ?_ ?_
  · rintro x s' y r' ⟨⟨rfl, rfl⟩, hQ⟩
    exact ⟨rfl, rfl, hQ, hWithin, hWritten⟩
  · rintro s' r' ⟨rfl, -⟩
    exact ⟨rfl, hBefore⟩

/-- **A run within a region** leads to the same with and without a record, and the record shows
which slots have been written. -/
theorem Machine.Stocked.mirrors (M : m.Stocked slots room Q) (hRoom : slot + size ≤ room) :
    m.Mirrors m.recording (.between slot size slots) (Recorded.Shows Q slot size)
      (Recorded.Stops slot size) where
  weaken hLe h := ⟨h.world, h.kept, h.within, fun j hj => h.written j (hLe j hj)⟩
  readVariable hSlot h :=
    h.noting id (M.maintains.readVariable hSlot h.kept) h.within h.written
  writeVariable hSlot x h :=
    (h.noting id (M.maintains.writeVariable hSlot x h.kept) h.within h.written).mono
      (fun _ _ _ _ hDone => hDone.2) fun _ _ hF => hF
  call _ function args h :=
    h.noting id (M.maintains.call trivial function args h.kept) h.within h.written
  writeSlot := by
    rintro W s r j ⟨slot', size', ⟨hLow, hHigh⟩, hFrom, hTo⟩ x h
    have hOpens : (Limits.strict .any room slots 0).Opens j :=
      ⟨j, 1, ⟨Int.natCast_nonneg j, by omega⟩, by omega, by omega⟩
    have hWithin : (r.use.write j 1).Within slot size :=
      h.within.write fun i hLow hHigh => by omega
    have hWritten : ∀ i, withSlots j 1 W i → i ∈ (r.use.write j 1).written :=
      fun i hi => SlotUse.mem_write.mpr (hi.imp id (h.written i))
    exact (h.noting (·.write j 1) (M.maintains.writeSlot hOpens x h.kept) hWithin hWritten).mono
      (fun _ _ _ _ hDone => hDone.2) fun _ _ hF => hF
  load := by
    rintro W s r slot' offset size' ⟨hLow, hHigh⟩ hSpan ⟨rfl, hQ, hWithin, hWritten⟩
    have hWritable : (Limits.strict .any room slots 0).writable slot' size' :=
      ⟨by omega, by omega⟩
    have hKept := M.maintains.load hWritable hSpan hQ
    -- as many values are read as there are slots, so nothing changes its place
    have hBoth : Agree (fun _ s _ r' => r' = ⟨s, r.use.write slot'.toNat size'⟩)
        (Recorded.Stops slot size)
        ((m.readVariables offset size' >>= m.writeSlots slot'.toNat size') r.world)
        ((m.recording.readVariables offset size' >>= m.recording.writeSlots slot'.toNat size')
          r) := by
      refine Agree.bind (((Recorded.noting_agrees id _ r).and_ends (M.readVariables hSpan hQ)).mono
        (fun _ _ _ _ hDone => hDone) ?_) ?_
      · rintro s' r' ⟨rfl, -⟩
        exact ⟨rfl, hWithin⟩
      · rintro xs s' ys r' ⟨⟨rfl, rfl⟩, hSize⟩
        refine (Recorded.noting_agrees (·.replace slot'.toNat size' ys.size)
          (m.writeSlots slot'.toNat size' ys) ⟨s', r.use⟩).mono ?_ ?_
        · rintro _ s'' _ r'' ⟨-, rfl⟩
          rw [hSize, SlotUse.replace_eq]
        · rintro s'' r'' rfl
          exact ⟨rfl, hWithin⟩
    refine (hBoth.and_ends hKept).mono ?_ fun _ _ hF => hF.1
    rintro _ s' _ r' ⟨rfl, hQ'⟩
    refine ⟨rfl, hQ', hWithin.write fun j hFrom hTo => ?_, fun j hj => ?_⟩
    · omega
    · exact SlotUse.mem_write.mpr (hj.imp id (hWritten j))
  store := by
    rintro W s r slot' offset size' hSpan hSlot hFilled ⟨rfl, hQ, hWithin, hWritten⟩
    obtain ⟨hNonneg, hTop⟩ : 0 ≤ slot' ∧ slot' + size' ≤ ((slot + size : Nat) : Int) := hSlot
    have hSpans : (Limits.strict .any room slots 0).Spans slot' size' := by
      refine ⟨hNonneg, ?_⟩
      show slot' + size' ≤ (room : Int)
      omega
    have hKept := M.maintains.store hSpan hSpans hQ
    -- what is copied has been written before, so it lies in the region
    have hFetched : (r.use.fetch slot'.toNat size').Within slot size :=
      hWithin.fetch fun j hFrom hTo => hWithin.written j (hWritten j (hFilled j hFrom hTo))
    have hBoth : Agree (fun _ s _ r' => r' = ⟨s, r.use.fetch slot'.toNat size'⟩)
        (Recorded.Stops slot size)
        ((m.readSlots slot'.toNat size' >>= m.writeVariables offset size') r.world)
        ((m.recording.readSlots slot'.toNat size' >>= m.recording.writeVariables offset size')
          r) := by
      refine Agree.bind ((Recorded.noting_agrees (·.fetch slot'.toNat size') _ r).mono
        (fun _ _ _ _ hDone => hDone) ?_) ?_
      · rintro s' r' rfl
        exact ⟨rfl, hWithin⟩
      · rintro xs s' ys r' ⟨rfl, rfl⟩
        refine (Recorded.noting_agrees id (m.writeVariables offset size' ys)
          ⟨s', r.use.fetch slot'.toNat size'⟩).mono ?_ ?_
        · rintro _ s'' _ r'' ⟨-, rfl⟩
          rfl
        · rintro s'' r'' rfl
          exact ⟨rfl, hFetched⟩
    refine (hBoth.and_ends hKept).mono ?_ fun _ _ hF => hF.1
    rintro _ s' _ r' ⟨rfl, hQ'⟩
    exact ⟨rfl, hQ', hFetched, hWritten⟩

/-! ## What steps do with the buffer -/

/-- Wherever steps are run, the run is the same with a record as without.  Behind a run that goes
through the record is as `done` says, and behind one that fails it is as `failed` says. -/
def Step.Records (m : Machine σ) (Q : σ → Prop) (done : Flow → SlotUse → Prop)
    (failed : SlotUse → Prop) (steps : List Step) : Prop :=
  ∀ a : Activation σ, Q a.world →
    Agree
      (fun flow a' flow' r => flow' = flow ∧ r.locals = a'.locals ∧ r.world.world = a'.world ∧
        done flow r.world.use)
      (fun a' r => r.world.world = a'.world ∧ failed r.world.use)
      (runAll m steps a) (runAll m.recording steps ⟨a.locals, a.world, .none⟩)

namespace Step

variable {done done' : Flow → SlotUse → Prop} {failed : SlotUse → Prop} {K : Facts}
  {steps : List Step}

theorem Records.mono (h : Records m Q done failed steps)
    (hDone : ∀ flow u, done flow u → done' flow u) : Records m Q done' failed steps := by
  intro a hQ
  refine (h a hQ).mono ?_ fun _ _ hF => hF
  exact fun flow _ _ _ hRun => ⟨hRun.1, hRun.2.1, hRun.2.2.1, hDone flow _ hRun.2.2.2⟩

theorem Records.finish {p : SlotUse → Prop} (h : Records m Q (fun _ => p) failed steps) :
    Records m Q (fun flow u => flow = .ended ∧ p u) failed (steps ++ [.act .finish]) := by
  intro a hQ
  rw [runAll_append, runAll_append]
  refine .bind (h a hQ) ?_
  rintro flow a' flow' r ⟨rfl, hLocals, hWorld, hUse⟩
  cases flow' with
  | goOn | ended => exact .ok ⟨rfl, hLocals, hWorld, rfl, hUse⟩

section

variable (M : m.Stocked slots room Q) (hRoom : slot + size ≤ room) (hNone : ∀ j, ¬ K.slots j)
include M hRoom hNone

/-- **Checked steps keep to their region**, and what the check knows to be written has been
written. -/
theorem records_checked (hChecked : AllChecked (.between slot size slots) K steps) :
    Records m Q (fun flow u => u.Within slot size ∧
      ∀ j, (flow.facts (.between slot size slots) (afterAll K steps)).slots j → j ∈ u.written)
      (·.Within slot size) steps := by
  intro a hQ
  have hBeside : Beside (.between slot size slots) (Recorded.Shows Q slot size)
      (Recorded.Stops slot size) K a ⟨a.locals, a.world, .none⟩ := by
    refine ⟨rfl, .inl fun h => ⟨h.world, h.within⟩, rfl, hQ, SlotUse.within_none slot size, ?_⟩
    exact fun j hj => absurd hj (hNone j)
  refine (runAll_agrees (M.mirrors hRoom) steps hChecked hBeside).mono ?_ fun _ _ hF => hF
  rintro flow a' flow' r ⟨rfl, h⟩
  exact ⟨rfl, h.locals, h.world.world, h.world.within, h.world.written⟩

theorem records_within (hChecked : AllChecked (.between slot size slots) K steps) :
    Records m Q (fun _ u => u.Within slot size) (·.Within slot size) steps :=
  (records_checked M hRoom hNone hChecked).mono fun _ _ h => h.1

/-- **Steps that fill a region** write just its slots. -/
theorem records_exact (hFills : Fills (.between slot size slots) K slot size steps) :
    Records m Q (fun _ u => u.Exact slot size) (·.Within slot size) steps := by
  refine (records_checked M hRoom hNone hFills.checked).mono ?_
  rintro flow u ⟨hWithin, hWritten⟩
  refine ⟨fun j => ⟨hWithin.written j, fun hj => hWritten j ?_⟩, hWithin.read, hWithin.still⟩
  cases flow with
  | goOn => exact hFills.written j (by omega) (by omega)
  | ended => exact hj.2

end

end Step

/-! ## Expressions and statements -/

/-- The locals that a tree may name are set, and no slot has been written. -/
def Facts.named (b : Bounds) : Facts := ⟨b.Names, fun _ => False⟩

theorem Expr.calls_any (e : Expr) : e.Calls .any := by
  cases e <;> trivial

theorem Expr.WellFormed.calls_any {b : Bounds} (h : e.WellFormed b) : e.Each (Calls .any) :=
  Each.mono (fun e _ => e.calls_any) e h

variable {b : Bounds}

theorem Expr.fills_between (h : e.WellFormed b) (slot : Nat) (l : Layout) :
    Step.Fills (.between slot e.width.toNat b.slots) (.named b) slot e.width.toNat
      (e.region slot l).1 :=
  fills_region (Nat.le_refl _) e h.fits h.calls_any (Limits.frees_between slot _ _)
    (fun _ hi => hi) l

/-- **An expression writes just the slots of its region.** -/
theorem Expr.records_region (M : m.Stocked b.slots room Q) (h : e.WellFormed b)
    (hRoom : slot + e.width.toNat ≤ room) (l : Layout) :
    Step.Records m Q (fun _ u => u.Exact slot e.width.toNat) (·.Within slot e.width.toNat)
      (e.region slot l).1 :=
  Step.records_exact M hRoom (fun _ hj => hj) (fills_between h slot l)

/-- **A statement uses only slots behind the regions that are in use**, unless it ends the routine.
-/
theorem Stmt.records_outline (M : m.Stocked b.slots room Q) {s : Stmt} {width : Int}
    (h : s.WellFormed b width) (hGoesOn : ∀ e, s ≠ .ret e) {cursor : Nat} (output : Int)
    {l : Layout}
    (hCursor : l.nextSlot = cursor) (hRoom : cursor + s.expr.width.toNat ≤ room) :
    Step.Records m Q (fun _ u => u.Within cursor s.expr.width.toNat)
      (·.Within cursor s.expr.width.toNat) (s.outline output l).1 := by
  have hPart (e : Expr) (hWF : e.WellFormed b) (hWidth : e.width = 1) (size : Nat) :
      (e.part l).1.Checked (.between cursor size b.slots) (.named b) :=
    Expr.checked_part (Nat.le_refl _) e hWF.fits hWF.calls_any hWidth (fun _ hi => hi) l
  refine Step.records_within M hRoom (K := .named b) (fun _ hj => hj) ?_
  cases s with
  | discard e =>
    simp only [outline, hCursor]
    split
    · trivial
    · exact (Expr.fills_between h.2 cursor _).checked
  | assignLocal index e =>
    have hChecked := hPart e h.2 h.1.2 e.width.toNat
    exact Step.allChecked_append.mpr ⟨hChecked.1, Step.allChecked_act hChecked.2⟩
  | assignVariable v e =>
    have hStop : v.offset + v.size ≤ b.slots := h.1.1
    have hSize : e.width = v.size := h.1.2
    simp only [outline, hCursor]
    split
    · rename_i hOne
      have hChecked := hPart e h.2 (by rw [hSize, hOne]; rfl) e.width.toNat
      refine Step.allChecked_append.mpr ⟨hChecked.1, Step.allChecked_act ⟨?_, hChecked.2⟩⟩
      show v.offset < b.slots
      omega
    · have hFills := Expr.fills_between h.2 cursor (l.opened v.size)
      have hRegion : e.width.toNat = v.size := by rw [hSize]; rfl
      refine Step.allChecked_append.mpr
        ⟨hFills.checked, Step.allChecked_act ⟨hStop, ⟨Int.natCast_nonneg _, ?_⟩, ?_⟩⟩
      · show (cursor : Int) + v.size ≤ ((cursor + e.width.toNat : Nat) : Int)
        omega
      · exact fun j hLow hHigh => hFills.written j hLow (Nat.lt_of_lt_of_eq hHigh (by
          show _ = _ + e.width.toNat
          rw [hRegion]))
  | ret e => exact absurd rfl (hGoesOn e)

/-! ## Slots in the text of a routine -/

/-- The slots of the scratch buffer that the text of an action mentions. -/
def Action.touched : Action → List Int
  | .setSlot slot _ => [slot]
  | .setSlots slot width _ _ => (List.range width).map fun (i : Nat) => slot + i
  | .load slot _ size | .store _ size slot => (List.range size).map fun (i : Nat) => slot + i
  | .acquire _ | .setLocal _ _ | .setTruth _ _ | .setVariable _ _ | .finish => []

/-- The slots of the scratch buffer that the text of a line mentions. -/
def Line.touched : Line → List Int
  | .act action => action.touched
  | .define _ _ | .onlyIf _ | .otherwise => []

private theorem within_of_mem_range {slot j : Int} (hNonneg : 0 ≤ slot) (hTop : slot + size ≤ room)
    (hj : j ∈ (List.range size).map fun (i : Nat) => slot + i) :
    0 ≤ j ∧ j < room := by
  obtain ⟨i, hi, rfl⟩ := List.mem_map.mp hj
  have hIn := List.mem_range.mp hi
  omega

section

variable {k : Callable} {returns : Nat}

theorem Action.Checked.touched_within {K : Facts} {action : Action}
    (h : action.Checked (.strict k room slots returns) K) {j : Int} (hj : j ∈ action.touched) :
    0 ≤ j ∧ j < room := by
  cases action with
  | setSlot slot value =>
    obtain ⟨hNonneg, hTop⟩ := h.1
    cases List.mem_singleton.mp hj
    omega
  | setSlots | store => exact within_of_mem_range h.2.1.1 h.2.1.2 hj
  | load => exact within_of_mem_range h.1.1 h.1.2 hj
  | acquire | setLocal | setTruth | setVariable | finish => exact absurd hj List.not_mem_nil

namespace Step

mutual

theorem Checked.touched_within : ∀ {K : Facts} (s : Step) {level : Nat},
    s.Checked (.strict k room slots returns) K → ∀ {line : Nat × Line}, line ∈ s.lines level →
    ∀ {j : Int}, j ∈ line.2.touched → 0 ≤ j ∧ j < room
  | _, .act action, _, h, line, hLine, j, hj => by
    cases List.mem_singleton.mp hLine
    exact Action.Checked.touched_within h hj
  | _, .choose test yes no, level, h, line, hLine, j, hj => by
    rcases List.mem_cons.mp hLine with rfl | hLine
    · exact absurd hj List.not_mem_nil
    · rcases List.mem_append.mp hLine with hLine | hLine
      · exact AllChecked.touched_within yes h.2.1 hLine hj
      · rcases List.mem_cons.mp hLine with rfl | hLine
        · exact absurd hj List.not_mem_nil
        · exact AllChecked.touched_within no h.2.2 hLine hj

/-- The lines of checked steps mention only slots of their buffer. -/
theorem AllChecked.touched_within : ∀ {K : Facts} (steps : List Step) {level : Nat},
    AllChecked (.strict k room slots returns) K steps →
    ∀ {line : Nat × Line}, line ∈ listing level steps →
    ∀ {j : Int}, j ∈ line.2.touched → 0 ≤ j ∧ j < room
  | _, [], _, _, _, hLine, _, _ => absurd hLine List.not_mem_nil
  | _, s :: rest, _, h, _, hLine, _, hj => by
    rcases List.mem_append.mp hLine with hLine | hLine
    · exact Checked.touched_within s h.1 hLine hj
    · exact AllChecked.touched_within rest h.2 hLine hj

end

end Step

end

/-- **The lines of a routine mention only slots below its extent.** -/
theorem Routine.touched_write (h : e.Compilable b) (name : String) :
    ∃ d, write name e b.args b.temps (draft b.args b.temps) = .ok () d ∧
      ∀ line ∈ d.listing.lines, ∀ j ∈ line.2.touched, 0 ≤ j ∧ j < d.layout.extent := by
  refine ⟨_, write_outline h.writable name b.args b.temps, fun line hLine j hj => ?_⟩
  obtain ⟨rest, hBody, hChecked, -⟩ :=
    (checked_outline h.writable (Nat.le_refl _) (h.eachNode.mono fun e _ => e.calls_any) name).body
  rw [hBody] at hLine
  rcases List.mem_cons.mp hLine with rfl | hLine
  · exact absurd hj List.not_mem_nil
  · rcases List.mem_append.mp hLine with hLine | hLine
    · cases List.mem_singleton.mp hLine
      exact absurd hj List.not_mem_nil
    · let extent := (e.mainSteps (.start b.args b.firstFresh 0)).2.extent
      have hWithin : 0 ≤ j ∧ j < ((extent.toNat : Nat) : Int) :=
        Step.AllChecked.touched_within rest hChecked hLine hj
      have hWidth := h.width_nonneg
      show 0 ≤ j ∧ j < extent
      omega

/-- **Regions are exact, and handed out like frames of a stack.**  A tree is written, and its lines
are run on any machine that has room for them and on which the variables of the tree are there.

* An expression is written into any region; its cursor stays where it was.  Every run of the lines
  uses only slots of the region, and if it goes through it has written all of them.
* A statement other than a return is written while the slots before the cursor are in use, the
  result region among them.  Every run of its lines uses only slots from the cursor on, and none of
  the result region.  Cursor and result region stay as they were, behind one statement and behind
  any number of them.
* A return writes just the slots of the result region, and then ends the routine.
* A routine reserves its result region first; the cursor then stands behind it.  Each slot that its
  lines mention lies below the extent that it asks for. -/
theorem regions_are_exact_and_stacked (M : m.Stocked b.slots room Q) :
    (∀ {e : Expr}, e.WellFormed b → ∀ (slot : Nat) (d : Draft), slot + e.width ≤ room →
      ∃ steps l, e.emission.into slot d = .ok () (d.extend steps l) ∧
        l.nextSlot = d.layout.nextSlot ∧
        Step.Records m Q (fun _ u => u.Exact slot e.width.toNat) (·.Within slot e.width.toNat)
          steps) ∧
    (∀ {s : Stmt} {width : Int}, s.WellFormed b width → (∀ e, s ≠ .ret e) →
      ∀ {d : Draft} {output cursor : Nat}, d.layout.resultRegion = some (output : Int) →
      d.layout.nextSlot = cursor → output + width ≤ cursor → cursor + s.expr.width ≤ room →
      ∃ steps l, s.emission d = .ok () (d.extend steps l) ∧ l.nextSlot = cursor ∧
        Step.Records m Q
          (fun _ u => u.Within cursor s.expr.width.toNat ∧ u.Spares output width.toNat)
          (fun u => u.Within cursor s.expr.width.toNat ∧ u.Spares output width.toNat) steps) ∧
    (∀ {e : Expr} {width : Int}, (Stmt.ret e).WellFormed b width →
      ∀ {d : Draft} {output : Nat}, d.layout.resultRegion = some (output : Int) →
      output + width ≤ room →
      ∃ steps l, (Stmt.ret e).emission d = .ok () (d.extend steps l) ∧
        l.nextSlot = d.layout.nextSlot ∧
        Step.Records m Q (fun flow u => flow = .ended ∧ u.Exact output width.toNat)
          (·.Within output width.toNat) steps) ∧
    (∀ {statements : List Stmt} {width : Int}, (∀ s ∈ statements, s.WellFormed b width) →
      ∀ {d : Draft} {output : Int}, d.layout.resultRegion = some output →
      ∃ steps l, (Stmt.emissions statements).forM id d = .ok () (d.extend steps l) ∧
        l.nextSlot = d.layout.nextSlot ∧ l.resultRegion = some output) ∧
    ∀ {e : Expr}, e.Compilable b → ∀ name : String,
      (∀ d : Draft, ∃ l, Writing.reserve e.width d = .ok d.layout.nextSlot (d.extend [] l) ∧
        l.nextSlot = d.layout.nextSlot + e.width) ∧
      ∃ d, Routine.write name e b.args b.temps (Routine.draft b.args b.temps) = .ok () d ∧
        ∀ line ∈ d.listing.lines, ∀ j ∈ line.2.touched, 0 ≤ j ∧ j < d.layout.extent := by
  refine ⟨?_, ?_, ?_, ?_, ?_⟩
  · intro e hWF slot d hRoom
    have hWidth := Expr.WellFormed.width_nonneg e hWF
    exact ⟨_, _, Expr.writes_region e hWF.fits slot d.layout d rfl,
      (Expr.grows_region e slot d.layout).nextSlot,
      Expr.records_region M hWF (by omega) d.layout⟩
  · intro s width hWF hGoesOn d output cursor hOutput hCursor hApart hRoom
    have hWidth := Expr.WellFormed.width_nonneg s.expr hWF.2
    have hSpares {u : SlotUse} (h : u.Within cursor s.expr.width.toNat) :
        u.Spares output width.toNat := h.spares fun j hLow hHigh => by omega
    refine ⟨_, _, Stmt.writes_outline hOutput s hWF.writable d rfl,
      (Stmt.grows_outline output s d.layout).nextSlot.trans hCursor, fun a hQ => ?_⟩
    refine (Stmt.records_outline M hWF hGoesOn output hCursor (by omega) a hQ).mono ?_ ?_
    · exact fun _ _ _ _ h => ⟨h.1, h.2.1, h.2.2.1, h.2.2.2, hSpares h.2.2.2⟩
    · exact fun _ _ h => ⟨h.1, h.2, hSpares h.2⟩
  · intro e width hWF d output hOutput hRoom
    have hSame : e.width = width := hWF.1
    have hWidth := Expr.WellFormed.width_nonneg e hWF.2
    rw [← hSame] at hRoom ⊢
    exact ⟨_, _, Stmt.writes_outline hOutput (.ret e) hWF.writable d rfl,
      (Stmt.grows_outline output (.ret e) d.layout).nextSlot,
      (Expr.records_region M (e := e) hWF.2 (by omega) d.layout).finish⟩
  · intro statements width hWF d output hOutput
    have hGrows := Stmt.grows_outlines output statements d.layout
    exact ⟨_, _, Stmt.writes_outlines statements (fun t ht => (hWF t ht).writable) d.layout hOutput
      d rfl, hGrows.nextSlot, hGrows.resultRegion.trans hOutput⟩
  · intro e hWF name
    exact ⟨fun d => ⟨_, Writes.reserve hWF.width_nonneg d.layout d rfl, rfl⟩,
      Routine.touched_write hWF name⟩

end

/-! ## The machine of a session -/

/-- **A machine that is mirrored** keeps what it has in common with its mirror image. -/
theorem Machine.Mirrors.maintains {σ τ : Type} {m : Machine σ} {m' : Machine τ} {lim : Limits}
    {R : (Nat → Prop) → σ → τ → Prop} {F : σ → τ → Prop} (M : m.Mirrors m' lim R F) :
    m.Maintains lim (fun s => ∃ t, R (fun _ => True) s t) fun _ => True := by
  have hEnds {α β : Type} {done : α → σ → β → τ → Prop} {x : Outcome σ α} {y : Outcome τ β}
      (h : Agree done F x y) (hDone : ∀ a s b t, done a s b t → R (fun _ => True) s t) :
      Ends (fun _ s => ∃ t, R (fun _ => True) s t) (fun _ => True) x :=
    h.ends.mono (fun a s ⟨b, t, hBoth⟩ => ⟨t, hDone a s b t hBoth⟩) fun _ _ => trivial
  exact {
    readVariable := fun hSlot _ ⟨_, h⟩ => hEnds (M.readVariable hSlot h) fun _ _ _ _ h => h.2
    writeVariable := fun hSlot x _ ⟨_, h⟩ => hEnds (M.writeVariable hSlot x h) fun _ _ _ _ h => h
    call := fun hHost f args _ ⟨_, h⟩ => hEnds (M.call hHost f args h) fun _ _ _ _ h => h.2
    writeSlot := fun hSlot x _ ⟨_, h⟩ =>
      hEnds (M.writeSlot hSlot x h) fun _ _ _ _ => M.weaken fun _ => .inr
    load := fun hSlot hSpan _ ⟨_, h⟩ =>
      hEnds (M.load hSlot hSpan h) fun _ _ _ _ => M.weaken fun _ => .inr
    store := fun hSpan hSlot _ ⟨_, h⟩ =>
      hEnds (M.store hSpan hSlot (fun _ _ _ => trivial) h) fun _ _ _ _ h => h }

namespace Session

/-- **The machine of a session** is stocked with the variables of its instance, whatever host
functions do, from the moment on when a routine has got its buffer. -/
theorem machine_stocked {s : Session} {a : Artifact} {i : Instance} (hSound : s.Sound)
    (hHoused : s.Houses a) (hAt : s.instance? a.home = some i) {slots room : Nat}
    (hSlots : slots ≤ i.space.cursor) (hRoom : room ≤ i.scratch.buffer.size) (host : Host)
    (limit : Nat) :
    let m := machine a.home (i.depth + 1) (callDeed host (hosted host limit) a)
    ∃ Q : World → Prop, m.Stocked slots room Q ∧
      Ends (fun _ => Q) (fun _ => True)
        (m.acquire room ⟨s.changeDepth a.home (· + 1), .shared⟩) := by
  let S : Stage := ⟨s, a, [], .strict .any room slots 0, False, hHoused, ⟨i, hAt, hSlots, hRoom⟩,
    List.forall_mem_nil _, fun hFalse => absurd hFalse id⟩
  have hCall : CallsAttended a (callDeed host (hosted host limit) a)
      (Watch.manner.callDeed host (Watch.manner.hosted host limit) a) := fun f xs _ =>
    Watch.manner_reflects.callDeed (Watch.manner_reflects.hosted host limit) host f xs
  refine ⟨fun w => ∃ r, Shows S (fun _ => True) w r,
    ⟨(watched_mirrors S (i.depth + 1) hCall).maintains, ?_⟩, ?_⟩
  · rintro offset size hSpan w ⟨r, rfl, hRuns⟩
    exact .ok (size_slice (Nat.le_trans hSpan hRuns.store_fits))
  · have hDepth {j : Instance} (hj : (s.changeDepth a.home (· + 1)).instance? a.home = some j) :
        j.depth = i.depth + 1 := by
      cases (instance?_raised hAt).symm.trans hj
      rfl
    have hAcquire := (S.halts_start hSound (List.forall_mem_nil _)).acquire_agrees rfl hDepth
      (K := ⟨fun _ => True, fun _ => True⟩) (fun hFalse => absurd hFalse id)
      (callDeed host (hosted host limit) a)
      (Watch.manner.callDeed host (Watch.manner.hosted host limit) a)
    exact hAcquire.ends.mono (fun _ _ ⟨_, r, hShows⟩ => ⟨r, hShows⟩) fun _ _ => trivial

end Session

/-! ## A pair behind the result -/

/-- A session with a variable of two values and a buffer of three slots. -/
def pairAndBuffer : Session :=
  (Session.start none).obeyAll .mute "a" [.create "a" ⟨some [], false, [], false, false⟩,
    .task "a" (.declare "2$p" 2), .task "a" (.compile ⟨"[1, 2, 3]", [], []⟩)]

def pairAssignment : Stmt := .assignVariable ⟨"2$p", 2, 0⟩ (.constant [1, 2])

/-- A routine with one slot for its result before its first statement is written. -/
def oneResult : Draft := ⟨.empty, { (Layout.start 0 1 0).opened 1 with resultRegion := some 0 }⟩

open Session in
/-- The machine on which the artifact of the session runs builds the pair behind the result. -/
theorem pair_is_built_behind_the_result :
    pairAssignment.WellFormed ⟨0, 0, 2⟩ 1 ∧ ∃ a Q w, some a ∈ pairAndBuffer.artifacts ∧
      let m := machine a.home 1 (callDeed .mute (hosted .mute 1) a)
      m.acquire 3 ⟨pairAndBuffer.changeDepth a.home (· + 1), .shared⟩ = .ok () w ∧ Q w ∧
      m.Stocked 2 3 Q ∧
      ∃ steps l, pairAssignment.emission oneResult = .ok () (oneResult.extend steps l) ∧
        l.nextSlot = (1 : Nat) ∧ Step.Records m Q
          (fun _ u => u.Within 1 2 ∧ u.Spares 0 1) (fun u => u.Within 1 2 ∧ u.Spares 0 1)
          steps := by
  have hWF : pairAssignment.WellFormed ⟨0, 0, 2⟩ 1 := ⟨⟨by decide, rfl⟩, trivial, trivial⟩
  have hSound : pairAndBuffer.Sound := (reached_obeyAll "a" _ _).atRest.sound
  have hSizes : (pairAndBuffer.artifacts.head?.join.map fun a =>
      (pairAndBuffer.instance? a.home).map fun i =>
        (i.space.cursor, i.scratch.buffer.size, i.depth)) = some (some (2, 3, 0)) := by
    decide +kernel
  obtain ⟨a, ha, hInside⟩ := Option.map_eq_some_iff.mp hSizes
  obtain ⟨i, hAt, hBoth⟩ := Option.map_eq_some_iff.mp hInside
  have hMem : some a ∈ pairAndBuffer.artifacts :=
    List.mem_of_mem_head? (Option.join_eq_some_iff.mp ha)
  simp only [Prod.mk.injEq] at hBoth
  obtain ⟨hCursor, hBuffer, hIdle⟩ := hBoth
  generalize pairAndBuffer = s at hSound hMem hAt ⊢
  obtain ⟨Q, hStocked, hAcquired⟩ := machine_stocked hSound (hSound.artifacts hMem) hAt
    (Nat.le_of_eq hCursor.symm) (Nat.le_of_eq hBuffer.symm) .mute 1
  rw [hIdle, Nat.zero_add] at hStocked hAcquired
  rw [acquire_shared] at hAcquired
  cases hAcquired with
  | ok hQ =>
    refine ⟨hWF, a, Q, _, hMem, acquire_shared .., hQ, hStocked, ?_⟩
    exact (regions_are_exact_and_stacked (b := ⟨0, 0, 2⟩) hStocked).2.1 hWF
      (fun _ h => Stmt.noConfusion h) (rfl : oneResult.layout.resultRegion = some ((0 : Nat) : Int))
      (rfl : _ = ((1 : Nat) : Int)) (by decide) (by decide)

end MolangCompiler
