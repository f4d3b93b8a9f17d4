import MolangCompiler.Proofs.Blanking
import MolangCompiler.Proofs.Execution
import MolangCompiler.Proofs.Oblivious

/-!
# What an evaluation means

Evaluating an artifact does what its source means, with the variables of the instance and its host
functions for surroundings.  The tree knows nothing of the scratch buffer, so its meaning is taken
in a session whose shared buffer is blank (`Session.blanked`); impartial host functions do not see
the difference.  Nor must the evaluation be hindered: it gets its buffer at depth one, or where the
bytes of the instance are not counted.
-/

namespace MolangCompiler

namespace Session

/-! ## Surroundings -/

def variablesOf (number : Nat) : Slots Session where
  get s := (s.workshop number).inst.space.store
  put store s := s.changeInstance number (·.setStore store)

/-- The variables of an instance, with given host functions. -/
def surroundings (number : Nat) (call : String → List Float → Act Session HostValue) :
    Surroundings Session where
  readVariable := (variablesOf number).read
  writeVariable := (variablesOf number).write
  readVariables := (variablesOf number).readMany
  writeVariables := (variablesOf number).writeMany
  call := call

/-! ## Routines that stand for their trees -/

/-- The routine of an artifact runs at a given depth, with room in its buffer; the session of its
tree is the same but for blanks in the shared buffer. -/
structure Serves (a : Artifact) (depth slots room : Nat) (s : Session) (w : World) : Prop where
  blank : s = w.session.blanked a.home
  sound : w.session.Sound
  housed : w.session.Houses a
  engaged : w.session.Engaged a.home depth
  slots : ∃ i, w.session.instance? a.home = some i ∧ slots ≤ i.space.cursor
  room : room ≤ ((bufferOf a.home).get w).size

namespace Serves

variable {a : Artifact} {depth slots room : Nat} {s : Session} {w : World}

section

variable (h : Serves a depth slots room s w)
include h

theorem store_eq : (variablesOf a.home).get s = (storeOf a.home).get w := by
  show (s.workshop a.home).inst.space.store = (w.session.workshop a.home).inst.space.store
  rw [h.blank, workshop_blanked]
  rfl

theorem slots_le : slots ≤ ((storeOf a.home).get w).size := by
  obtain ⟨i, hAt, hSlots⟩ := h.slots
  exact World.store_fits hAt h.sound hSlots

theorem putStore (xs : Array Float) (hx : ChangedBelow slots ((storeOf a.home).get w) xs) :
    Serves a depth slots room ((variablesOf a.home).put xs s) ((storeOf a.home).put xs w) ∧
      (bufferOf a.home).get ((storeOf a.home).put xs w) = (bufferOf a.home).get w := by
  obtain ⟨i, hAt, hSlots⟩ := h.slots
  have hAt' : ((storeOf a.home).put xs w).session.instance? a.home = some (i.setStore xs) :=
    instance?_changed hAt _
  have hBuffer : (bufferOf a.home).get ((storeOf a.home).put xs w) = (bufferOf a.home).get w := by
    cases hLoan : w.loan with
    | shared =>
      have hShared : ((storeOf a.home).put xs w).loan = .shared := hLoan
      rw [World.buffer_shared hShared hAt', World.buffer_shared hLoan hAt]
      rfl
    | own buf charged =>
      rw [World.buffer_own hLoan]
      exact World.buffer_own (w := (storeOf a.home).put xs w) hLoan
  rw [World.store_eq hAt] at hx
  refine ⟨?_, hBuffer⟩
  exact { blank := by
            rw [h.blank]
            exact changeInstance_blanked (f := (·.setStore xs)) (fun _ _ => rfl) w.session
          sound := h.sound.setStore hAt hx.size fun j hj => hx.above j (Nat.le_trans hSlots hj)
          housed := h.housed.grows (grows_setStore hAt hx.size)
          engaged := h.engaged.changeInstance fun _ _ => rfl
          slots := ⟨i.setStore xs, hAt', hSlots⟩
          room := hBuffer ▸ h.room }

theorem putBuffer (xs : Array Float) (hx : xs.size = ((bufferOf a.home).get w).size) :
    Serves a depth slots room s ((bufferOf a.home).put xs w) ∧
      (bufferOf a.home).get ((bufferOf a.home).put xs w) = xs := by
  cases hLoan : w.loan with
  | own buf charged =>
    rw [World.put_own hLoan]
    exact ⟨{ h with room := Nat.le_trans h.room (Nat.le_of_eq hx.symm) }, rfl⟩
  | shared =>
    obtain ⟨i, hAt, hSlots⟩ := h.slots
    rw [World.buffer_shared hLoan hAt] at hx
    have hAt' := instance?_changed hAt (·.setBuffer xs)
    have hGet : (bufferOf a.home).get
        ⟨w.session.changeInstance a.home (·.setBuffer xs), .shared⟩ = xs :=
      World.buffer_shared (i := i.setBuffer xs) rfl hAt'
    have hBlank : (w.session.changeInstance a.home (·.setBuffer xs)).blanked a.home =
        w.session.blanked a.home := by
      unfold blanked
      rw [changeInstance_twice, workshop_inst hAt, workshop_inst hAt']
      show w.session.changeInstance a.home
        (fun _ => (i.setBuffer xs).setBuffer (Array.replicate xs.size 0)) = _
      rw [hx]
      rfl
    rw [World.put_shared hLoan]
    refine ⟨?_, hGet⟩
    exact { blank := h.blank.trans hBlank.symm
            sound := h.sound.setBuffer hAt (Nat.le_of_eq hx.symm)
            housed := by
              obtain ⟨i', hi', hSuits⟩ := h.housed
              cases hAt.symm.trans hi'
              exact ⟨_, hAt', hSuits.mono (Nat.le_refl _) (Nat.le_of_eq hx.symm) rfl⟩
            engaged := h.engaged.changeInstance fun _ _ => rfl
            slots := ⟨_, hAt', hSlots⟩
            room := by
              have hRoom := h.room
              rw [World.buffer_shared hLoan hAt, ← hx] at hRoom
              rw [hGet]
              exact hRoom }

/-- A host function was called: the session has grown, but its shared buffer has kept its numbers.
-/
theorem after (hRunning : 0 < depth) {t : Session}
    (hSound : t.Sound) (hGrows : w.session.Grows t) (hEngaged : t.Engaged a.home depth) :
    Serves a depth slots room (t.blanked a.home) ⟨t, w.loan⟩ ∧
      ∀ j < room, slotView ((bufferOf a.home).get ⟨t, w.loan⟩) j =
        slotView ((bufferOf a.home).get w) j := by
  obtain ⟨i, hAt, hSlots⟩ := h.slots
  obtain ⟨i', hAt', hMore⟩ := hGrows.some hAt
  have hDepth : 0 < i.depth := by
    obtain ⟨j, hj, hDepth⟩ := h.engaged.here
    cases hAt.symm.trans hj
    exact hDepth ▸ hRunning
  have hRoom := h.room
  -- the buffer is at least as long as before, and its numbers are the same
  have hBuffer : room ≤ ((bufferOf a.home).get ⟨t, w.loan⟩).size ∧
      ∀ j < room, slotView ((bufferOf a.home).get ⟨t, w.loan⟩) j =
        slotView ((bufferOf a.home).get w) j := by
    obtain ⟨hSize, hSame⟩ := World.buffer_grows hAt hDepth hGrows
    refine ⟨Nat.le_trans hRoom hSize, fun j hj => ?_⟩
    unfold slotView
    rw [hSame j (Nat.lt_of_lt_of_le hj hRoom)]
  refine ⟨?_, hBuffer.2⟩
  exact { blank := rfl
          sound := hSound
          housed := h.housed.grows hGrows
          engaged := hEngaged
          slots := ⟨i', hAt', Nat.le_trans hSlots hMore.space.cursor⟩
          room := hBuffer.1 }

end

end Serves

section

variable {a : Artifact} {depth deep : Nat} {call : Calls}

/-- **A session serves the trees of its artifacts** if the calls of host functions are heedless of
the shared buffer. -/
def service (a : Artifact) (deep : Nat) (hRunning : 0 < depth)
    (hCall : ∀ f xs, Heedless a.home depth (call f xs) (call f xs)) (hSound : SoundCalls a call)
    (slots room : Nat) :
    Service (surroundings a.home call) (machine a.home deep call) slots room where
  rel := Serves a depth slots room
  slot w := slotView ((bufferOf a.home).get w)
  readVariable {s w i} hRel _ := by
    show Agree _ _ ((variablesOf a.home).read i s) ((storeOf a.home).read i w)
    unfold Slots.read
    rw [hRel.store_eq]
    cases ((storeOf a.home).get w)[i]? with
    | some => exact .ok ⟨rfl, hRel, fun _ _ => rfl⟩
    | none => exact .error hRel
  writeVariable {s w i} hRel hi x := by
    show Agree _ _ ((variablesOf a.home).write i x s) ((storeOf a.home).write i x w)
    have hIn : i < ((storeOf a.home).get w).size := Nat.lt_of_lt_of_le hi hRel.slots_le
    unfold Slots.write
    rw [hRel.store_eq, setSlot?_eq_some hIn]
    obtain ⟨hRel', hBuffer⟩ := hRel.putStore (((storeOf a.home).get w).setIfInBounds i (single x))
      ⟨Array.size_setIfInBounds, fun j hj => Array.getElem?_setIfInBounds_ne (by omega)⟩
    exact .ok ⟨hRel', fun j _ => by rw [hBuffer]⟩
  readVariables {s w offset size} hRel hSpan := by
    show Agree _ _ ((variablesOf a.home).readMany offset size s)
      ((storeOf a.home).readMany offset size w)
    unfold Slots.readMany
    rw [hRel.store_eq]
    exact .ok ⟨rfl, size_slice (Nat.le_trans hSpan hRel.slots_le), hRel, fun _ _ => rfl⟩
  writeVariables {s w offset size} hRel hSpan {xs} hSize := by
    show Agree _ _ ((variablesOf a.home).writeMany offset size xs s)
      ((storeOf a.home).writeMany offset size xs w)
    have hIn : offset + size ≤ ((storeOf a.home).get w).size := Nat.le_trans hSpan hRel.slots_le
    unfold Slots.writeMany
    rw [hRel.store_eq]
    obtain ⟨hRel', hBuffer⟩ := hRel.putStore
      (splice ((storeOf a.home).get w) offset (offset + size) xs)
      ⟨size_splice hIn hSize, fun j hj => getElem?_splice_outside hIn hSize (.inr (by omega))⟩
    exact .ok ⟨hRel', fun j _ => by rw [hBuffer]⟩
  call {s w} hRel f xs := by
    have hBoth := (hCall f xs w.session hRel.engaged).agree.and_ends_right
      (hSound f xs hRel.housed hRel.sound)
    rw [← hRel.blank] at hBoth
    show Agree _ _ (call f xs s) (onPart World.session (fun s w => { w with session := s })
      (call f xs) w)
    unfold onPart
    generalize call f xs w.session = out at hBoth ⊢
    generalize call f xs s = out' at hBoth ⊢
    cases hBoth with
    | ok hDone =>
      obtain ⟨⟨rfl, rfl, hEngaged, -⟩, hOk, hGrows, -⟩ := hDone
      obtain ⟨hRel', hSlots⟩ := hRel.after hRunning hOk hGrows hEngaged
      exact .ok ⟨rfl, hRel', hSlots⟩
    | error hFailed =>
      obtain ⟨⟨rfl, hEngaged, -⟩, hOk, hGrows⟩ := hFailed
      exact .error (hRel.after hRunning hOk hGrows hEngaged).1
  writeSlot {s w i} hRel hi x := by
    have hIn : i < ((bufferOf a.home).get w).size := Nat.lt_of_lt_of_le hi hRel.room
    obtain ⟨hRel', hBuffer⟩ := hRel.putBuffer
      (((bufferOf a.home).get w).setIfInBounds i (single x)) Array.size_setIfInBounds
    refine ⟨_, ?_, hRel', fun j _ => ?_⟩
    · show (bufferOf a.home).write i x w = _
      unfold Slots.write
      rw [setSlot?_eq_some hIn]
    · rw [hBuffer, slotView_setIfInBounds hIn]
  readSlots {s w i size} hRel hSpan :=
    ⟨_, rfl, toList_slice _ i size (Nat.le_trans hSpan hRel.room)⟩
  writeSlots {s w i size} hRel hSpan {xs} hSize := by
    have hIn : i + size ≤ ((bufferOf a.home).get w).size := Nat.le_trans hSpan hRel.room
    obtain ⟨hRel', hBuffer⟩ := hRel.putBuffer
      (splice ((bufferOf a.home).get w) i (i + size) xs) (size_splice hIn hSize)
    refine ⟨_, rfl, hRel', fun j _ => ?_⟩
    rw [hBuffer, slotView_splice hIn hSize]

end

/-! ## Evaluations that are not hindered -/

variable {s : Session} {m depth : Nat} {i : Instance} {a : Artifact}

/-- At depth one there is a buffer already, and deeper down it is not refused if bytes are not
counted. -/
theorem acquire_freely (hFree : depth ≤ 1 ∨ (s.workshop m).books.ledger = none) (room : Nat)
    (call : Calls) :
    ∃ loan, (loan = .shared ∨ ∃ charged, loan = .own (Array.replicate room 0) charged) ∧
      (machine m depth call).acquire room ⟨s, .shared⟩ =
        .ok () ⟨s.setWorkshop m (s.workshop m), loan⟩ := by
  have hRun (loan : Loan) (h : ScratchRoom.acquire room depth
      ⟨(s.workshop m).books, (s.workshop m).inst.scratch⟩ =
        .ok loan ⟨(s.workshop m).books, (s.workshop m).inst.scratch⟩) :
      (machine m depth call).acquire room ⟨s, .shared⟩ =
        .ok () ⟨s.setWorkshop m (s.workshop m), loan⟩ := by
    have hScratch : Workshop.onScratch (ScratchRoom.acquire room depth) (s.workshop m) =
        .ok loan (s.workshop m) := by
      unfold Workshop.onScratch onPart
      rw [h]
    have hHere : onInstance m (Workshop.onScratch (ScratchRoom.acquire room depth)) s =
        .ok loan (s.setWorkshop m (s.workshop m)) := onPart_of_ok hScratch
    unfold machine Machine.ofSlots
    dsimp only
    rw [hHere]
  by_cases hDepth : depth ≤ 1
  · refine ⟨.shared, .inl rfl, hRun _ ?_⟩
    rw [ScratchRoom.acquire_shallow hDepth]
    rfl
  · have hLedger := hFree.resolve_left hDepth
    refine ⟨.own (Array.replicate room 0) (bufferBytes room), .inr ⟨_, rfl⟩, hRun _ ?_⟩
    rw [ScratchRoom.acquire_deep (Nat.lt_of_not_le hDepth)]
    exact bind_of_ok (onPart_of_ok (Books.charge_uncounted _ hLedger))

/-- The session in which the tree of an artifact is evaluated: one level deeper, with a blank
buffer. -/
def entered (number : Nat) (s : Session) : Session :=
  let inner := s.changeDepth number (· + 1)
  (inner.setWorkshop number (inner.workshop number)).blanked number

theorem space_entered (hAt : s.instance? m = some i) :
    ((s.entered m).workshop m).inst.space = i.space := by
  unfold entered
  rw [workshop_blanked]
  show (workshop m (setWorkshop m _ _)).inst.space = i.space
  rw [workshop_inst ((instance?_setWorkshop_self _ m m).trans (instance?_raised hAt))]

/-- Two sessions in which an instance has the same variables with the same values. -/
def SameSpace (number : Nat) (s t : Session) : Prop :=
  (t.workshop number).inst.space = (s.workshop number).inst.space

/-- When a routine gives its buffer back, the session has the variables that its tree has left. -/
theorem Serves.left {slots room : Nat} {w : World} (h : Serves a depth slots room s w)
    (failed : Bool) : SameSpace a.home s (w.close failed a.home) := by
  obtain ⟨i, hAt, -⟩ := h.slots
  unfold SameSpace
  rw [workshop_inst ((instance?_close failed w a.home a.home).trans hAt), h.blank, workshop_blanked]
  show i.space = (w.session.workshop a.home).inst.space
  rw [workshop_inst hAt]

/-- A sound session has only artifacts that ask for their buffer first. -/
theorem Sound.opens (h : s.Sound) (ha : some a ∈ s.artifacts) : a.Opens := by
  obtain ⟨i, -, hSuits⟩ := h.artifacts ha
  obtain ⟨room, slots, hChecked, -⟩ := hSuits.loose
  obtain ⟨rest, hBody, -⟩ := hChecked.body
  exact ⟨_, rest, hBody⟩

/-- A routine that has just got its buffer stands for its tree. -/
theorem serves_begun {slots room : Nat} (hSound : s.Sound) (hHoused : s.Houses a)
    (hAt : s.instance? a.home = some i) (hDepth : i.depth = depth) (hSlots : slots ≤ i.space.cursor)
    (hRoom : room ≤ i.scratch.buffer.size) {loan : Loan}
    (hLoan : loan = .shared ∨ ∃ charged, loan = .own (Array.replicate room 0) charged) :
    Serves a depth slots room ((s.setWorkshop a.home (s.workshop a.home)).blanked a.home)
      ⟨s.setWorkshop a.home (s.workshop a.home), loan⟩ := by
  have hSame := instance?_setWorkshop_self s a.home
  have hArtifacts : (s.setWorkshop a.home (s.workshop a.home)).artifacts = s.artifacts := rfl
  generalize s.setWorkshop a.home (s.workshop a.home) = s₁ at hSame hArtifacts ⊢
  have hAt₁ : s₁.instance? a.home = some i := (hSame a.home).trans hAt
  have hEnlarges : s.Enlarges s₁ :=
    fun n j hj => ⟨j, (hSame n).trans hj, Nat.le_refl _, Nat.le_refl _, rfl⟩
  exact { blank := rfl
          sound := hSound.enlarges hEnlarges
            (fun {n j} hj => hSound.spaces ((hSame n).symm.trans hj)) hArtifacts
          housed := hEnlarges.houses hHoused
          engaged := ⟨⟨i, hAt₁, hDepth⟩, fun b hb => hSound.opens (hArtifacts ▸ hb)⟩
          slots := ⟨i, hAt₁, hSlots⟩
          room := by
            rcases hLoan with rfl | ⟨charged, rfl⟩
            · rw [World.buffer_shared rfl hAt₁]
              exact hRoom
            · exact Nat.le_of_eq Array.size_replicate.symm }

end Session

/-! ## Artifacts that were written for a tree -/

/-- The routine of an artifact was written for a tree, and an instance has room for it. -/
structure Artifact.Renders (a : Artifact) (e : Expr) (temps : Nat) (i : Instance) : Prop where
  routine : ∃ name, a.routine = Routine.outline name e a.args temps
  returns : a.returns = e.width.toNat
  tree : ∃ slots ≤ i.space.cursor, e.Compilable ⟨a.args, temps, slots⟩
  room : (e.mainSteps (Layout.start a.args (a.args + 1 + temps) 0)).2.extent.toNat ≤
    i.scratch.buffer.size

theorem Artifact.Renders.mono {a : Artifact} {e : Expr} {temps : Nat} {i i' : Instance}
    (h : a.Renders e temps i) (hCursor : i.space.cursor ≤ i'.space.cursor)
    (hBuffer : i.scratch.buffer.size ≤ i'.scratch.buffer.size) : a.Renders e temps i' where
  routine := h.routine
  returns := h.returns
  tree := by
    obtain ⟨slots, hSlots, hWF⟩ := h.tree
    exact ⟨slots, Nat.le_trans hSlots hCursor, hWF⟩
  room := Nat.le_trans h.room hBuffer

namespace Compiled

variable {home : Nat} {r : Request} {w w' w₁ : Workshop} {a : Artifact} {p : Expr × Nat} {d : Draft}

theorem renders_of_compilable (h : Compiled home r w a w' p w₁ d) {slots : Nat}
    (hSlots : slots ≤ w₁.inst.space.cursor)
    (hWF : p.1.Compilable ⟨r.context.length, p.2, slots⟩) : a.Renders p.1 p.2 w'.inst := by
  rw [← h.args] at hWF
  obtain ⟨hRoutine, hLayout⟩ := h.outlined hWF
  have hRoom := h.room
  rw [hLayout] at hRoom
  exact ⟨hRoutine, h.returns, ⟨slots, Nat.le_trans hSlots h.added.space.cursor, hWF⟩, hRoom⟩

/-- **What is compiled renders the tree that was read**, on an instance without templates. -/
theorem renders (h : Compiled home r w a w' p w₁ d) (hSound : w.inst.space.Sound) {k : Callable}
    (hQueries : w.inst.Obeys k) :
    a.Renders p.1 p.2 w'.inst ∧ p.1.EachNode (Expr.Calls k) := by
  obtain ⟨hWF, hCalls⟩ := h.compilable hSound hQueries
  rw [h.args] at hWF
  exact ⟨h.renders_of_compilable (Nat.le_refl _) hWF, hCalls⟩

end Compiled

namespace Session

/-! ## Evaluations -/

section

variable {s : Session} {a : Artifact} {i : Instance} {e : Expr} {temps : Nat} {call : Calls}

theorem runRoutine_denotes {depth deep : Nat} (hRunning : 0 < depth)
    (hCall : ∀ f xs, Heedless a.home depth (call f xs) (call f xs)) (hCalls : SoundCalls a call)
    (hRenders : a.Renders e temps i) (hApply : e.EachNode Expr.ConstantsApply)
    (hSound : s.Sound) (hHoused : s.Houses a) (hAt : s.instance? a.home = some i)
    (hDepth : i.depth = depth) (hFree : deep ≤ 1 ∨ (s.workshop a.home).books.ledger = none)
    {args : List Float} (hArgs : args.length = a.args) :
    Agree (fun xs w ys t => ys = xs ∧ xs.length = a.returns ∧ SameSpace a.home w t)
      (SameSpace a.home)
      (e.evaluate (surroundings a.home call) args temps
        ((s.setWorkshop a.home (s.workshop a.home)).blanked a.home))
      (runRoutine a deep call args s) := by
  obtain ⟨name, hRoutine⟩ := hRenders.routine
  obtain ⟨slots, hSlots, hWF⟩ := hRenders.tree
  rw [← hArgs] at hRoutine hWF
  have hRoom := hRenders.room
  rw [← hArgs] at hRoom
  have hWidth : 0 + e.width ≤
      (e.mainSteps (Layout.start args.length (args.length + 1 + temps) 0)).2.extent :=
    Expr.width_le_extent e _
  generalize hExtent :
    (e.mainSteps (Layout.start args.length (args.length + 1 + temps) 0)).2.extent =
    extent at hRoom hWidth
  obtain ⟨loan, hLoan, hAcquire⟩ := acquire_freely hFree extent.toNat call
  have hRel := serves_begun hSound hHoused hAt hDepth hSlots hRoom hLoan
  generalize s.setWorkshop a.home (s.workshop a.home) = s₁ at hAcquire hRel ⊢
  have hRun := Service.run_outline (S := service a deep hRunning hCall hCalls slots extent.toNat)
    hWF hApply name (hExtent ▸ Int.self_le_toNat extent) (hExtent ▸ hAcquire) hRel
  rw [← hRoutine] at hRun
  unfold runRoutine
  generalize a.routine.run _ args (⟨s, .shared⟩ : World) = out at hRun ⊢
  generalize e.evaluate _ args temps (s₁.blanked a.home) = out' at hRun ⊢
  cases hRun with
  | error hFailed => exact .error (hFailed.left true)
  | @ok xs w _ t hDone =>
    obtain ⟨hLength, hServes, hHolds⟩ := hDone
    have hEnough := hServes.room
    have hCount : a.returns = xs.length := by
      rw [hRenders.returns]
      omega
    refine .ok ⟨?_, hCount.symm, hServes.left false⟩
    have hSlice := toList_slice ((bufferOf a.home).get t) 0 xs.length (by omega)
    rw [Nat.zero_add] at hSlice
    rw [hCount, hSlice]
    exact hHolds

theorem SameSpace.changeDepth {m : Nat} {t : Session} (h : SameSpace m s t) (f : Nat → Nat) :
    SameSpace m s (t.changeDepth m f) := by
  unfold SameSpace at h ⊢
  rw [← h]
  unfold workshop
  rw [instance?_changeDepth, if_pos rfl]
  cases t.instance? m with
  | none | some => rfl

/-- **Evaluating an artifact does what its tree means.**  The routine of the artifact was written
for a tree, and host functions are impartial.  If the instance is idle or its bytes are not counted,
the evaluation returns the values of the tree, as many as the artifact announces, and leaves its
variables behind, or it fails as the tree does. -/
theorem hosted_denotes {host : Host} (hImpartial : host.Impartial a.home) (limit : Nat)
    (hRenders : a.Renders e temps i) (hApply : e.EachNode Expr.ConstantsApply) (hSound : s.Sound)
    (hHoused : s.Houses a) (hAt : s.instance? a.home = some i)
    (hFree : i.depth = 0 ∨ (s.workshop a.home).books.ledger = none) {args : List Float}
    (hArgs : args.length = a.args) :
    Agree (fun xs w ys t => ys = xs ∧ xs.length = a.returns ∧ SameSpace a.home w t)
      (SameSpace a.home)
      (e.evaluate (surroundings a.home (callDeed host (hosted host limit) a))
        (args.map single) temps (s.entered a.home))
      (hosted host (limit + 1) a args s) := by
  have hRaised := instance?_raised hAt
  have hDepth : ((s.changeDepth a.home (· + 1)).workshop a.home).inst.depth = i.depth + 1 := by
    rw [workshop_inst hRaised]
  have hFree' : i.depth + 1 ≤ 1 ∨
      ((s.changeDepth a.home (· + 1)).workshop a.home).books.ledger = none := by
    rw [books_changeDepth]
    exact hFree.imp (fun hIdle => Nat.le_of_eq (congrArg (· + 1) hIdle)) id
  have hDeeper : a.Renders e temps { i with depth := i.depth + 1 } :=
    hRenders.mono (Nat.le_refl _) (Nat.le_refl _)
  have hRun := runRoutine_denotes (Nat.succ_pos i.depth)
    (callDeed_blanked hImpartial limit (Nat.succ_pos i.depth) a) (callDeed_sound host limit a)
    hDeeper hApply
    (hSound.changeDepth a.home (· + 1)) (houses_changeDepth.mpr hHoused) hRaised rfl hFree'
    (show (args.map single).length = a.args from (List.length_map _).trans hArgs)
  show Agree _ _ _ (evaluateWith (callDeed host (hosted host limit) a) a args s)
  rw [evaluateWith_of_length hArgs, hDepth]
  unfold followedBy
  generalize runRoutine a _ _ _ _ = out at hRun ⊢
  unfold entered
  dsimp only
  generalize e.evaluate _ _ _ _ = out' at hRun ⊢
  cases hRun with
  | ok hDone => exact .ok ⟨hDone.1, hDone.2.1, hDone.2.2.changeDepth _⟩
  | error hFailed => exact .error (hFailed.changeDepth _)

end

end Session

end MolangCompiler
