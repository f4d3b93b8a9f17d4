import MolangCompiler.Proofs.Compiling
import MolangCompiler.Session.Command

/-!
# Sessions grow

Whatever is done with the instances of a session while evaluations are running, the session grows:
every instance is still there, with all its variables in their places, with a scratch buffer that is
at least as long, and at the same depth.  Looking up an instance after a change is settled once, by
`instance?_changeInstance`.
-/

namespace MolangCompiler

namespace Session

/-- How a machine ends that asked for a buffer while it held `loan`. -/
def World.lent (loan : Loan) : Outcome Session Loan → Outcome World Unit
  | .ok loan s => .ok () ⟨s, loan⟩
  | .error e s => .error e ⟨s, loan⟩

/-- A buffer is asked for. -/
theorem acquire_lends {m depth slots : Nat} {call : Calls} {w : World} {done : Unit → World → Prop}
    {failed : World → Prop}
    (h : Ends (fun loan s => done () ⟨s, loan⟩) (fun s => failed ⟨s, w.loan⟩)
      (onInstance m (Workshop.onScratch (ScratchRoom.acquire slots depth)) w.session)) :
    Ends done failed ((machine m depth call).acquire slots w) := by
  show Ends _ _ (World.lent w.loan (onInstance m _ w.session))
  generalize onInstance m _ w.session = out at h ⊢
  cases h with
  | ok h => exact .ok h
  | error h => exact .error h

/-! ## Looking up instances -/

theorem instance?_changeInstance (s : Session) (m n : Nat) (f : Instance → Instance) :
    (s.changeInstance m f).instance? n =
      if n = m then (s.instance? m).map f else s.instance? n := by
  have hFind : ((s.changeInstance m f).instances.find? (·.1 == n)) =
      (s.instances.find? (·.1 == n)).map fun p => if p.1 == m then (m, f p.2) else p := by
    show (s.instances.map _).find? _ = _
    rw [List.find?_map]
    congr 2
    funext p
    show ((if p.1 == m then (m, f p.2) else p).1 == n) = (p.1 == n)
    split
    · rename_i hSame
      rw [beq_iff_eq.mp hSame]
    · rfl
  unfold instance?
  rw [hFind]
  cases hAt : s.instances.find? (·.1 == n) with
  | none =>
    by_cases hSame : n = m
    · rw [if_pos hSame, ← hSame, hAt]
      rfl
    · rw [if_neg hSame]
      rfl
  | some p =>
    have hBeq := List.find?_some hAt
    have hKey : p.1 = n := beq_iff_eq.mp hBeq
    by_cases hSame : n = m
    · rw [if_pos hSame, ← hSame, hAt]
      show some (if p.1 == n then (n, f p.2) else p).2 = some (f p.2)
      rw [if_pos (beq_iff_eq.mpr hKey)]
    · rw [if_neg hSame]
      show some (if p.1 == m then (m, f p.2) else p).2 = some p.2
      rw [if_neg (fun h => hSame (hKey.symm.trans (beq_iff_eq.mp h)))]

theorem instance?_setWorkshop (s : Session) (m n : Nat) (w : Workshop) :
    (s.setWorkshop m w).instance? n =
      if n = m then (s.instance? m).map fun _ => w.inst else s.instance? n :=
  instance?_changeInstance _ m n _

theorem books_setWorkshop (s : Session) (m : Nat) (w : Workshop) : (s.setWorkshop m w).books =
    if w.inst.owner.isSome then w.books else { w.books with ledger := s.books.ledger } := by
  unfold setWorkshop
  cases w.inst.owner with
  | none | some => rfl

theorem workshop_inst {s : Session} {m : Nat} {i : Instance}
    (h : s.instance? m = some i) : (s.workshop m).inst = i := by
  show ((s.instance? m).getD default) = i
  rw [h]
  rfl

/-- Changing the books changes no instance. -/
theorem instance?_setBooks (s : Session) (m n : Nat) (b : Books) :
    (s.setWorkshop m { s.workshop m with books := b }).instance? n = s.instance? n := by
  rw [instance?_setWorkshop]
  by_cases hSame : n = m
  · rw [if_pos hSame, hSame]
    cases hAt : s.instance? m with
    | none => rfl
    | some i => exact congrArg some (workshop_inst hAt)
  · rw [if_neg hSame]

/-- **Giving a buffer back** changes the books only. -/
theorem World.close_eq (failed : Bool) (m : Nat) (w : World) :
    w.close failed m = w.session.setWorkshop m { w.session.workshop m with
      books := (ScratchRoom.release failed w.loan
        ⟨(w.session.workshop m).books, (w.session.workshop m).inst.scratch⟩).books } := by
  show w.session.setWorkshop m ⟨_, { (w.session.workshop m).inst with
    scratch := (ScratchRoom.release failed w.loan _).scratch }⟩ = _
  rw [ScratchRoom.scratch_release]

theorem instance?_close (failed : Bool) (w : World) (m n : Nat) :
    (w.close failed m).instance? n = w.session.instance? n := by
  rw [World.close_eq]
  exact instance?_setBooks w.session m n _

section

variable {s : Session} {m : Nat} {i : Instance}

theorem instance?_change (hAt : s.instance? m = some i) (g : Instance → Instance) (n : Nat) :
    (s.changeInstance m g).instance? n = if n = m then some (g i) else s.instance? n := by
  rw [instance?_changeInstance, hAt]
  rfl

theorem instance?_changed (hAt : s.instance? m = some i) (g : Instance → Instance) :
    (s.changeInstance m g).instance? m = some (g i) := (instance?_change hAt g m).trans (if_pos rfl)

end

/-! ## Growth -/

/-- How a session changes while evaluations are running: no instance comes or goes, and all of them
grow. -/
structure Grows (s s' : Session) : Prop where
  some : ∀ {n i}, s.instance? n = some i → ∃ i', s'.instance? n = some i' ∧ i.Grows i'
  none : ∀ {n}, s.instance? n = none → s'.instance? n = none
  names : s'.names = s.names
  next : s'.nextInstance = s.nextInstance

namespace Grows

variable {s s' : Session}

theorem of_same (h : ∀ n, s'.instance? n = s.instance? n) (hNames : s'.names = s.names)
    (hNext : s'.nextInstance = s.nextInstance) : s.Grows s' where
  some {n i} hi := ⟨i, (h n).trans hi, .refl i⟩
  none {n} hn := (h n).trans hn
  names := hNames
  next := hNext

theorem refl (s : Session) : s.Grows s := of_same (fun _ => rfl) rfl rfl

theorem trans {s₁ s₂ s₃ : Session} (h : s₁.Grows s₂) (h' : s₂.Grows s₃) : s₁.Grows s₃ where
  some hi := by
    obtain ⟨i', hi', hGrows⟩ := h.some hi
    obtain ⟨i'', hi'', hGrows'⟩ := h'.some hi'
    exact ⟨i'', hi'', hGrows.trans hGrows'⟩
  none hn := h'.none (h.none hn)
  names := h'.names.trans h.names
  next := h'.next.trans h.next

theorem back (h : s.Grows s') {n : Nat} {i' : Instance} (hi' : s'.instance? n = Option.some i') :
    ∃ i, s.instance? n = Option.some i ∧ i.Grows i' := by
  cases hi : s.instance? n with
  | none =>
    rw [h.none hi] at hi'
    cases hi'
  | some i =>
    obtain ⟨j, hj, hMore⟩ := h.some hi
    cases hj.symm.trans hi'
    exact ⟨i, rfl, hMore⟩

theorem of_change {m : Nat} {i i' : Instance} (hAt : s.instance? m = Option.some i)
    (hGrows : i.Grows i')
    (h : ∀ n, s'.instance? n = if n = m then Option.some i' else s.instance? n)
    (hNames : s'.names = s.names) (hNext : s'.nextInstance = s.nextInstance) : s.Grows s' where
  some {n j} hj := by
    by_cases hSame : n = m
    · rw [hSame, hAt] at hj
      cases hj
      exact ⟨i', (h n).trans (if_pos hSame), hGrows⟩
    · exact ⟨j, (h n).trans ((if_neg hSame).trans hj), .refl j⟩
  none {n} hn := by
    by_cases hSame : n = m
    · rw [hSame, hAt] at hn
      cases hn
    · exact (h n).trans ((if_neg hSame).trans hn)
  names := hNames
  next := hNext

end Grows

/-! ## Soundness -/

/-- An artifact can run in a session: its instance is there, and it suits it. -/
def Houses (s : Session) (a : Artifact) : Prop := ∃ i, s.instance? a.home = some i ∧ a.Suits i

/-- All instances are still there, with no fewer variables, no less room and the same queries. -/
def Enlarges (s s' : Session) : Prop :=
  ∀ n i, s.instance? n = some i → ∃ i', s'.instance? n = some i' ∧
    i.space.cursor ≤ i'.space.cursor ∧ i.scratch.buffer.size ≤ i'.scratch.buffer.size ∧
    i'.queries = i.queries

namespace Enlarges

theorem refl (s : Session) : s.Enlarges s :=
  fun _ i hi => ⟨i, hi, Nat.le_refl _, Nat.le_refl _, rfl⟩

theorem trans {s₁ s₂ s₃ : Session} (h : s₁.Enlarges s₂) (h' : s₂.Enlarges s₃) : s₁.Enlarges s₃ := by
  intro n i hi
  obtain ⟨i₂, hi₂, hCursor, hBuffer, hQueries⟩ := h n i hi
  obtain ⟨i₃, hi₃, hCursor', hBuffer', hQueries'⟩ := h' n i₂ hi₂
  exact ⟨i₃, hi₃, Nat.le_trans hCursor hCursor', Nat.le_trans hBuffer hBuffer',
    hQueries'.trans hQueries⟩

theorem houses {s s' : Session} (h : s.Enlarges s') {a : Artifact} (hHoused : s.Houses a) :
    s'.Houses a := by
  obtain ⟨i, hi, hSuits⟩ := hHoused
  obtain ⟨i', hi', hCursor, hBuffer, hQueries⟩ := h _ i hi
  exact ⟨i', hi', hSuits.mono hCursor hBuffer hQueries⟩

theorem of_change {s : Session} {m : Nat} {i : Instance} (hAt : s.instance? m = some i)
    {g : Instance → Instance} (hCursor : i.space.cursor ≤ (g i).space.cursor)
    (hBuffer : i.scratch.buffer.size ≤ (g i).scratch.buffer.size)
    (hQueries : (g i).queries = i.queries) : s.Enlarges (s.changeInstance m g) := by
  intro n j hj
  rw [instance?_change hAt]
  by_cases hSame : n = m
  · rw [hSame, hAt] at hj
    cases hj
    exact ⟨g i, if_pos hSame, hCursor, hBuffer, hQueries⟩
  · exact ⟨j, (if_neg hSame).trans hj, Nat.le_refl _, Nat.le_refl _, rfl⟩

end Enlarges

variable {s s' : Session} {a : Artifact} {m : Nat} {i : Instance}

theorem Grows.enlarges (h : s.Grows s') : s.Enlarges s' := by
  intro n i hi
  obtain ⟨i', hi', hMore⟩ := h.some hi
  exact ⟨i', hi', hMore.space.cursor, hMore.buffer, hMore.queries⟩

theorem Houses.grows (h : s.Houses a) (hGrows : s.Grows s') : s'.Houses a :=
  hGrows.enlarges.houses h

/-- All variables have their places, and all artifacts can run. -/
structure Sound (s : Session) : Prop where
  spaces : ∀ {n i}, s.instance? n = some i → i.space.Sound
  artifacts : ∀ {a}, some a ∈ s.artifacts → s.Houses a

theorem Sound.workshop (h : s.Sound) (hAt : s.instance? m = some i) :
    (s.workshop m).inst.space.Sound := by
  rw [workshop_inst hAt]
  exact h.spaces hAt

theorem Sound.enlarges (h : s.Sound) (hEnlarges : s.Enlarges s')
    (hSpaces : ∀ {n i}, s'.instance? n = some i → i.space.Sound)
    (hArtifacts : s'.artifacts = s.artifacts) : s'.Sound where
  spaces := hSpaces
  artifacts {a} ha := by
    rw [hArtifacts] at ha
    exact hEnlarges.houses (h.artifacts ha)

theorem Sound.grows (h : s.Sound) (hGrows : s.Grows s')
    (hSpaces : ∀ {n i}, s'.instance? n = some i → i.space.Sound)
    (hArtifacts : s'.artifacts = s.artifacts) : s'.Sound :=
  h.enlarges hGrows.enlarges hSpaces hArtifacts

def course : Course Session where
  ok := Sound
  le := Grows
  refl := .refl
  trans h h' := h.trans h'

theorem onInstance_keeps {α : Type} (hAt : s.instance? m = some i) {act : Act Workshop α}
    {p : α → Workshop → Prop} (h : Keeps Workshop.course p act (s.workshop m)) :
    Keeps course (fun a s' => ∃ w, s'.instance? m = some w.inst ∧ p a w) (onInstance m act) s := by
  intro hSound
  have hInst : (s.workshop m).inst = i := workshop_inst hAt
  -- whatever the operation leaves behind is put in the place of the instance
  have hAfter {w : Workshop} (hOk : w.inst.space.Sound)
      (hGrows : (s.workshop m).inst.Grows w.inst) :
      (s.setWorkshop m w).Sound ∧ s.Grows (s.setWorkshop m w) := by
    have hLook (n : Nat) : (s.setWorkshop m w).instance? n =
        if n = m then some w.inst else s.instance? n := by
      rw [instance?_setWorkshop, hAt]
      rfl
    have hMore : s.Grows (s.setWorkshop m w) :=
      .of_change hAt (hInst ▸ hGrows) hLook rfl rfl
    refine ⟨hSound.grows hMore ?_ rfl, hMore⟩
    intro n j hj
    rw [hLook] at hj
    by_cases hSame : n = m
    · rw [if_pos hSame] at hj
      cases hj
      exact hOk
    · rw [if_neg hSame] at hj
      exact hSound.spaces hj
  refine onPart_ends (.mono (h ?_) ?_ ?_)
  · show (s.workshop m).inst.space.Sound
    rw [hInst]
    exact hSound.spaces hAt
  · intro a w hEnd
    obtain ⟨hOk, hGrows⟩ := hAfter hEnd.1 hEnd.2.1
    refine ⟨hOk, hGrows, w, ?_, hEnd.2.2⟩
    rw [instance?_setWorkshop, if_pos rfl, hAt]
    rfl
  · intro w hEnd
    exact hAfter hEnd.1 hEnd.2

theorem onInstance_makes {α : Type} (hAt : s.instance? m = some i) (hSound : i.space.Sound)
    {act : Act Workshop α} {p : α → Workshop → Prop}
    (h : Keeps Workshop.making p act (s.workshop m)) :
    Ends (fun _ s' => ∃ i', s'.instance? m = some i' ∧ i'.space.Sound ∧ i.Extends i')
      (fun s' => ∃ i', s'.instance? m = some i' ∧ i'.space.Sound ∧ i.Extends i')
      (onInstance m act s) := by
  have hInst : (s.workshop m).inst = i := workshop_inst hAt
  have hPut (w : Workshop) : (s.setWorkshop m w).instance? m = some w.inst := by
    rw [instance?_setWorkshop, if_pos rfl, hAt]
    rfl
  refine onPart_ends (.mono (h ?_) ?_ ?_)
  · show (s.workshop m).inst.space.Sound
    rw [hInst]
    exact hSound
  · exact fun a w hEnd => ⟨w.inst, hPut w, hEnd.1, hInst ▸ hEnd.2.1⟩
  · exact fun w hEnd => ⟨w.inst, hPut w, hEnd.1, hInst ▸ hEnd.2⟩

theorem modify_keeps {f : Session → Session} (hInstances : (f s).instances = s.instances)
    (hArtifacts : (f s).artifacts = s.artifacts) (hNames : (f s).names = s.names)
    (hNext : (f s).nextInstance = s.nextInstance) :
    Keeps course (fun _ s' => s' = f s) (modify f : Act Session PUnit) s := by
  have hLook (n : Nat) : (f s).instance? n = s.instance? n := by
    unfold instance?
    rw [hInstances]
  have hGrows : s.Grows (f s) := .of_same hLook hNames hNext
  refine .modify (fun hSound => ?_) (fun _ => hGrows) fun _ => rfl
  exact hSound.grows hGrows (fun hi => hSound.spaces ((hLook _).symm.trans hi)) hArtifacts

/-! ## The arrays of a routine -/

namespace World

variable {w : World}

theorem store_eq (hAt : w.session.instance? m = some i) : (storeOf m).get w = i.space.store := by
  show (w.session.workshop m).inst.space.store = i.space.store
  rw [workshop_inst hAt]

theorem store_fits {slots : Nat} (hAt : w.session.instance? m = some i) (hSound : w.session.Sound)
    (hSlots : slots ≤ i.space.cursor) : slots ≤ ((storeOf m).get w).size := by
  rw [store_eq hAt]
  exact Nat.le_trans hSlots (hSound.spaces hAt).cursor_le

theorem buffer_shared (hLoan : w.loan = .shared) (hAt : w.session.instance? m = some i) :
    (bufferOf m).get w = i.scratch.buffer := by
  unfold bufferOf
  dsimp only
  rw [hLoan]
  rw [workshop_inst hAt]

theorem put_shared (hLoan : w.loan = .shared) (xs : Array Float) :
    (bufferOf m).put xs w = ⟨w.session.changeInstance m (·.setBuffer xs), .shared⟩ := by
  unfold bufferOf
  dsimp only
  rw [hLoan]

variable {buffer : Array Float} {charged : Int}

theorem buffer_own (hLoan : w.loan = .own buffer charged) : (bufferOf m).get w = buffer := by
  unfold bufferOf
  dsimp only
  rw [hLoan]

theorem put_own (hLoan : w.loan = .own buffer charged) (xs : Array Float) :
    (bufferOf m).put xs w = ⟨w.session, .own xs charged⟩ := by
  unfold bufferOf
  dsimp only
  rw [hLoan]

/-- While an evaluation is running on an instance, its buffer keeps its numbers. -/
theorem buffer_grows (hAt : w.session.instance? m = some i) (hDepth : 0 < i.depth)
    (hGrows : w.session.Grows s') :
    ((bufferOf m).get w).size ≤ ((bufferOf m).get ⟨s', w.loan⟩).size ∧
      ∀ j < ((bufferOf m).get w).size,
        ((bufferOf m).get ⟨s', w.loan⟩)[j]? = ((bufferOf m).get w)[j]? := by
  cases hLoan : w.loan with
  | own buffer charged =>
    rw [buffer_own hLoan, buffer_own rfl]
    exact ⟨Nat.le_refl _, fun _ _ => rfl⟩
  | shared =>
    obtain ⟨i', hAt', hMore⟩ := hGrows.some hAt
    obtain ⟨rest, hRest⟩ := hMore.kept hDepth
    rw [buffer_shared hLoan hAt, buffer_shared (w := ⟨s', .shared⟩) rfl hAt']
    refine ⟨hMore.buffer, fun j hj => ?_⟩
    rw [← Array.getElem?_toList, ← Array.getElem?_toList, ← hRest, List.getElem?_append_left hj]

end World

theorem Enlarges.buffer_le {w : World} (h : w.session.Enlarges s')
    (hAt : w.session.instance? m = some i) :
    ((bufferOf m).get w).size ≤ ((bufferOf m).get ⟨s', w.loan⟩).size := by
  cases hLoan : w.loan with
  | own buffer charged => rw [World.buffer_own hLoan, World.buffer_own rfl]
  | shared =>
    obtain ⟨i', hAt', -, hBuffer, -⟩ := h m i hAt
    rw [World.buffer_shared hLoan hAt, World.buffer_shared (w := ⟨s', .shared⟩) rfl hAt']
    exact hBuffer

/-! ## What can be done -/

theorem record_keeps (e : HostEvent) (s : Session) : Stays course (record e) s :=
  .forget (modify_keeps rfl rfl rfl rfl)

/-- **Compiling** on an instance of a session leads to an artifact that can run. -/
theorem compile_keeps (hAt : s.instance? m = some i) (r : Request) :
    Keeps course (fun a s' => s'.Houses a) (onInstance m (Workshop.compile m r)) s := by
  intro hSound
  have hSpace : (s.workshop m).inst.space.Sound := by
    rw [workshop_inst hAt]
    exact hSound.spaces hAt
  refine .mono (onInstance_keeps hAt
    (Workshop.keeps_of_making (Workshop.compile_keeps m r _)) hSound) ?_
    fun _ hEnd => hEnd
  rintro a s' ⟨hOk, hGrows, w, hw, p, w₁, d, hCompiled⟩
  refine ⟨hOk, hGrows, w.inst, ?_, hCompiled.suits hSpace⟩
  rw [hCompiled.home]
  exact hw

theorem keep_keeps (h : s.Houses a) : Stays course (keep a) s := by
  have hGrows : s.Grows { s with artifacts := s.artifacts ++ [some a] } :=
    .of_same (fun _ => rfl) rfl rfl
  refine .get_bind
    (.bind (p := fun _ _ => True) (.modify (fun hSound => ?_) (fun _ => hGrows) fun _ =>
    trivial) fun _ _ _ _ _ => .pure trivial)
  refine ⟨hSound.spaces, fun {b} hb => ?_⟩
  rcases List.mem_append.mp hb with hOld | hNew
  · exact (hSound.artifacts hOld).grows hGrows
  · cases List.mem_singleton.mp hNew
    exact h.grows hGrows

theorem artifact_looks {c : Course Session} (index : Int) (s : Session) :
    Keeps c (fun a _ => some a ∈ s.artifacts) (artifact index) s := by
  unfold artifact
  split
  · exact .throw
  refine .get_bind ?_
  split
  · rename_i a hFound
    exact .pure (List.mem_of_getElem? hFound)
  · exact .throw

theorem artifact_keeps (index : Int) (s : Session) :
    Keeps course (fun a s' => s'.Houses a) (artifact index) s := by
  intro hSound
  refine (artifact_looks index s).mono (fun a s' _ hGrows hKept => ?_) hSound
  exact (hSound.artifacts hKept).grows hGrows

theorem onInstance_acquire_shallow (m room : Nat) (s : Session) :
    onInstance m (Workshop.onScratch (ScratchRoom.acquire room (1 : Nat))) s =
      .ok .shared (s.setWorkshop m (s.workshop m)) := by
  rfl

/-! ## Depth -/

theorem instance?_changeDepth (s : Session) (m n : Nat) (f : Nat → Nat) :
    (s.changeDepth m f).instance? n =
      if n = m then (s.instance? m).map fun i => { i with depth := f i.depth }
      else s.instance? n :=
  instance?_changeInstance s m n _

theorem instance?_raised (hAt : s.instance? m = some i) :
    (s.changeDepth m (· + 1)).instance? m = some { i with depth := i.depth + 1 } := by
  rw [instance?_changeDepth, if_pos rfl, hAt]
  rfl

/-- **Evaluating an artifact** with as many arguments as it takes runs its routine at a raised
depth. -/
theorem evaluateWith_of_length {args : List Float} (hArgs : args.length = a.args) (call : Calls)
    (s : Session) :
    evaluateWith call a args s = followedBy
      (runRoutine a ((s.changeDepth a.home (· + 1)).workshop a.home).inst.depth call
        (args.map single)) (changeDepth a.home (· - 1)) (s.changeDepth a.home (· + 1)) := by
  show (if args.length ≠ a.args then _ else _ : Act Session (List Float)) s = _
  rw [if_neg (not_not.mpr hArgs)]
  rfl

theorem evaluateWith_of_length_ne {args : List Float} (hArgs : args.length ≠ a.args) (call : Calls)
    (s : Session) : evaluateWith call a args s =
      .error (.run (.argumentCount a.name a.args args.length)) s := by
  show (if args.length ≠ a.args then _ else _ : Act Session (List Float)) s = _
  rw [if_pos hArgs]
  rfl

theorem instance?_lowered (s : Session) (m levels n : Nat) :
    ((s.changeDepth m (· + levels)).changeDepth m (· - levels)).instance? n = s.instance? n := by
  rw [instance?_changeDepth, instance?_changeDepth, instance?_changeDepth, if_pos rfl]
  by_cases hSame : n = m
  · rw [if_pos hSame, hSame]
    cases s.instance? m with
    | none => rfl
    | some i =>
      show some { i with depth := i.depth + levels - levels } = some i
      rw [Nat.add_sub_cancel]
  · rw [if_neg hSame, if_neg hSame]

theorem Grows.lower (h : s.Grows s') (m levels : Nat) :
    (s.changeDepth m (· - levels)).Grows (s'.changeDepth m (· - levels)) where
  some {n i} hi := by
    rw [instance?_changeDepth] at hi ⊢
    by_cases hSame : n = m
    · rw [if_pos hSame] at hi ⊢
      obtain ⟨j, hj, rfl⟩ := Option.map_eq_some_iff.mp hi
      obtain ⟨j', hj', hGrows⟩ := h.some hj
      rw [hj']
      refine ⟨_, rfl, hGrows.space, hGrows.buffer, fun hDepth => hGrows.kept ?_, ?_, hGrows.queries⟩
      · exact Nat.lt_of_lt_of_le hDepth (Nat.sub_le _ _)
      · show j'.depth - levels = j.depth - levels
        rw [hGrows.depth]
    · rw [if_neg hSame] at hi ⊢
      exact h.some hi
  none {n} hn := by
    rw [instance?_changeDepth] at hn ⊢
    by_cases hSame : n = m
    · rw [if_pos hSame] at hn ⊢
      rw [h.none (Option.map_eq_none_iff.mp hn)]
      rfl
    · rw [if_neg hSame] at hn ⊢
      exact h.none hn
  names := h.names
  next := h.next

theorem houses_changeDepth {f : Nat → Nat} : (s.changeDepth m f).Houses a ↔ s.Houses a := by
  unfold Houses
  rw [instance?_changeDepth]
  by_cases hSame : a.home = m
  · rw [if_pos hSame, ← hSame]
    cases s.instance? a.home with
    | none =>
      constructor
      · rintro ⟨_, hi, _⟩
        cases hi
      · rintro ⟨_, hi, _⟩
        cases hi
    | some i =>
      constructor
      · rintro ⟨_, hi, hSuits⟩
        cases hi
        exact ⟨i, rfl, hSuits.mono (Nat.le_refl _) (Nat.le_refl _) rfl⟩
      · rintro ⟨_, hi, hSuits⟩
        cases hi
        exact ⟨_, rfl, hSuits.mono (Nat.le_refl _) (Nat.le_refl _) rfl⟩
  · rw [if_neg hSame]

theorem Sound.changeDepth (h : s.Sound) (m : Nat) (f : Nat → Nat) : (s.changeDepth m f).Sound where
  spaces {n i} hi := by
    rw [instance?_changeDepth] at hi
    by_cases hSame : n = m
    · rw [if_pos hSame] at hi
      obtain ⟨j, hj, rfl⟩ := Option.map_eq_some_iff.mp hi
      show j.space.Sound
      exact h.spaces hj
    · rw [if_neg hSame] at hi
      exact h.spaces hi
  artifacts ha := houses_changeDepth.mpr (h.artifacts ha)

end Session

end MolangCompiler
