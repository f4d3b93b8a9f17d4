import MolangCompiler.Proofs.Paired
import MolangCompiler.Proofs.Shared

/-!
# Compiling is not noticed by older artifacts

Compiling may make variables, lengthen the store and the shared buffer, and charge bytes, and it may
do half of this and then fail.  An artifact that was there before does not notice: the slots that it
reaches are still in their places and hold what they held.

Its routine must write only within the buffer that it asks for, since a longer buffer takes numbers
that the old one refuses.  Without templates every routine does so (`Artifact.Suits.confined`); a
template can put wide values side by side and write behind the end.
-/

namespace MolangCompiler

/-! ## Routines that keep to their room -/

/-- Neighbouring slots lie within a buffer of the given length. -/
def slotsWithin (room slot : Int) (size : Nat) : Bool := 0 ≤ slot ∧ slot + size ≤ room

/-- Whether an action writes only within a scratch buffer of the given length. -/
def Action.within (room : Int) : Action → Bool
  | .setSlot slot _ => slotsWithin room slot 1
  | .setSlots slot width _ _ => slotsWithin room slot width
  | .load slot _ size => slotsWithin room slot size
  | .acquire _ | .setLocal _ _ | .setTruth _ _ | .setVariable _ _ | .store _ _ _ | .finish => true

mutual

/-- Whether a step writes only within a scratch buffer of the given length. -/
def Step.within (room : Int) : Step → Bool
  | .act action => action.within room
  | .choose _ yes no => allWithin room yes && allWithin room no

/-- Whether steps write only within a scratch buffer of the given length. -/
def Step.allWithin (room : Int) : List Step → Bool
  | [] => true
  | s :: rest => s.within room && allWithin room rest

end

/-- Whether the routine of an artifact writes only within the scratch buffer that it asks for. -/
def Artifact.confined (a : Artifact) : Bool :=
  match a.routine.body with
  | .act (.acquire room) :: rest => Step.allWithin room rest
  | _ => true

section

variable {room slots returns : Nat} {K : Facts}

private theorem slotsWithin_iff {room slot : Int} {size : Nat} :
    slotsWithin room slot size = true ↔ 0 ≤ slot ∧ slot + size ≤ room := decide_eq_true_iff

theorem Limits.permits_strict (room slots returns : Nat) :
    (loose room slots returns).Permits (.strict .any room slots returns) :=
  ⟨fun _ _ h => h, id, Nat.le_refl _⟩

theorem Action.Checked.confine {action : Action} (h : action.Checked (.loose room slots returns) K)
    (hWithin : action.within room = true) : action.Checked (.strict .any room slots returns) K := by
  have hPermits := Limits.permits_strict room slots returns
  cases action with
  | setLocal index value | setTruth index value =>
    exact Code.Checked.mono hPermits (.refl K) value h
  | setSlot slot value =>
    exact ⟨slotsWithin_iff.mp hWithin, Code.Checked.mono hPermits (.refl K) value h.2⟩
  | setSlots slot width callee args =>
    exact ⟨h.1, slotsWithin_iff.mp hWithin, Code.AllChecked.mono hPermits (.refl K) args h.2.2⟩
  | setVariable slot value => exact ⟨h.1, Code.Checked.mono hPermits (.refl K) value h.2⟩
  | load slot offset size => exact ⟨slotsWithin_iff.mp hWithin, h.2⟩
  | acquire | store | finish => exact h

theorem Action.Checked.within {k : Callable} {action : Action}
    (h : action.Checked (.strict k room slots returns) K) : action.within room = true := by
  cases action with
  | setSlot | load => exact slotsWithin_iff.mpr h.1
  | setSlots => exact slotsWithin_iff.mpr h.2.1
  | acquire | setLocal | setTruth | setVariable | store | finish => rfl

namespace Step

mutual

theorem Checked.confine {K : Facts} : ∀ s : Step, s.Checked (.loose room slots returns) K →
    s.within room = true → s.Checked (.strict .any room slots returns) K
  | .act _, h, hWithin => Action.Checked.confine h hWithin
  | .choose _ yes no, h, hWithin => by
    obtain ⟨hYes, hNo⟩ := Bool.and_eq_true_iff.mp hWithin
    exact ⟨.mono (Limits.permits_strict room slots returns) (.refl K) h.1,
      AllChecked.confine yes h.2.1 hYes, .confine no h.2.2 hNo⟩

/-- What is checked loosely and writes only within its buffer is checked strictly. -/
theorem AllChecked.confine {K : Facts} : ∀ steps : List Step,
    AllChecked (.loose room slots returns) K steps → allWithin room steps = true →
      AllChecked (.strict .any room slots returns) K steps
  | [], _, _ => trivial
  | s :: rest, h, hWithin => by
    obtain ⟨hFirst, hRest⟩ := Bool.and_eq_true_iff.mp hWithin
    exact ⟨.confine s h.1 hFirst, .confine rest h.2 hRest⟩

end

mutual

theorem Checked.within {k : Callable} {K : Facts} :
    ∀ s : Step, s.Checked (.strict k room slots returns) K → s.within room = true
  | .act _, h => Action.Checked.within h
  | .choose _ yes no, h =>
    Bool.and_eq_true_iff.mpr ⟨AllChecked.within yes h.2.1, AllChecked.within no h.2.2⟩

/-- What is checked strictly writes only within its buffer. -/
theorem AllChecked.within {k : Callable} {K : Facts} : ∀ steps : List Step,
    AllChecked (.strict k room slots returns) K steps → allWithin room steps = true
  | [], _ => rfl
  | s :: rest, h => Bool.and_eq_true_iff.mpr ⟨Checked.within s h.1, AllChecked.within rest h.2⟩

end

end Step

end

/-- **Without templates** a routine writes only within the buffer that it asks for. -/
theorem Artifact.Suits.confined {a : Artifact} {i : Instance} (h : a.Suits i)
    (hTemplateless : i.Templateless) : a.confined = true := by
  obtain ⟨room, slots, hChecked, -⟩ := h.exact .any hTemplateless.obeys
  obtain ⟨rest, hBody, hRest, -⟩ := hChecked.body
  unfold Artifact.confined
  rw [hBody]
  exact Step.AllChecked.within rest hRest

/-- A routine that writes only within its buffer keeps to limits that its instance meets. -/
theorem Artifact.Suits.checked {a : Artifact} {i : Instance} (h : a.Suits i)
    (hConfined : a.confined = true) :
    ∃ room slots, a.routine.Checked (.strict .any room slots a.returns) .all ∧
      slots ≤ i.space.cursor ∧ room ≤ i.scratch.buffer.size := by
  obtain ⟨room, slots, hChecked, hBounds⟩ := h.loose
  obtain ⟨rest, hBody, hRest, hReturns⟩ := hChecked.body
  unfold Artifact.confined at hConfined
  rw [hBody] at hConfined
  exact ⟨room, slots,
    ⟨⟨rest, hBody, .confine rest hRest hConfined, hReturns⟩, hChecked.returns⟩,
    hBounds⟩

/-! ## Instances that match -/

/-- Two instances agree on the first `count` slots of their stores, and on those of the first `room`
slots of their buffers that are in `W`. -/
structure Instance.Matches (count room : Nat) (W : Nat → Prop) (i j : Instance) : Prop where
  stored : count ≤ i.space.store.size ∧ count ≤ j.space.store.size
  stores : SameOn (· < count) i.space.store j.space.store
  roomy : room ≤ i.scratch.buffer.size ∧ room ≤ j.scratch.buffer.size
  buffers : SameOn (fun k => k < room ∧ W k) i.scratch.buffer j.scratch.buffer

namespace Session

/-- A routine runs on the shared buffers of two sessions, on instances that match. -/
structure Twin (number count room : Nat) (W : Nat → Prop) (w w' : World) : Prop where
  shared : w.loan = .shared
  shared' : w'.loan = .shared
  here : ∃ i j, w.session.instance? number = some i ∧ w'.session.instance? number = some j ∧
    i.Matches count room W j

namespace Twin

variable {m count room : Nat} {W W' : Nat → Prop} {w w' : World}

theorem weaken (hLe : ∀ j, W' j → W j) (h : Twin m count room W w w') :
    Twin m count room W' w w' := by
  obtain ⟨i, j, hi, hj, hMatch⟩ := h.here
  exact ⟨h.shared, h.shared', i, j, hi, hj,
    { hMatch with buffers := hMatch.buffers.mono fun k hk => ⟨hk.1, hLe k hk.2⟩ }⟩

theorem of_same (h : Twin m count room W w w') {s t : Session}
    (hs : s.instance? m = w.session.instance? m)
    (ht : t.instance? m = w'.session.instance? m) :
    Twin m count room W ⟨s, w.loan⟩ ⟨t, w'.loan⟩ := by
  obtain ⟨i, j, hi, hj, hMatch⟩ := h.here
  exact ⟨h.shared, h.shared', i, j, hs.trans hi, ht.trans hj, hMatch⟩

/-- **Instances that match have paired arrays.** -/
theorem paired {slots : Nat} (hSlots : slots ≤ count) (m room : Nat) :
    Slots.Paired (storeOf m) (bufferOf m) (storeOf m) (bufferOf m) room slots
      (Twin m count room) where
  weaken := weaken
  stored h := by
    obtain ⟨i, j, hi, hj, hMatch⟩ := h.here
    rw [World.store_eq hi, World.store_eq hj]
    exact ⟨Nat.le_trans hSlots hMatch.stored.1, Nat.le_trans hSlots hMatch.stored.2⟩
  stores h := by
    obtain ⟨i, j, hi, hj, hMatch⟩ := h.here
    rw [World.store_eq hi, World.store_eq hj]
    exact hMatch.stores.mono fun k hk => Nat.lt_of_lt_of_le hk hSlots
  roomy h := by
    obtain ⟨i, j, hi, hj, hMatch⟩ := h.here
    rw [World.buffer_shared h.shared hi, World.buffer_shared h.shared' hj]
    exact hMatch.roomy
  buffers h := by
    obtain ⟨i, j, hi, hj, hMatch⟩ := h.here
    rw [World.buffer_shared h.shared hi, World.buffer_shared h.shared' hj]
    exact hMatch.buffers
  putStore {_ w w'} h {xs ys} hx hy hSame := by
    obtain ⟨i, j, hi, hj, hMatch⟩ := h.here
    rw [World.store_eq hi] at hx
    rw [World.store_eq hj] at hy
    refine ⟨h.shared, h.shared', i.setStore xs, j.setStore ys, instance?_changed hi _,
      instance?_changed hj _, ⟨?_, ?_⟩, fun k hk => ?_, hMatch.roomy,
      hMatch.buffers⟩
    · exact hx.size ▸ hMatch.stored.1
    · exact hy.size ▸ hMatch.stored.2
    · show xs[k]? = ys[k]?
      by_cases hLow : k < slots
      · exact hSame k hLow
      · rw [hx.above k (Nat.le_of_not_lt hLow), hy.above k (Nat.le_of_not_lt hLow)]
        exact hMatch.stores k hk
  putBuffer {_ _ w w'} h {xs ys} hx hy hSame := by
    obtain ⟨i, j, hi, hj, hMatch⟩ := h.here
    rw [World.buffer_shared h.shared hi] at hx
    rw [World.buffer_shared h.shared' hj] at hy
    rw [World.put_shared h.shared, World.put_shared h.shared']
    exact ⟨rfl, rfl, i.setBuffer xs, j.setBuffer ys, instance?_changed hi _,
      instance?_changed hj _, hMatch.stored, hMatch.stores,
      ⟨hx.size ▸ hMatch.roomy.1, hy.size ▸ hMatch.roomy.2⟩, hSame⟩

end Twin

/-- Calls of host functions that are functions of their arguments: they return or fail in the same
way in all sessions, and leave the instances alone. -/
def PureCalls (call : String → List Float → Act Session HostValue) : Prop :=
  ∀ (f : String) (xs : List Float) (s t : Session),
    Agree (fun v s' u t' => u = v ∧ (∀ n, s'.instance? n = s.instance? n) ∧
        ∀ n, t'.instance? n = t.instance? n)
      (fun s' t' => (∀ n, s'.instance? n = s.instance? n) ∧ ∀ n, t'.instance? n = t.instance? n)
      (call f xs s) (call f xs t)

variable {m count room : Nat} {s : Session} {i : Instance} {vs : List Variable}

/-- **Machines on instances that match mirror each other.** -/
theorem twin_mirrors {slots returns : Nat} (hSlots : slots ≤ count)
    {call : Calls} (hPure : PureCalls call) :
    (machine m 1 call).Mirrors (machine m 1 call) (.strict .any room slots returns)
      (Twin m count room) (Twin m count room fun _ => False) := by
  refine Machine.ofSlots_mirrors (Twin.paired hSlots m room) .any returns
    (Twin.weaken fun _ hNone => absurd hNone id) _ _ ?_
  intro f xs W w w' h
  have hCall := hPure f xs w.session w'.session
  unfold onPart
  generalize call f xs w.session = out at hCall ⊢
  generalize call f xs w'.session = out' at hCall ⊢
  cases hCall with
  | ok hDone => exact .ok ⟨hDone.1, h.of_same (hDone.2.1 m) (hDone.2.2 m)⟩
  | error hFailed =>
    exact .error ((h.of_same (hFailed.1 m) (hFailed.2 m)).weaken fun _ hNone =>
      absurd hNone id)

/-! ## Evaluations on instances that match -/

/-- Variables of an instance with the same values in two sessions. -/
def SameValues (number : Nat) (vs : List Variable) (s t : Session) : Prop :=
  ∀ v ∈ vs, (t.workshop number).inst.space.read v = (s.workshop number).inst.space.read v

theorem sameValues_of_matches {W : Nat → Prop} {t : Session} {j : Instance}
    (hi : s.instance? m = some i) (hj : t.instance? m = some j)
    (hMatch : i.Matches count room W j) (hStop : ∀ v ∈ vs, v.stop ≤ count) :
    SameValues m vs s t := by
  intro v hv
  rw [workshop_inst hi, workshop_inst hj]
  have hSpan : v.offset + v.size ≤ count := hStop v hv
  have hRead := hMatch.stores.slice (i := v.offset) (fun k _ hk => Nat.lt_of_lt_of_le hk hSpan)
    (Nat.le_trans hSpan hMatch.stored.1) (Nat.le_trans hSpan hMatch.stored.2)
  exact congrArg Array.toList hRead.symm

theorem Twin.sameValues {W : Nat → Prop} {w w' : World} (h : Twin m count room W w w')
    (hStop : ∀ v ∈ vs, v.stop ≤ count) (failed : Bool) :
    SameValues m vs ((w.close failed m).changeDepth m (· - 1))
      ((w'.close failed m).changeDepth m (· - 1)) := by
  obtain ⟨i, j, hi, hj, hMatch⟩ := h.here
  have hClosed {w : World} {i : Instance} (hi : w.session.instance? m = some i) :
      ((w.close failed m).changeDepth m (· - 1)).instance? m =
        some { i with depth := i.depth - 1 } := by
    rw [instance?_changeDepth, if_pos rfl, instance?_close, hi]
    rfl
  exact sameValues_of_matches (hClosed hi) (hClosed hj)
    ⟨hMatch.stored, hMatch.stores, hMatch.roomy, hMatch.buffers⟩ hStop

/-- **On idle instances that match an evaluation leads to the same.** -/
theorem evaluateWith_matches {t : Session} {a : Artifact} {j : Instance}
    (hAt : s.instance? a.home = some i) (hAt' : t.instance? a.home = some j) (hIdle : i.depth = 0)
    (hIdle' : j.depth = 0) {slots : Nat} (hMatch : i.Matches count room (fun _ => True) j)
    (hChecked : a.routine.Checked (.strict .any room slots a.returns) .all) (hSlots : slots ≤ count)
    {call : Calls} (hPure : PureCalls call)
    (hStop : ∀ v ∈ vs, v.stop ≤ count) (args : List Float) :
    Agree (fun xs s' ys t' => ys = xs ∧ SameValues a.home vs s' t') (SameValues a.home vs)
      (evaluateWith call a args s) (evaluateWith call a args t) := by
  by_cases hArgs : args.length = a.args
  case neg =>
    rw [evaluateWith_of_length_ne hArgs, evaluateWith_of_length_ne hArgs]
    exact .error (sameValues_of_matches hAt hAt' hMatch hStop)
  have hStart : Twin a.home count room (fun _ => True) ⟨s.changeDepth a.home (· + 1), .shared⟩
      ⟨t.changeDepth a.home (· + 1), .shared⟩ :=
    ⟨rfl, rfl, _, _, instance?_raised hAt, instance?_raised hAt',
      ⟨hMatch.stored, hMatch.stores, hMatch.roomy, hMatch.buffers⟩⟩
  have hAcquire : Agree (fun _ w _ w' => Twin a.home count room (fun _ => True) w w')
      (Twin a.home count room fun _ => False)
      ((machine a.home 1 call).acquire room ⟨s.changeDepth a.home (· + 1), .shared⟩)
      ((machine a.home 1 call).acquire room ⟨t.changeDepth a.home (· + 1), .shared⟩) := by
    rw [acquire_shared, acquire_shared]
    exact .ok (hStart.of_same (instance?_setWorkshop_self _ _ _) (instance?_setWorkshop_self _ _ _))
  have hRun := Routine.run_agrees (twin_mirrors hSlots hPure) hChecked hAcquire (args.map single)
    (.inl (.weaken fun _ hNone => absurd hNone id))
  rw [evaluateWith_idle hAt hIdle hArgs, evaluateWith_idle hAt' hIdle' hArgs]
  refine followedBy_agrees ?_
  unfold runRoutine
  generalize a.routine.run (machine a.home 1 call) (args.map single)
    ⟨s.changeDepth a.home (· + 1), .shared⟩ = out at hRun ⊢
  generalize a.routine.run (machine a.home 1 call) (args.map single)
    ⟨t.changeDepth a.home (· + 1), .shared⟩ = out' at hRun ⊢
  cases hRun with
  | error hFailed => exact .error (hFailed.sameValues hStop true)
  | @ok _ w _ w' hTwin =>
    refine .ok ⟨?_, hTwin.sameValues hStop false⟩
    obtain ⟨i', j', hi', hj', hMatch'⟩ := hTwin.here
    have hReturns : 0 + a.returns ≤ room := (Nat.zero_add _).symm ▸ hChecked.returns
    have hValues := hMatch'.buffers.slice (i := 0)
      (fun k _ hk => ⟨Nat.lt_of_lt_of_le hk hReturns, (Nat.zero_add a.returns) ▸ hk⟩)
      (Nat.le_trans hReturns hMatch'.roomy.1) (Nat.le_trans hReturns hMatch'.roomy.2)
    rw [Nat.zero_add] at hValues
    rw [World.buffer_shared hTwin.shared hi', World.buffer_shared hTwin.shared' hj']
    exact congrArg Array.toList hValues.symm

/-! ## Compiling in between -/

def Extends (s s' : Session) : Prop :=
  ∀ n i, s.instance? n = some i → ∃ i', s'.instance? n = some i' ∧ i.Extends i'

theorem Extends.refl (s : Session) : s.Extends s := fun _ i hi => ⟨i, hi, .refl i⟩

theorem Extends.trans {s₁ s₂ s₃ : Session} (h : s₁.Extends s₂) (h' : s₂.Extends s₃) :
    s₁.Extends s₃ := by
  intro n i hi
  obtain ⟨i', hi', hMore⟩ := h n i hi
  obtain ⟨i'', hi'', hMore'⟩ := h' n i' hi'
  exact ⟨i'', hi'', hMore.trans hMore'⟩

theorem onInstance_extends {α : Type} (hAt : s.instance? m = some i) (hSound : i.space.Sound)
    {act : Act Workshop α} {p : α → Workshop → Prop}
    (h : Keeps Workshop.making p act (s.workshop m)) :
    Ends (fun _ s' => s.Extends s') (fun s' => s.Extends s') (onInstance m act s) := by
  have hInst : (s.workshop m).inst = i := workshop_inst hAt
  have hPut {w : Workshop} (hMore : (s.workshop m).inst.Extends w.inst) :
      s.Extends (s.setWorkshop m w) := by
    intro n j hj
    rw [instance?_setWorkshop]
    by_cases hSame : n = m
    · rw [hSame] at hj
      rw [if_pos hSame, hj]
      cases hAt.symm.trans hj
      exact ⟨w.inst, rfl, hInst ▸ hMore⟩
    · rw [if_neg hSame]
      exact ⟨j, hj, .refl j⟩
  refine onPart_ends (.mono (h ?_) (fun _ _ hEnd => hPut hEnd.2.1) fun _ hEnd => hPut hEnd.2)
  show (s.workshop m).inst.space.Sound
  rw [hInst]
  exact hSound

/-- **A command to compile only adds**, whether it fails or not. -/
theorem extends_report_compile (hRest : s.AtRest) (host : Host) (shown name : String)
    (r : Request) : s.Extends (report host shown (.task name (.compile r)) s).2 := by
  have hObeyed : Ends (fun _ s' => s.Extends s') (fun s' => s.Extends s')
      (obey host (.task name (.compile r)) s) := by
    delta obey obeyVia
    dsimp only
    rw [get_bind]
    cases hNumber : s.number? name with
    | none => exact .error (Extends.refl s)
    | some m =>
      obtain ⟨i, hAt⟩ := hRest.names _ (mem_of_number? hNumber)
      have hCompile := onInstance_extends hAt (hRest.sound.spaces hAt)
        (Workshop.compile_keeps m r _)
      show Ends _ _ ((onInstance m (Workshop.compile m r) >>= fun a =>
        keep a >>= fun index => pure (Answer.artifact index a)) s)
      cases hOut : onInstance m (Workshop.compile m r) s with
      | error e s₁ =>
        rw [hOut] at hCompile
        rw [bind_of_error hOut]
        cases hCompile with
        | error h => exact .error h
      | ok a s₁ =>
        rw [hOut] at hCompile
        rw [bind_of_ok hOut]
        cases hCompile with
        | ok h => exact .ok h
  exact outcome_of_ends hObeyed

/-- The session after sources were compiled on named instances, whether that failed or not. -/
def compileAll (shown : String) (requests : List (String × Request)) (s : Session) : Session :=
  s.obeyAll .mute shown (requests.map fun p => .task p.1 (.compile p.2))

theorem extends_compileAll (shown : String) (requests : List (String × Request))
    (hRest : s.AtRest) : s.Extends (s.compileAll shown requests) := by
  induction requests generalizing s with
  | nil => exact .refl s
  | cons p rest ih =>
    have hFirst := extends_report_compile hRest .mute shown p.1 p.2
    exact hFirst.trans (ih (report_moves .mute shown (.task p.1 (.compile p.2)) hRest).1)

end Session

/-- Instances match those to which only something was added. -/
theorem Instance.Extends.matches {i i' : Instance} (h : i.Extends i') (hSound : i.space.Sound)
    {room : Nat} (hRoom : room ≤ i.scratch.buffer.size) :
    i.Matches i.space.cursor room (fun _ => True) i' where
  stored := ⟨hSound.cursor_le, Nat.le_trans hSound.cursor_le h.space.store.length_le⟩
  stores k hk := (h.space.getElem?_eq (Nat.lt_of_lt_of_le hk hSound.cursor_le)).symm
  roomy := ⟨hRoom, Nat.le_trans hRoom h.grows.buffer⟩
  buffers k hk := by
    obtain ⟨rest, hRest⟩ := h.buffer
    have hThere : k < i.scratch.buffer.toList.length := Nat.lt_of_lt_of_le hk.1 hRoom
    rw [← Array.getElem?_toList, ← Array.getElem?_toList, ← hRest, List.getElem?_append_left hThere]

/-- The host functions of an instance are functions of their arguments: they return a value or fail,
and do nothing else. -/
def Host.Pure (host : Host) (number : Nat) : Prop :=
  ∀ f xs, (∃ value, host number f xs = .give value) ∨ ∃ failure, host number f xs = .fail failure

theorem Host.Pure.calls {host : Host} {a : Artifact} (h : host.Pure a.home)
    (evaluate : Session.Evaluator) :
    Session.PureCalls (Session.callDeed host evaluate a) := by
  intro f xs s t
  unfold Session.callDeed Manner.callDeed
  rcases h f xs with ⟨value, hGive⟩ | ⟨failure, hFail⟩
  · rw [hGive]
    exact .ok ⟨rfl, fun _ => rfl, fun _ => rfl⟩
  · rw [hFail]
    exact .error ⟨fun _ => rfl, fun _ => rfl⟩

open Session in
/-- **Compiling is not noticed by older artifacts.**  After any sources were compiled on any
instances, whether that failed or not, the variables of an instance that were there before still are
and have their values.  Evaluating an artifact that was there before, whose routine writes only
within the buffer that it asks for and whose host functions are functions of their arguments,
returns the same values or fails in the same way as before, and leaves these variables with the same
values. -/
theorem compiling_is_invisible {s : Session} (hReached : s.Reached) {a : Artifact}
    (hKept : some a ∈ s.artifacts) {i : Instance} (hAt : s.instance? a.home = some i)
    (shown : String) (requests : List (String × Request)) :
    (∃ i', (s.compileAll shown requests).instance? a.home = some i' ∧
      i.space.records <+: i'.space.records ∧
      ∀ v ∈ i.space.records, i'.space.read v = i.space.read v) ∧
    (i.Templateless → a.confined = true) ∧
    ∀ {host : Host}, a.confined = true → host.Pure a.home → ∀ (limit : Nat) (args : List Float),
      Agree (fun xs s' ys t' => ys = xs ∧ SameValues a.home i.space.records s' t')
        (SameValues a.home i.space.records)
        (hosted host limit a args s) (hosted host limit a args (s.compileAll shown requests)) := by
  have hRest := hReached.atRest
  have hSound := hRest.sound.spaces hAt
  obtain ⟨i', hAt', hMore⟩ := extends_compileAll shown requests hRest a.home i hAt
  obtain ⟨j, hj, hSuits⟩ := hRest.sound.artifacts hKept
  cases hAt.symm.trans hj
  have hStop : ∀ v ∈ i.space.records, v.stop ≤ i.space.cursor := fun v hv => hSound.stop_le hv
  have hValues : SameValues a.home i.space.records s (s.compileAll shown requests) :=
    sameValues_of_matches hAt hAt' (hMore.matches hSound (Nat.zero_le _)) hStop
  refine ⟨⟨i', hAt', hMore.space.records, fun v hv => ?_⟩, hSuits.confined,
    fun hConfined hPure limit args => ?_⟩
  · have hSame := hValues v hv
    rw [workshop_inst hAt, workshop_inst hAt'] at hSame
    exact hSame
  · obtain ⟨room, slots, hChecked, hSlots, hRoom⟩ := hSuits.checked hConfined
    have hIdle : i.depth = 0 := hRest.idle hAt
    cases limit with
    | zero => exact .error hValues
    | succ limit =>
      exact evaluateWith_matches hAt hAt' hIdle (hMore.depth.trans hIdle)
        (hMore.matches hSound hRoom) hChecked hSlots (hPure.calls _) hStop args

/-- Host functions that add one to their argument. -/
def successor : Host := fun _ _ args => .give (.number (args.headD 0 + 1))

private theorem successor_pure (m : Nat) : successor.Pure m := fun _ _ => .inl ⟨_, rfl⟩

/-- A template that duplicates its argument is used on the value of a host function. -/
def duplicating : Session :=
  (Session.start none).obeyAll .mute "a"
    [.create "a" ⟨some [("q.f", .host "f" 1 1),
        ("q.twice", .template none none (.vector [.argument 0, .argument 0]))],
        false, [], false, false⟩,
      .task "a" (.compile ⟨"v.x = 1; v.y = q.twice(v.x); return q.twice(q.f(v.x));", [], []⟩)]

/-- A source that needs more variables and a longer buffer, a source that cannot be read beyond its
first statement, and a source for an instance that does not exist. -/
def laterRequests : List (String × Request) :=
  [("a", ⟨"v.z = [4, 5, 6]; return [1, 2, 3, 4, 5];", [], []⟩),
    ("a", ⟨"v.w = 7; return +;", [], []⟩), ("b", ⟨"1", [], []⟩)]

open Session in
/-- The later requests make two variables and lengthen the buffer, and are not noticed. -/
theorem later_requests_are_not_noticed :
    duplicating.Reached ∧ ∃ a i i', some a ∈ duplicating.artifacts ∧
      duplicating.instance? a.home = some i ∧ a.confined = true ∧ successor.Pure a.home ∧
      (duplicating.compileAll "a" laterRequests).instance? a.home = some i' ∧
      i.space.records.length = 2 ∧ i'.space.records.length = 4 ∧
      i.space.records <+: i'.space.records ∧
      (outcome (hosted successor 1 a []) duplicating).1.toOption.map (·.length) = some 2 ∧
      Agree (fun xs s' ys t' => ys = xs ∧ SameValues a.home i.space.records s' t')
        (SameValues a.home i.space.records) (hosted successor 1 a [] duplicating)
        (hosted successor 1 a [] (duplicating.compileAll "a" laterRequests)) := by
  have hReached : duplicating.Reached := reached_obeyAll "a" _ _
  have hChecks : (duplicating.artifacts.head?.join.map fun a => a.confined && a.home == 0 &&
      (duplicating.instance? 0).all (·.space.records.length == 2) &&
      ((duplicating.compileAll "a" laterRequests).instance? 0).all (·.space.records.length == 4) &&
      (outcome (hosted successor 1 a []) duplicating).1.toOption.map (·.length) == some 2) =
        some true := by
    decide +kernel
  obtain ⟨a, ha, hAll⟩ := Option.map_eq_some_iff.mp hChecks
  have hMem : some a ∈ duplicating.artifacts :=
    List.mem_of_mem_head? (Option.join_eq_some_iff.mp ha)
  simp only [Bool.and_eq_true, beq_iff_eq] at hAll
  obtain ⟨⟨⟨⟨hConfined, hHome⟩, hTwo⟩, hFour⟩, hLength⟩ := hAll
  obtain ⟨i, hAt, -⟩ := hReached.atRest.sound.artifacts hMem
  obtain ⟨⟨i', hAt', hKept, -⟩, -, hSame⟩ :=
    compiling_is_invisible hReached hMem hAt "a" laterRequests
  rw [← hHome, hAt] at hTwo
  rw [← hHome, hAt'] at hFour
  exact ⟨hReached, a, i, i', hMem, hAt, hConfined, successor_pure a.home, hAt', beq_iff_eq.mp hTwo,
    beq_iff_eq.mp hFour, hKept, hLength, hSame hConfined (successor_pure a.home) 1 []⟩

/-- A template that puts its arguments side by side is used on two vectors. -/
def sideBySide : Session :=
  (Session.start none).obeyAll .mute "a"
    [.create "a" ⟨some [("q.m", .template none none (.vector [.argument 0, .argument 1]))],
        false, [], false, false⟩,
      .task "a" (.compile ⟨"q.m([1, 2], [3, 4])", [], []⟩)]

open Session in
/-- **A longer buffer can be noticed** by a routine that writes behind the end of its own: it fails,
and no longer does so when a source that needs a longer buffer has been compiled. -/
theorem longer_buffer_is_noticed :
    sideBySide.Reached ∧ ∃ a, some a ∈ sideBySide.artifacts ∧ successor.Pure a.home ∧
      (outcome (hosted successor 1 a []) sideBySide).1.toOption.map (·.length) = none ∧
      (outcome (hosted successor 1 a [])
        (sideBySide.compileAll "a" [("a", ⟨"[1, 2, 3]", [], []⟩)])).1.toOption.map (·.length) =
          some 2 := by
  have hReached : sideBySide.Reached := reached_obeyAll "a" _ _
  have hChecks : (sideBySide.artifacts.head?.join.map fun a =>
      ((outcome (hosted successor 1 a []) sideBySide).1.toOption.map (·.length),
        (outcome (hosted successor 1 a [])
          (sideBySide.compileAll "a" [("a", ⟨"[1, 2, 3]", [], []⟩)])).1.toOption.map (·.length))) =
      some (none, some 2) := by decide +kernel
  obtain ⟨a, ha, hBoth⟩ := Option.map_eq_some_iff.mp hChecks
  have hMem : some a ∈ sideBySide.artifacts := List.mem_of_mem_head? (Option.join_eq_some_iff.mp ha)
  exact ⟨hReached, a, hMem, successor_pure a.home, (Prod.mk.inj hBoth).1, (Prod.mk.inj hBoth).2⟩

end MolangCompiler
