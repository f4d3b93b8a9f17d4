import MolangCompiler.Proofs.Images
import MolangCompiler.Proofs.Mirror
import MolangCompiler.Proofs.Slots
import MolangCompiler.Proofs.Watched

/-!
# Nested evaluations leave enclosing ones alone

The first evaluation on an instance uses the shared scratch buffer; every evaluation inside it runs
at a greater depth and gets a buffer of its own.  So what an evaluation has written stays until it
overwrites it itself.

The argument is one induction on how deep evaluations may nest.  `Attends` is the invariant of a
watched run seen from host functions: the session is sound, all running evaluations are safe, and
everything that was seen so far was good.  `Runs` is the invariant inside a routine; it speaks of
the session in which the evaluation began, which the current one has outgrown once the depth is
lowered again.
-/

namespace MolangCompiler

open Evaluation Session

/-! ## Evaluations in a session that grows -/

namespace Session

theorem scratch_changeDepth (s : Session) (m n : Nat) (g : Nat → Nat) :
    ((s.changeDepth m g).workshop n).inst.scratch = (s.workshop n).inst.scratch := by
  show (((s.changeDepth m g).instance? n).getD default).scratch =
    ((s.instance? n).getD default).scratch
  rw [instance?_changeDepth]
  by_cases hSame : n = m
  · rw [if_pos hSame, hSame]
    cases s.instance? m <;> rfl
  · rw [if_neg hSame]

end Session

variable {i : Instance} {m : Nat} {α σ : Type} {call : Calls}
  {call' : String → List Float → Act Watch HostValue}

namespace Evaluation

variable {f : Evaluation} {s s' : Session}

theorem buffer_shared (hLoan : f.loan = .shared) (hAt : s.instance? f.home = some i) :
    f.buffer s = i.scratch.buffer := World.buffer_shared hLoan hAt

theorem buffer_changeDepth (m : Nat) (g : Nat → Nat) :
    f.buffer (s.changeDepth m g) = f.buffer s := by
  cases hLoan : f.loan with
  | own buffer charged => exact (World.buffer_own hLoan).trans (World.buffer_own hLoan).symm
  | shared =>
    unfold buffer bufferOf
    rw [hLoan]
    show ((s.changeDepth m g).workshop f.home).inst.scratch.buffer =
      (s.workshop f.home).inst.scratch.buffer
    rw [scratch_changeDepth]

theorem Intact.of_buffer (h : f.Intact s) (hSame : f.buffer s' = f.buffer s) : f.Intact s' :=
  ⟨hSame ▸ h.room, fun hWritten => hSame ▸ h.written hWritten⟩

theorem intact_changeDepth {g : Nat → Nat} : f.Intact (s.changeDepth m g) ↔ f.Intact s :=
  ⟨fun h => h.of_buffer (buffer_changeDepth m g).symm,
    fun h => h.of_buffer (buffer_changeDepth m g)⟩

/-- The instance of an evaluation is there, and counts it as running. -/
def Sheltered (s : Session) (f : Evaluation) : Prop :=
  ∃ i, s.instance? f.home = some i ∧ 0 < i.depth

/-- An intact evaluation that nobody will disturb. -/
structure Safe (s : Session) (f : Evaluation) : Prop where
  intact : f.Intact s
  sheltered : f.Sheltered s

/-- **While a session grows its evaluations stay intact.** -/
theorem Intact.grows (h : f.Intact s) (hShelter : f.Sheltered s) (hGrows : s.Grows s') :
    f.Intact s' := by
  obtain ⟨i, hAt, hDepth⟩ := hShelter
  obtain ⟨hSize, hSame⟩ := World.buffer_grows (w := ⟨s, f.loan⟩) hAt hDepth hGrows
  refine ⟨Nat.le_trans h.room hSize, fun {j x} hWritten => ?_⟩
  have hOld := h.written hWritten
  exact (hSame j (Array.getElem?_eq_some_iff.mp hOld).1).trans hOld

theorem Sheltered.grows (h : f.Sheltered s) (hGrows : s.Grows s') : f.Sheltered s' := by
  obtain ⟨i, hAt, hDepth⟩ := h
  obtain ⟨i', hAt', hMore⟩ := hGrows.some hAt
  exact ⟨i', hAt', by rw [hMore.depth]; exact hDepth⟩

theorem Safe.grows (h : f.Safe s) (hGrows : s.Grows s') : f.Safe s' :=
  ⟨h.intact.grows h.sheltered hGrows, h.sheltered.grows hGrows⟩

theorem Safe.raise {levels : Nat} (h : f.Safe (s.changeDepth m (· - levels))) : f.Safe s := by
  refine ⟨intact_changeDepth.mp h.intact, ?_⟩
  obtain ⟨i, hAt, hDepth⟩ := h.sheltered
  rw [instance?_changeDepth] at hAt
  by_cases hSame : f.home = m
  · rw [if_pos hSame] at hAt
    obtain ⟨j, hj, rfl⟩ := Option.map_eq_some_iff.mp hAt
    exact ⟨j, hSame ▸ hj, Nat.lt_of_lt_of_le hDepth (Nat.sub_le _ _)⟩
  · rw [if_neg hSame] at hAt
    exact ⟨i, hAt, hDepth⟩

end Evaluation

/-! ## Host functions -/

/-- A watched session that is in order. -/
structure Attends (w : Watch) : Prop where
  sound : w.session.Sound
  safe : ∀ f ∈ w.active, f.Safe w.session
  seen : ∀ x ∈ w.seen, x.Good

theorem Attends.start {s : Session} (h : s.Sound) : Attends ⟨s, [], []⟩ :=
  ⟨h, List.forall_mem_nil _, List.forall_mem_nil _⟩

/-- Watched sessions that stay in order, with the same evaluations running. -/
def Watch.course : Course Watch where
  ok := Attends
  le w w' := w.session.Grows w'.session ∧ w'.active = w.active
  refl _ := ⟨.refl _, rfl⟩
  trans h h' := ⟨h.1.trans h'.1, h'.2.trans h.2⟩

/-- An operation and its watched counterpart lead to the same, and `post` holds of it. -/
abbrev Attended {α : Type} (post : α → Session → Prop) (act : Act Session α) (act' : Act Watch α)
    (w : Watch) : Prop :=
  (Pairing.shadowed Watch.session Watch.course).rel (fun a w' => post a w'.session) act' act w

theorem Attended.lift {post : α → Session → Prop} {act : Act Session α} {w : Watch}
    (h : Keeps course post act w.session) : Attended post act (Watch.lift act) w := by
  intro hAttends
  have hEnds := h hAttends.sound
  have hMoment {s' : Session} (hOk : s'.Sound) (hGrows : w.session.Grows s') :
      Attends ⟨s', w.active, .moment s' w.active :: w.seen⟩ := by
    have hSafe : ∀ f ∈ w.active, f.Safe s' := fun f hf => (hAttends.safe f hf).grows hGrows
    exact ⟨hOk, hSafe, List.forall_mem_cons.mpr ⟨fun f hf => (hSafe f hf).intact, hAttends.seen⟩⟩
  unfold Watch.lift onPart
  generalize act w.session = out at hEnds ⊢
  cases hEnds with
  | ok hEnd => exact .ok ⟨hMoment hEnd.1 hEnd.2.1, ⟨hEnd.2.1, rfl⟩, hEnd.2.2⟩
  | error hEnd => exact .error ⟨hMoment hEnd.1 hEnd.2, hEnd.2, rfl⟩

/-- Host functions that a running artifact calls, plain and watched. -/
def CallsAttended (a : Artifact) (call : Calls)
    (call' : String → List Float → Act Watch HostValue) : Prop :=
  ∀ (f : String) (xs : List Float) {w : Watch}, w.session.Houses a →
    Attended (fun _ _ => True) (call f xs) (call' f xs) w

/-! ## Inside a routine -/

namespace Session

variable {s : Session} {m : Nat} {i : Instance}

theorem forall_instance?_change (hAt : s.instance? m = some i) {g : Instance → Instance}
    {p : Instance → Prop} (hNew : p (g i)) (hOld : ∀ {n j}, s.instance? n = some j → p j) :
    ∀ {n j}, (s.changeInstance m g).instance? n = some j → p j := by
  intro n j hj
  rw [instance?_change hAt] at hj
  by_cases hSame : n = m
  · rw [if_pos hSame] at hj
    cases hj
    exact hNew
  · rw [if_neg hSame] at hj
    exact hOld hj

variable {xs : Array Float}

theorem grows_setStore (hAt : s.instance? m = some i) (hSize : xs.size = i.space.store.size) :
    s.Grows (s.changeInstance m (·.setStore xs)) := by
  have hSpace : i.space.Grows (i.setStore xs).space :=
    ⟨List.prefix_refl _, Nat.le_refl _, Nat.le_of_eq hSize.symm⟩
  have hGrows : i.Grows (i.setStore xs) := .of_extended hSpace (List.prefix_refl _) rfl rfl
  exact .of_change hAt hGrows (instance?_change hAt _) rfl rfl

theorem Sound.setStore (h : s.Sound) (hAt : s.instance? m = some i)
    (hSize : xs.size = i.space.store.size)
    (hSame : ∀ j, i.space.cursor ≤ j → xs[j]? = i.space.store[j]?) :
    (s.changeInstance m (·.setStore xs)).Sound := by
  refine h.grows (grows_setStore hAt hSize) (forall_instance?_change hAt ?_ h.spaces) rfl
  exact (h.spaces hAt).setStore hSize hSame

theorem Sound.setBuffer (h : s.Sound) (hAt : s.instance? m = some i)
    (hSize : i.scratch.buffer.size ≤ xs.size) :
    (s.changeInstance m (·.setBuffer xs)).Sound := by
  refine h.enlarges (.of_change hAt (Nat.le_refl _) hSize rfl)
    (forall_instance?_change hAt ?_ h.spaces) rfl
  show i.space.Sound
  exact h.spaces hAt

theorem Grows.setBuffer {s₀ : Session} (h : s₀.Grows (s.changeDepth m (· - 1)))
    (hAt : s.instance? m = Option.some i)
    (hIdle : ∀ {i₀}, s₀.instance? m = Option.some i₀ → i₀.depth = 0)
    (hSize : i.scratch.buffer.size ≤ xs.size) :
    s₀.Grows ((s.changeInstance m (·.setBuffer xs)).changeDepth m (· - 1)) where
  some {n i₀} hi₀ := by
    obtain ⟨j, hj, hMore⟩ := h.some hi₀
    rw [instance?_changeDepth] at hj ⊢
    by_cases hSame : n = m
    · rw [if_pos hSame, hAt] at hj
      cases hj
      rw [if_pos hSame, instance?_change hAt, if_pos rfl]
      have hDepth : i₀.depth = 0 := hIdle (hSame ▸ hi₀)
      refine ⟨_, rfl, hMore.space, Nat.le_trans hMore.buffer hSize, fun hPos => ?_, hMore.depth,
        hMore.queries⟩
      omega
    · rw [if_neg hSame] at hj
      rw [if_neg hSame, instance?_change hAt, if_neg hSame]
      exact ⟨j, hj, hMore⟩
  none {n} hn := by
    have hGone := h.none hn
    rw [instance?_changeDepth] at hGone ⊢
    by_cases hSame : n = m
    · rw [if_pos hSame, hAt] at hGone
      cases hGone
    · rw [if_neg hSame] at hGone
      rw [if_neg hSame, instance?_change hAt, if_neg hSame]
      exact hGone
  names := h.names
  next := h.next

end Session

/-- An evaluation of an artifact begins in a session, inside others: the routine is checked against
limits that its instance meets.  `exact` says whether the routine keeps to its own room. -/
structure Stage where
  session : Session
  artifact : Artifact
  outer : List Evaluation
  lim : Limits
  exact : Prop
  housed : session.Houses artifact
  here : ∃ i, session.instance? artifact.home = some i ∧ lim.slots ≤ i.space.cursor ∧
    lim.room ≤ i.scratch.buffer.size
  safe : ∀ f ∈ outer, f.Safe session
  within : exact → ∀ slot size, lim.writable slot size → 0 ≤ slot ∧ slot + size ≤ lim.room

abbrev Stage.home (S : Stage) : Nat := S.artifact.home

/-- The routine is running or has failed. -/
structure Halts (S : Stage) (r : Running) : Prop where
  outer : r.outer = S.outer
  sound : r.session.Sound
  grows : S.session.Grows (r.session.changeDepth S.home (· - 1))
  raised : ∀ {i}, r.session.instance? S.home = some i → 0 < i.depth
  seen : ∀ x ∈ r.seen, x.Good

/-- The routine is running, and has written at least the slots in `W` if it is exact. -/
structure Runs (S : Stage) (W : Nat → Prop) (r : Running) : Prop extends Halts S r where
  place : r.own.home = S.home
  lent : r.own.loan = .shared → ∀ {i}, S.session.instance? S.home = some i → i.depth = 0
  room : r.own.room = S.lim.room
  intact : r.own.Intact r.session
  filled : S.exact → ∀ j, W j → (r.own.written j).isSome

section

variable {S : Stage} {W : Nat → Prop} {r : Running}

theorem Halts.instance (h : Halts S r) :
    ∃ i, r.session.instance? S.home = some i ∧ S.lim.slots ≤ i.space.cursor ∧
      S.lim.room ≤ i.scratch.buffer.size ∧ 0 < i.depth := by
  obtain ⟨i₀, hAt, hSlots, hRoom⟩ := S.here
  obtain ⟨i', hAt', hMore⟩ := h.grows.some hAt
  rw [instance?_changeDepth, if_pos rfl] at hAt'
  obtain ⟨i, hi, rfl⟩ := Option.map_eq_some_iff.mp hAt'
  exact ⟨i, hi, Nat.le_trans hSlots hMore.space.cursor, Nat.le_trans hRoom hMore.buffer,
    h.raised hi⟩

variable {s s' : Session} {seen : List Sight} {xs : Array Float} {a : Artifact}

theorem Stage.outer_safe (S : Stage) (hGrows : S.session.Grows (s.changeDepth S.home (· - 1))) :
    ∀ f ∈ S.outer, f.Safe s :=
  fun f hf => .raise ((S.safe f hf).grows hGrows)

theorem Runs.safe (h : Runs S W r) : r.own.Safe r.session := by
  refine ⟨h.intact, ?_⟩
  obtain ⟨i, hAt, -, -, hDepth⟩ := h.toHalts.instance
  exact ⟨i, h.place ▸ hAt, hDepth⟩

theorem Stage.seen_moment (S : Stage) {own : Evaluation}
    (hGrows : S.session.Grows (s.changeDepth S.home (· - 1))) (hOwn : own.Intact s)
    (hSeen : ∀ x ∈ seen, x.Good) : ∀ x ∈ Sight.moment s (own :: S.outer) :: seen, x.Good :=
  List.forall_mem_cons.mpr ⟨List.forall_mem_cons.mpr ⟨hOwn, fun f hf =>
    (S.outer_safe hGrows f hf).intact⟩, hSeen⟩

/-- The session has grown, and only good things were seen. -/
theorem Halts.after (h : Halts S r) (hGrows : r.session.Grows s') (hSound : s'.Sound)
    {own : Evaluation} (hSeen : ∀ x ∈ seen, x.Good) :
    Halts S ⟨s', own, r.outer, seen⟩ where
  outer := h.outer
  sound := hSound
  grows := h.grows.trans (hGrows.lower S.home 1)
  raised hAt' := by
    obtain ⟨i, hAt, hMore⟩ := hGrows.back hAt'
    rw [hMore.depth]
    exact h.raised hAt
  seen := hSeen

theorem Runs.after (h : Runs S W r) (hGrows : r.session.Grows s') (hSound : s'.Sound)
    (hSeen : ∀ x ∈ seen, x.Good) :
    Runs S W ⟨s', r.own, r.outer, seen⟩ where
  toHalts := h.toHalts.after hGrows hSound hSeen
  place := h.place
  lent := h.lent
  room := h.room
  intact := (h.safe.grows hGrows).intact
  filled := h.filled

theorem Runs.move_still (h : Runs S W r) (hGrows : r.session.Grows s') (hSound : s'.Sound) :
    Runs S W (r.move ⟨s', r.own.loan⟩ id) := by
  refine h.after hGrows hSound ?_
  rw [h.outer]
  exact S.seen_moment (h.grows.trans (hGrows.lower S.home 1)) (h.safe.grows hGrows).intact h.seen

/-- **The routine writes to its buffer**, which gets no shorter. -/
theorem Runs.move_write (h : Runs S W r)
    {slot : Nat} {ys : List Float} (hSize : (r.own.buffer r.session).size ≤ xs.size)
    (hWritten : ∀ {j x}, (r.own.write slot ys).written j = some x → xs[j]? = some x)
    {W' : Nat → Prop} (hFilled : S.exact → ∀ j, W' j → ((r.own.write slot ys).written j).isSome) :
    Runs S W' (r.move ((bufferOf S.home).put xs r.world) (write slot ys)) := by
  obtain ⟨i, hAt, -, -, hDepth⟩ := h.toHalts.instance
  have hMoment {s' : Session} {own : Evaluation} (hOwn : own.Intact s')
      (hGrows : S.session.Grows (s'.changeDepth S.home (· - 1))) :
      ∀ x ∈ Sight.moment s' (own :: r.outer) :: r.seen, x.Good := by
    rw [h.outer]
    exact S.seen_moment hGrows hOwn h.seen
  have hRoom := h.intact.room
  cases hLoan : r.own.loan with
  | own buffer charged =>
    rw [World.put_own (w := r.world) hLoan]
    have hOwn : Intact r.session (write slot ys { r.own with loan := .own xs charged }) := by
      refine ⟨?_, hWritten⟩
      show r.own.room ≤ xs.size
      exact Nat.le_trans hRoom hSize
    exact { outer := h.outer, sound := h.sound, grows := h.grows, raised := h.raised
            seen := hMoment hOwn h.grows, place := h.place, lent := fun hShared => nomatch hShared
            room := h.room, intact := hOwn, filled := hFilled }
  | shared =>
    rw [World.put_shared (w := r.world) hLoan]
    have hHome : r.session.instance? r.own.home = some i := h.place ▸ hAt
    rw [buffer_shared hLoan hHome] at hSize hRoom
    have hGrows := h.grows.setBuffer hAt (h.lent hLoan) hSize
    have hAt' : (r.session.changeInstance S.home (·.setBuffer xs)).instance? r.own.home =
        some (i.setBuffer xs) := by
      rw [h.place, instance?_change hAt, if_pos rfl]
    have hOwn : Intact (r.session.changeInstance S.home (·.setBuffer xs))
        (write slot ys { r.own with loan := .shared }) := by
      have hBuffer : (write slot ys { r.own with loan := .shared }).buffer
          (r.session.changeInstance S.home (·.setBuffer xs)) = xs :=
        buffer_shared (f := .write slot ys { r.own with loan := .shared }) rfl hAt'
      refine ⟨?_, fun hSome => ?_⟩
      · rw [hBuffer]
        exact Nat.le_trans hRoom hSize
      · rw [hBuffer]
        exact hWritten hSome
    refine { outer := h.outer, sound := h.sound.setBuffer hAt hSize, grows := hGrows
             raised := fun {j} hj => ?_, seen := hMoment hOwn hGrows, place := h.place
             lent := fun _ => h.lent hLoan, room := h.room, intact := hOwn, filled := hFilled }
    rw [h.place] at hAt'
    cases hAt'.symm.trans hj
    exact hDepth

/-! ## Operations of a routine -/

theorem Slots.read_ends (k : Slots σ) (slot : Nat) (s : σ) :
    Ends (fun _ s' => s' = s) (fun s' => s' = s) (k.read slot s) := by
  unfold read
  cases (k.get s)[slot]? with
  | some x => exact .ok rfl
  | none => exact .error rfl

theorem Slots.write_ends (k : Slots σ) (slot : Nat) (x : Float) (s : σ) :
    Ends (fun _ s' => ∃ xs, setSlot? (k.get s) slot x = some xs ∧ s' = k.put xs s)
      (fun s' => s' = s) (k.write slot x s) := by
  unfold write
  cases setSlot? (k.get s) slot x with
  | some xs => exact .ok ⟨xs, rfl, rfl⟩
  | none => exact .error rfl

private theorem marking_agrees (act : Act World α) (mark : Evaluation → Evaluation)
    (hMark : ∀ f, (mark f).loan = f.loan) {p : α → Running → Prop} {q : Running → Prop}
    (h : Ends (fun a w => p a (r.move w mark)) (fun w => q (r.move w id)) (act r.world)) :
    Agree (fun a w b r' => b = a ∧ r'.world = w ∧ p a r') (fun w r' => r'.world = w ∧ q r')
      (act r.world) (marking act mark r) := by
  have hWorld (w : World) : (r.move w mark).world = w := by
    show (⟨w.session, (mark { r.own with loan := w.loan }).loan⟩ : World) = w
    rw [hMark]
  unfold marking
  generalize act r.world = out at h ⊢
  cases h with
  | ok h => exact .ok ⟨rfl, hWorld _, h⟩
  | error h => exact .error ⟨rfl, h⟩

def Shows (S : Stage) (W : Nat → Prop) (w : Session.World) (r : Running) : Prop :=
  r.world = w ∧ Runs S W r

/-- A plain routine and a watched one that have failed. -/
def ShowsFailure (S : Stage) (w : Session.World) (r : Running) : Prop := r.world = w ∧ Halts S r

private theorem marking_shows (act : Act World α) (mark : Evaluation → Evaluation) {W' : Nat → Prop}
    (h : Ends (fun _ w => Runs S W' (r.move w mark)) (fun w => Halts S (r.move w id)) (act r.world))
    (hMark : ∀ f, (mark f).loan = f.loan := by exact fun _ => rfl) :
    Agree (fun _ w _ r' => Shows S W' w r') (ShowsFailure S) (act r.world) (marking act mark r) :=
  (marking_agrees act mark hMark h).mono (fun _ _ _ _ hDone => hDone.2) fun _ _ hF => hF

section

variable (h : Runs S W r)
include h

theorem Runs.store_fits : S.lim.slots ≤ ((storeOf S.home).get r.world).size := by
  obtain ⟨i, hAt, hSlots, -⟩ := h.toHalts.instance
  exact World.store_fits (w := r.world) hAt h.sound hSlots

theorem Runs.move_store (hSize : xs.size = ((storeOf S.home).get r.world).size)
    (hSame : ∀ j, S.lim.slots ≤ j → xs[j]? = ((storeOf S.home).get r.world)[j]?) :
    Runs S W (r.move ((storeOf S.home).put xs r.world) id) := by
  obtain ⟨i, hAt, hSlots, -⟩ := h.toHalts.instance
  rw [World.store_eq (w := r.world) hAt] at hSize hSame
  refine h.move_still (grows_setStore hAt hSize) (h.sound.setStore hAt hSize ?_)
  exact fun j hj => hSame j (Nat.le_trans hSlots hj)

theorem Runs.still_agrees {act : Act World α} {p : α → Prop}
    (hEnds : Ends (fun a w => w = r.world ∧ p a) (fun w => w = r.world) (act r.world)) :
    Agree (fun a w b r' => b = a ∧ p a ∧ Shows S W w r')
      (ShowsFailure S) (act r.world) (marking act id r) := by
  have hStill : Runs S W (r.move r.world id) :=
    h.move_still (.refl _) h.sound
  refine .mono (marking_agrees act id (fun _ => rfl)
    (p := fun a r' => p a ∧ Runs S W r') (q := Halts S) ?_) ?_
    fun _ _ hF => hF
  · refine .mono hEnds ?_ ?_
    · rintro a w ⟨rfl, hPost⟩
      exact ⟨hPost, hStill⟩
    · rintro w rfl
      exact hStill.toHalts
  · rintro a w b r' ⟨hSame, hWorld, hPost, hRuns⟩
    exact ⟨hSame, hPost, hWorld, hRuns⟩

theorem Runs.writeVariable_agrees {slot : Nat} (hSlot : slot < S.lim.slots) (x : Float) :
    Agree (fun _ w _ r' => Shows S W w r') (ShowsFailure S) ((storeOf S.home).write slot x r.world)
      (marking ((storeOf S.home).write slot x) id r) := by
  refine marking_shows _ id (Ends.mono (Slots.write_ends _ slot x r.world) ?_ ?_)
  · rintro _ w ⟨xs, hSet, rfl⟩
    refine h.move_store (size_of_setSlot? hSet) fun j hj => getElem?_of_setSlot? hSet ?_
    omega
  · rintro w rfl
    exact (h.move_still (.refl _) h.sound).toHalts

theorem Runs.buffer_eq : (bufferOf S.home).get r.world = r.own.buffer r.session := by
  unfold buffer
  rw [h.place]
  rfl

theorem Runs.writeSlot_agrees (slot : Nat) (x : Float) :
    Agree (fun _ w _ r' => Shows S (withSlots slot 1 W) w r') (ShowsFailure S)
      ((bufferOf S.home).write slot x r.world)
      (marking ((bufferOf S.home).write slot x) (write slot [single x]) r) := by
  refine marking_shows _ _ (Ends.mono (Slots.write_ends _ slot x r.world) ?_ ?_)
  · rintro _ w ⟨xs, hSet, rfl⟩
    rw [h.buffer_eq] at hSet
    have hWrite (j : Nat) : (r.own.write slot [single x]).written j =
        if j = slot then some (single x) else r.own.written j := by
      show (if slot ≤ j ∧ j < slot + 1 then [single x][j - slot]? else r.own.written j) = _
      grind
    refine h.move_write (Nat.le_of_eq (size_of_setSlot? hSet).symm) (fun {j y} hSome => ?_)
      fun hExact j hj => ?_
    · unfold setSlot? at hSet
      have hOld := @h.intact.written j y
      grind
    · rw [hWrite]
      by_cases hSame : j = slot
      · rw [if_pos hSame]
        rfl
      · rw [if_neg hSame]
        exact h.filled hExact j (hj.resolve_left (by omega))
  · rintro w rfl
    exact (h.move_still (.refl _) h.sound).toHalts

theorem Runs.writeSlots_agrees {slot : Int} {size : Nat}
    (hSlot : S.lim.writable slot size) (hSize : xs.size = size) :
    Agree (fun _ w _ r' => Shows S (withSlots slot.toNat size W) w r') (ShowsFailure S)
      ((bufferOf S.home).writeMany slot.toNat size xs r.world)
      (marking ((bufferOf S.home).writeMany slot.toNat size xs)
        (write (min slot.toNat (r.own.buffer r.session).size) xs.toList) r) := by
  refine marking_shows _ _ (.ok ?_)
  rw [h.buffer_eq]
  have hLength : xs.toList.length = size := by rw [Array.length_toList, hSize]
  refine h.move_write (size_le_splice hSize) (fun {j y} hSome => ?_) fun hExact j hj => ?_
  · unfold write at hSome
    dsimp only at hSome
    rw [getElem?_splice, hSize]
    split at hSome
    · rename_i hIn
      rw [if_neg (by omega), if_pos (by omega), ← Array.getElem?_toList]
      exact hSome
    · rename_i hOut
      have hOld := h.intact.written hSome
      have hThere : j < (r.own.buffer r.session).size := (Array.getElem?_eq_some_iff.mp hOld).1
      by_cases hBefore : j < min slot.toNat (r.own.buffer r.session).size
      · rw [if_pos hBefore]
        exact hOld
      · have hBehind : slot.toNat + size +
            (j - (min slot.toNat (r.own.buffer r.session).size + size)) = j := by omega
        rw [if_neg hBefore, if_neg (by omega), hBehind]
        exact hOld
  · -- a routine that keeps to its room writes where it says
    have hSpan := S.within hExact slot size hSlot
    have hRoom := h.intact.room
    rw [h.room] at hRoom
    unfold write
    dsimp only
    rw [hLength]
    split
    · rename_i hIn
      rw [List.getElem?_eq_getElem (by omega)]
      rfl
    · refine h.filled hExact j (hj.resolve_left ?_)
      omega

theorem Runs.attends : Attends r.watch :=
  ⟨h.sound, List.forall_mem_cons.mpr ⟨h.safe, h.outer ▸ S.outer_safe h.grows⟩, h.seen⟩

theorem Runs.call_agrees {act : Act Session HostValue} {act' : Act Watch HostValue}
    (hAct : Attended (fun _ _ => True) act act' r.watch) :
    Agree (fun v w u r' => u = v ∧ Shows S W w r')
      (ShowsFailure S)
      (onPart World.session (fun s w => { w with session := s }) act r.world)
      (onPart Running.watch Running.goOn act' r) := by
  have hGoOn {w' : Watch} (hAttends : Attends w') (hGrows : r.session.Grows w'.session) :
      Shows S W ⟨w'.session, r.own.loan⟩ (r.goOn w') :=
    ⟨rfl, h.after hGrows hAttends.sound hAttends.seen⟩
  have hBoth := hAct h.attends
  unfold onPart
  change Shadows _ _ _ _ (act' r.watch) (act r.world.session) at hBoth
  generalize act r.world.session = out at hBoth ⊢
  generalize act' r.watch = out' at hBoth ⊢
  cases hBoth with
  | ok hDone => exact .ok ⟨rfl, hGoOn hDone.1 hDone.2.1.1⟩
  | error hFailed => exact .error ((hGoOn hFailed.1 hFailed.2.1).imp_right toHalts)
  | excused h => exact h.elim

end

/-- **A watched machine mirrors the plain one** if the host functions do. -/
theorem watched_mirrors (S : Stage) (depth : Nat) (hCall : CallsAttended S.artifact call call') :
    (machine S.home depth call).Mirrors
      ((machine S.home depth fun _ _ => runFailure .hostFailed).watched call') S.lim
      (Shows S) (ShowsFailure S) where
  weaken hLe h := ⟨h.1, { h.2 with filled := fun hExact j hj => h.2.filled hExact j (hLe j hj) }⟩
  readVariable {W w r slot} _ h := by
    obtain ⟨rfl, h⟩ := h
    refine .mono (h.still_agrees (p := fun _ => True) ?_)
      (fun _ _ _ _ hDone => ⟨hDone.1, hDone.2.2⟩) fun _ _ hF => hF
    exact .mono (Slots.read_ends _ slot r.world) (fun _ _ hSame => ⟨hSame, trivial⟩)
      fun _ hSame => hSame
  writeVariable hSlot x h := by
    obtain ⟨rfl, h⟩ := h
    exact h.writeVariable_agrees hSlot x
  call {W w r} _ function args h := by
    obtain ⟨rfl, h⟩ := h
    have hHere := houses_changeDepth.mp (S.housed.grows h.grows)
    exact h.call_agrees (hCall function args (w := r.watch) hHere)
  writeSlot _ x h := by
    obtain ⟨rfl, h⟩ := h
    exact h.writeSlot_agrees _ x
  load {W w r slot offset size} hSlot hSpan h := by
    obtain ⟨rfl, h⟩ := h
    have hRead : Ends (fun (xs : Array Float) w => w = r.world ∧ xs.size = size)
        (fun w => w = r.world) ((storeOf S.home).readMany offset size r.world) :=
      .ok ⟨rfl, size_slice (Nat.le_trans hSpan h.store_fits)⟩
    refine .bind (h.still_agrees hRead) ?_
    rintro xs w ys r' ⟨rfl, hSize, rfl, h'⟩
    exact h'.writeSlots_agrees hSlot hSize
  store {W w r slot offset size} hSpan hSlot _ h := by
    obtain ⟨rfl, h⟩ := h
    have hRead : Ends (fun (xs : Array Float) w => w = r.world ∧ xs.size = size)
        (fun w => w = r.world) ((bufferOf S.home).readMany slot.toNat size r.world) := by
      refine .ok ⟨rfl, size_slice (hSlot.toNat_le ?_)⟩
      rw [h.buffer_eq, ← h.room]
      exact h.intact.room
    refine .bind (h.still_agrees hRead) ?_
    rintro xs w ys r' ⟨rfl, hSize, rfl, h'⟩
    have hFits := Nat.le_trans hSpan h'.store_fits
    refine marking_shows _ id (.ok (h'.move_store (size_splice hFits hSize) fun j hj => ?_))
    exact getElem?_splice_outside hFits hSize (.inr (by omega))

/-- A buffer is lent that has enough room: the shared one at depth one, else a new one. -/
theorem Session.acquire_roomy {room : Nat} (hAt : s.instance? m = some i) (hSound : s.Sound)
    (hRoom : room ≤ i.scratch.buffer.size) (depth : Nat) :
    Ends (fun loan s' => s'.Sound ∧ s.Grows s' ∧ room ≤ ((bufferOf m).get ⟨s', loan⟩).size ∧
        (loan = .shared → depth ≤ 1))
      (fun s' => s'.Sound ∧ s.Grows s' ∧ room ≤ ((bufferOf m).get ⟨s', .shared⟩).size)
      (onInstance m (Workshop.onScratch (ScratchRoom.acquire room depth)) s) := by
  have hShared {s' : Session} (hGrows : s.Grows s') :
      room ≤ ((bufferOf m).get ⟨s', .shared⟩).size := by
    obtain ⟨i', hi', hMore⟩ := hGrows.some hAt
    rw [World.buffer_shared rfl hi']
    exact Nat.le_trans hRoom hMore.buffer
  refine .mono (onInstance_keeps hAt (Workshop.keeps_of_making
    (Workshop.onScratch_keeps (ScratchRoom.acquire_keeps room depth _))) hSound) ?_ ?_
  · rintro loan s' ⟨hSound', hGrows, _, -, ⟨rfl, hShallow⟩ | ⟨charged, rfl⟩⟩
    · exact ⟨hSound', hGrows, hShared hGrows, fun _ => hShallow⟩
    · exact ⟨hSound', hGrows, Nat.le_of_eq Array.size_replicate.symm, nofun⟩
  · exact fun s' hEnd => ⟨hEnd.1, hEnd.2, hShared hEnd.2⟩

/-- **The routine gets its buffer**: the shared one if no other evaluation is running on its
instance, else one of its own. -/
theorem Halts.acquire_agrees (h : Halts S r) (hOwn : r.own = .start S.home) {depth : Nat}
    (hDepth : ∀ {i}, r.session.instance? S.home = some i → i.depth = depth) {K : Facts}
    (hFresh : S.exact → ∀ j, ¬ K.slots j) (call : Calls)
    (call' : String → List Float → Act Watch HostValue) :
    Agree (fun _ w _ r' => Shows S K.slots w r') (ShowsFailure S)
      ((machine S.home depth call).acquire S.lim.room r.world)
      (((machine S.home depth fun _ _ => runFailure .hostFailed).watched call').acquire
        S.lim.room r) := by
  obtain ⟨i, hAt, -, hRoom, hPos⟩ := h.instance
  refine marking_shows ((machine S.home depth call).acquire S.lim.room)
    (.acquired S.lim.room)
    (acquire_lends (.mono (acquire_roomy hAt h.sound hRoom depth) ?_ ?_))
  · rintro loan s' ⟨hSound, hGrows, hEnough, hShallow⟩
    have hHome : r.own.home = S.home := by rw [hOwn, Evaluation.start]
    have hIntact : Evaluation.Intact s' (.acquired S.lim.room { r.own with loan := loan }) := by
      refine ⟨?_, fun hNone => nomatch hNone⟩
      show S.lim.room ≤ ((bufferOf r.own.home).get ⟨s', loan⟩).size
      rw [hHome]
      exact hEnough
    have hAfter := h.grows.trans (hGrows.lower S.home 1)
    refine { toHalts := h.after hGrows hSound ?_, place := hHome, lent := fun hShared => ?_
             room := rfl, intact := hIntact
             filled := fun hExact j hj => absurd hj (hFresh hExact j) }
    · rw [h.outer]
      exact S.seen_moment hAfter hIntact h.seen
    · -- the shared buffer is given to an evaluation that runs at depth one
      intro i₀ hi₀
      have hShallow := hShallow hShared
      obtain ⟨j, hj, hMore⟩ := h.grows.some hi₀
      rw [instance?_changeDepth, if_pos rfl, hAt] at hj
      cases hj
      have hLowered : i.depth - 1 = i₀.depth := hMore.depth
      have hHere := hDepth hAt
      omega
  · rintro s' ⟨hSound, hGrows, -⟩
    have hIntact : r.own.Intact s' := by
      rw [hOwn]
      exact ⟨Nat.zero_le _, fun hNone => nomatch hNone⟩
    refine h.after hGrows hSound ?_
    rw [h.outer]
    exact S.seen_moment (h.grows.trans (hGrows.lower S.home 1)) hIntact h.seen

/-! ## Evaluations -/

/-- Giving a buffer back changes the books only. -/
theorem Session.World.close_grows (failed : Bool) {w : World} (hAt : w.session.instance? m = some i)
    (hSound : w.session.Sound) :
    (w.close failed m).Sound ∧ w.session.Grows (w.close failed m) := by
  have hRelease (room : ScratchRoom) : Stays ScratchRoom.course
      (modify (ScratchRoom.release failed w.loan) : Act ScratchRoom PUnit) room := by
    refine .modify (fun _ => trivial) (fun _ => ?_) fun _ => trivial
    show room.scratch.buffer.toList <+: (room.release failed w.loan).scratch.buffer.toList
    rw [room.scratch_release]
  obtain ⟨hSound', hGrows, -⟩ := (onInstance_keeps hAt
    (Workshop.keeps_of_making (Workshop.onScratch_keeps (hRelease _))) hSound).of_ok rfl
  exact ⟨hSound', hGrows⟩

theorem Halts.follows (h : Halts S r) (failed : Bool) (hSeen : ∀ x ∈ seen, x.Good)
    (seen₀ : List Sight) :
    let w : Watch := ⟨(r.world.close failed S.home).changeDepth S.home (· - 1), r.outer, seen⟩
    Attends w ∧ Watch.course.le ⟨S.session, S.outer, seen₀⟩ w := by
  obtain ⟨i, hAt, -⟩ := h.instance
  obtain ⟨hSound, hGrows⟩ := World.close_grows failed (w := r.world) hAt h.sound
  have hAfter := h.grows.trans (hGrows.lower S.home 1)
  refine ⟨⟨hSound.changeDepth S.home (· - 1), fun f hf => ?_, hSeen⟩, hAfter, h.outer⟩
  exact (S.safe f (h.outer ▸ hf)).grows hAfter

/-- **What an evaluation ends with** is what its routine has written. -/
theorem Runs.ended_good (h : Runs S (fun j => j < S.artifact.returns) r)
    (hReturns : S.artifact.returns ≤ S.lim.room)
    (hExact : (∃ i, s.instance? S.home = some i ∧ i.Obeys .any) → S.exact) :
    (Sight.ended S.artifact s r.own
      (slice ((bufferOf S.home).get r.world) 0 S.artifact.returns).toList).Good := by
  have hRoom := h.intact.room
  rw [h.room] at hRoom
  rw [h.buffer_eq]
  refine ⟨?_, fun j x hj hWritten => ?_, fun hStrict j hj => h.filled (hExact hStrict) j hj⟩
  · simp only [slice, Array.length_toList, Array.size_extract]
    omega
  · unfold slice
    rw [Array.getElem?_toList, Array.getElem?_extract, if_pos (by omega), Nat.zero_add]
    exact h.intact.written hWritten

theorem Stage.halts_start (S : Stage) (hSound : S.session.Sound)
    (hSeen : ∀ x ∈ seen, x.Good) :
    Halts S ⟨S.session.changeDepth S.home (· + 1), .start S.home, S.outer, seen⟩ := by
  refine ⟨rfl, hSound.changeDepth _ _, ?_, fun {i} hi => ?_, hSeen⟩
  · exact .of_same (Session.instance?_lowered S.session S.home 1) rfl rfl
  · rw [Session.instance?_changeDepth, if_pos rfl] at hi
    obtain ⟨j, -, rfl⟩ := Option.map_eq_some_iff.mp hi
    exact Nat.succ_pos _

theorem Watch.runRoutine_attended (S : Stage) {seen₀ : List Sight} {K : Facts}
    (hChecked : S.artifact.routine.Checked S.lim K) (hReturns : S.lim.returns = S.artifact.returns)
    (hFresh : S.exact → ∀ j, ¬ K.slots j)
    (hExact : (∃ i, S.session.instance? S.home = some i ∧ i.Obeys .any) → S.exact) {depth : Nat}
    (hDepth : ∀ {i}, S.session.instance? S.home = some i → i.depth + 1 = depth)
    (hCall : CallsAttended S.artifact call call') (args : List Float) :
    Attended (fun _ _ => True)
      (do modify (Session.changeDepth S.home (· + 1))
          followedBy (Session.runRoutine S.artifact depth call args)
            (Session.changeDepth S.home (· - 1)))
      (do modify (changeDepth S.home (· + 1))
          followedBy (runRoutine S.artifact depth call' args) (changeDepth S.home (· - 1)))
      ⟨S.session, S.outer, seen₀⟩ := by
  intro hAttends
  let r : Running := ⟨S.session.changeDepth S.home (· + 1), .start S.home, S.outer, seen₀⟩
  have hHalts : Halts S r := S.halts_start hAttends.sound hAttends.seen
  have hAt {i : Instance} (hi : r.session.instance? S.home = some i) : i.depth = depth := by
    rw [Session.instance?_changeDepth, if_pos rfl] at hi
    obtain ⟨j, hj, rfl⟩ := Option.map_eq_some_iff.mp hi
    exact hDepth hj
  have hRun := Routine.run_agrees (watched_mirrors S depth hCall) hChecked
    (hHalts.acquire_agrees rfl hAt hFresh call call') args (.inl fun h => ⟨h.1, h.2.toHalts⟩)
  refine Shadows.followedBy ?_
  unfold Session.runRoutine runRoutine changeDepth
  dsimp only
  change Agree _ _ (Routine.run _ _ _ (⟨S.session.changeDepth S.home (· + 1), .shared⟩ : World))
    (Routine.run _ _ _ (⟨_, .start S.home, S.outer, seen₀⟩ : Running)) at hRun
  generalize Routine.run _ _ _ (_ : Session.World) = out at hRun ⊢
  generalize Routine.run _ _ _ (_ : Running) = out' at hRun ⊢
  cases hRun with
  | @ok _ world _ r' hDone =>
    obtain ⟨rfl, hRuns⟩ := hDone
    rw [hReturns] at hRuns
    have hGood := hRuns.ended_good (hReturns ▸ hChecked.returns)
      (s := S.session.changeDepth S.home (· + 1)) fun hStrict => hExact ?_
    · have hAfter := hRuns.toHalts.follows false
        (List.forall_mem_cons.mpr ⟨hGood, hRuns.seen⟩) seen₀
      exact .ok ⟨rfl, hAfter.1, hAfter.2, trivial⟩
    · obtain ⟨i, hi, hStrict⟩ := hStrict
      rw [Session.instance?_changeDepth, if_pos rfl] at hi
      obtain ⟨j, hj, rfl⟩ := Option.map_eq_some_iff.mp hi
      exact ⟨j, hj, hStrict⟩
  | @error e world r' hFailed =>
    obtain ⟨rfl, hHalted⟩ := hFailed
    exact .error ⟨rfl, hHalted.follows true hHalted.seen seen₀⟩

end

theorem followedBy_agrees {τ β : Type} {act : Act σ α} {act' : Act τ β} {after : σ → σ}
    {after' : τ → τ} {done : α → σ → β → τ → Prop} {failed : σ → τ → Prop} {s : σ} {t : τ}
    (h : Agree (fun a s' b t' => done a (after s') b (after' t'))
      (fun s' t' => failed (after s') (after' t')) (act s) (act' t)) :
    Agree done failed (followedBy act after s) (followedBy act' after' t) := by
  unfold followedBy
  generalize act s = out at h ⊢
  generalize act' t = out' at h ⊢
  cases h with
  | ok h => exact .ok h
  | error h => exact .error h

/-- **An evaluation** leaves the evaluations around it alone if its host functions do. -/
theorem Watch.evaluateWith_attended {a : Artifact} (hCall : CallsAttended a call call')
    (args : List Float) {w : Watch} (hHoused : w.session.Houses a) :
    Attended (fun _ _ => True) (evaluateWith call a args) (manner.evaluateWith call' a args) w := by
  intro hAttends
  obtain ⟨i, hAt, hSuits⟩ := id hHoused
  have hDepth {j : Instance} (hj : w.session.instance? a.home = some j) :
      j.depth + 1 = ((w.session.changeDepth a.home (· + 1)).workshop a.home).inst.depth := by
    rw [Session.workshop_inst (Session.instance?_raised hj)]
  show Shadows _ _ _ _ ((if args.length ≠ a.args then _ else _ : Act Watch (List Float)) w)
    ((if args.length ≠ a.args then _ else _ : Act Session (List Float)) w.session)
  split
  · exact .error ⟨hAttends, Watch.course.refl w⟩
  -- without templates the routine is followed with all that is known of it
  by_cases hStrict : i.Obeys .any
  · obtain ⟨room, slots, hChecked, hSlots, hRoom⟩ := hSuits.exact .any hStrict
    let S : Stage := ⟨w.session, a, w.active, .strict .any room slots a.returns, True, hHoused,
      ⟨i, hAt, hSlots, hRoom⟩, hAttends.safe, fun _ _ _ hSpan => hSpan⟩
    exact runRoutine_attended S hChecked rfl (fun _ _ hNone => hNone) (fun _ => trivial)
      hDepth hCall _ hAttends
  · obtain ⟨room, slots, hLoose, hSlots, hRoom⟩ := hSuits.loose
    let S : Stage := ⟨w.session, a, w.active, .loose room slots a.returns, False, hHoused,
      ⟨i, hAt, hSlots, hRoom⟩, hAttends.safe, fun hFalse => absurd hFalse id⟩
    refine runRoutine_attended S hLoose rfl (fun hFalse => absurd hFalse id)
      (fun hExact => ?_) hDepth hCall _ hAttends
    obtain ⟨j, hj, hStrict'⟩ := hExact
    cases hAt.symm.trans hj
    exact hStrict hStrict'

/-- **Evaluations nested to any depth** leave the ones around them alone, whatever the host
functions do. -/
theorem Watch.manner_reflects : manner.Reflects .plain (.shadowed session course)
    (fun a w => w.session.Houses a) (fun _ => True) where
  lasts h hHoused := hHoused.grows h.1
  look w := by
    have hLook : Stays Session.course (get : Act Session Session) w.session :=
      fun hOk => .ok ⟨hOk, .refl _, trivial⟩
    exact Attended.lift hLook
  record e w := Attended.lift (Session.record_keeps e w.session)
  chore chore _ _ hHoused :=
    Attended.lift (course_managed.chore chore (course_managed.home hHoused))
  find target _ _ hHoused := Attended.lift (course_managed.find target hHoused)
  tooDeep {_ w} _ := (Pairing.shadowed _ _).throw _ w
  evaluate args _ hCall hHoused := evaluateWith_attended hCall args hHoused

end MolangCompiler
