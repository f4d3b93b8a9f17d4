import MolangCompiler.Proofs.Paired
import MolangCompiler.Proofs.Shared

/-!
# Evaluations do not see old numbers

The shared buffer is never cleared, and it may be longer than a routine needs; a buffer of its own
has the right length and holds zeros.  A routine without templates cannot tell the difference, since
it reads only slots that it has written.  Nor does it see how deep it is nested.

Two sessions are alike (`Session.Alike`) if they differ only in the depth and the scratch space of
one instance, in the bytes in use and owed, and in the notes.  If host functions cannot tell such
sessions apart while an evaluation is running (`Session.BlindCalls`), then neither can evaluations;
and so host functions may themselves evaluate the running artifact, where there is no budget.
-/

namespace MolangCompiler

open ScratchRoom

/-! ## Alike -/

/-- The budget, and whose error it is to exceed it. -/
def Books.terms (b : Books) : Option (Option Int × Bool) :=
  b.ledger.map fun l => (l.budget, l.byHost)

theorem Books.terms_enter (bytes : Int) (b : Books) : (b.enter bytes).terms = b.terms := by
  unfold terms enter
  cases hLedger : b.ledger with
  | none => rw [hLedger]
  | some l => rfl

theorem Books.refusal?_of_terms {b c : Books} (h : c.terms = b.terms)
    (hNone : b.ledger.bind (·.budget) = none) (bytes : Int) :
    c.ledger.bind (·.refusal? bytes) = none := by
  unfold terms at h
  cases hLedger : c.ledger with
  | none => rfl
  | some l =>
    rw [hLedger] at h
    obtain ⟨l', hLedger', hSame⟩ := Option.map_eq_some_iff.mp h.symm
    rw [hLedger'] at hNone
    have hBudget : l.budget = none := (Prod.mk.inj hSame).1.symm.trans hNone
    show l.refusal? bytes = none
    unfold Ledger.refusal?
    rw [hBudget]

/-- An instance without its depth and its scratch space. -/
def Instance.bare (i : Instance) : Instance :=
  { i with scratch := (default : Instance).scratch, depth := 0 }

/-- What is left of a session without the depth and the scratch space of one instance, the bytes in
use and owed, and the notes. -/
structure Aspect where
  terms : Option (Option Int × Bool)
  instances : Nat → Option Instance
  names : List (String × Nat)
  next : Nat
  artifacts : List (Option Artifact)
  events : List HostEvent

namespace Session

/-- What can be seen of a session. -/
def aspect (number : Nat) (s : Session) : Aspect where
  terms := s.books.terms
  instances n := (s.instance? n).map fun i => if n = number then i.bare else i
  names := s.names
  next := s.nextInstance
  artifacts := s.artifacts
  events := s.events

/-- Sessions that differ at most in the depth and the scratch space of the instance with a number,
in the bytes in use and owed, and in the notes. -/
def Alike (number : Nat) (s t : Session) : Prop := t.aspect number = s.aspect number

variable {m : Nat} {s s' t t' : Session} {i : Instance}

theorem instances_aspect (m : Nat) (s : Session) :
    (s.aspect m).instances m = (s.instance? m).map Instance.bare := by
  show (s.instance? m).map (fun i => if m = m then i.bare else i) = _
  rw [funext fun i => if_pos rfl]

theorem aspect_changeInstance {f g : Instance → Instance} (h : ∀ i, (f i).bare = g i.bare)
    (s : Session) : (s.changeInstance m f).aspect m = { s.aspect m with
      instances := fun n => if n = m then ((s.aspect m).instances m).map g
        else (s.aspect m).instances n } := by
  unfold aspect
  congr 1
  funext n
  rw [instance?_changeInstance]
  by_cases hSame : n = m
  · rw [if_pos hSame, if_pos hSame]
    simp only [hSame, if_true, Option.map_map, Function.comp_def, h]
  · rw [if_neg hSame, if_neg hSame]

theorem alike_changeInstance (s : Session) (g : Instance → Instance)
    (h : ∀ i, (g i).bare = i.bare) : s.Alike m (s.changeInstance m g) := by
  have hInstances : (fun n => if n = m then ((s.aspect m).instances m).map id
      else (s.aspect m).instances n) = (s.aspect m).instances := by
    funext n
    by_cases hSame : n = m
    · rw [if_pos hSame, Option.map_id, hSame]
      rfl
    · exact if_neg hSame
  unfold Alike
  rw [aspect_changeInstance (g := id) h, hInstances]

theorem alike_changeDepth (m : Nat) (g : Nat → Nat) (s : Session) : s.Alike m (s.changeDepth m g) :=
  alike_changeInstance s _ fun _ => rfl

theorem Alike.here (h : s.Alike m t) (hAt : s.instance? m = some i) :
    ∃ j, t.instance? m = some j ∧ j.bare = i.bare := by
  have hSame : (t.aspect m).instances m = (s.aspect m).instances m := by rw [h]
  rw [instances_aspect, instances_aspect, hAt] at hSame
  exact Option.map_eq_some_iff.mp hSame

theorem Alike.space_eq (h : s.Alike m t) :
    (t.workshop m).inst.space = (s.workshop m).inst.space := by
  have hSame : ((t.aspect m).instances m).map Instance.space =
      ((s.aspect m).instances m).map Instance.space := by rw [h]
  rw [instances_aspect, instances_aspect, Option.map_map, Option.map_map] at hSame
  have hSpace (u : Session) : (u.workshop m).inst.space =
      ((u.instance? m).map (Instance.space ∘ Instance.bare)).getD (default : Instance).space := by
    show ((u.instance? m).getD default).space = _
    cases u.instance? m with
    | none | some => rfl
  rw [hSpace, hSpace, hSame]

theorem Alike.setStore (h : s.Alike m t) (xs : Array Float) :
    (s.changeInstance m (·.setStore xs)).Alike m (t.changeInstance m (·.setStore xs)) := by
  unfold Alike at h ⊢
  rw [aspect_changeInstance (g := (·.setStore xs)) fun _ => rfl,
    aspect_changeInstance (g := (·.setStore xs)) fun _ => rfl, h]

/-- Only the books were changed, and not the budget. -/
structure Rebooked (m : Nat) (s s' : Session) : Prop where
  alike : s.Alike m s'
  terms : s'.books.terms = s.books.terms
  instances (n : Nat) : s'.instance? n = s.instance? n
  artifacts : s'.artifacts = s.artifacts

theorem rebooked_setBooks {b : Books} (h : b.terms = (s.workshop m).books.terms) :
    s.Rebooked m (s.setWorkshop m { s.workshop m with books := b }) := by
  have hInstances := instance?_setBooks s m (b := b)
  have hTerms : (s.setWorkshop m { s.workshop m with books := b }).books.terms = s.books.terms := by
    rw [books_setWorkshop]
    cases hOwner : (s.workshop m).inst.owner with
    | none => rfl
    | some account =>
      refine h.trans (congrArg Books.terms ?_)
      show booksFor (s.workshop m).inst s.books = s.books
      unfold booksFor
      rw [hOwner]
  refine ⟨?_, hTerms, hInstances, rfl⟩
  unfold Alike aspect
  rw [hTerms]
  congr 1
  funext n
  rw [hInstances]

/-! ## Sessions of which one is deeper -/

/-- Two alike sessions in which the instance of an artifact is at the given depths.  The first one
is sound and can run the artifact, which calls no templates, and has the terms of the given books.
-/
structure Veiled (a : Artifact) (books : Books) (depth depth' : Nat) (s t : Session) : Prop where
  alike : s.Alike a.home t
  sound : s.Sound
  housed : s.Houses a
  terms : s.books.terms = books.terms
  here : ∃ i, s.instance? a.home = some i ∧ i.Obeys .any ∧ i.depth = depth
  there : ∃ j, t.instance? a.home = some j ∧ j.depth = depth'

namespace Veiled

variable {a : Artifact} {books : Books} {depth depth' : Nat} (h : Veiled a books depth depth' s t)
include h

theorem rebooked (hs : s.Rebooked a.home s') (ht : t.Rebooked a.home t') :
    Veiled a books depth depth' s' t' where
  alike := (ht.alike.trans h.alike).trans hs.alike.symm
  sound := {
    spaces := fun hi => h.sound.spaces ((hs.instances _).symm.trans hi)
    artifacts := fun hMem => by
      unfold Houses
      rw [hs.instances]
      exact h.sound.artifacts (hs.artifacts ▸ hMem) }
  housed := by
    unfold Houses
    rw [hs.instances]
    exact h.housed
  terms := hs.terms.trans h.terms
  here := by
    rw [hs.instances]
    exact h.here
  there := by
    rw [ht.instances]
    exact h.there

theorem changeDepth (g : Nat → Nat) : Veiled a books (g depth) (g depth')
    (s.changeDepth a.home g) (t.changeDepth a.home g) where
  alike := ((alike_changeDepth a.home g t).trans h.alike).trans (alike_changeDepth a.home g s).symm
  sound := h.sound.changeDepth a.home g
  housed := houses_changeDepth.mpr h.housed
  terms := h.terms
  here := by
    obtain ⟨i, hAt, hObeys, rfl⟩ := h.here
    exact ⟨_, instance?_changed hAt _, hObeys, rfl⟩
  there := by
    obtain ⟨j, hj, rfl⟩ := h.there
    exact ⟨_, instance?_changed hj _, rfl⟩

end Veiled

/-! ## One routine on two buffers -/

/-- The routine of an artifact runs in two alike sessions, in the second one on a buffer of its own;
the buffers agree on the slots in `W`. -/
structure Blind (a : Artifact) (books : Books) (depth depth' room slots : Nat) (W : Nat → Prop)
    (w w' : World) : Prop where
  veiled : Veiled a books (depth + 1) depth' w.session w'.session
  reaches : ∃ i, w.session.instance? a.home = some i ∧ slots ≤ i.space.cursor
  fits : room ≤ ((bufferOf a.home).get w).size
  own : ∃ buffer charged, w'.loan = .own buffer charged ∧ buffer.size = room
  same : SameOn (fun j => j < room ∧ W j) ((bufferOf a.home).get w) ((bufferOf a.home).get w')

variable {a : Artifact} {books : Books} {depth depth' room slots : Nat}

namespace Blind

variable {W W' : Nat → Prop} {w w' : World}

theorem weaken (hLe : ∀ j, W' j → W j) (h : Blind a books depth depth' room slots W w w') :
    Blind a books depth depth' room slots W' w w' :=
  { h with same := h.same.mono fun j hj => ⟨hj.1, hLe j hj.2⟩ }

section

variable (h : Blind a books depth depth' room slots W w w')
include h

theorem store_eq : (storeOf a.home).get w' = (storeOf a.home).get w :=
  congrArg Namespace.store h.veiled.alike.space_eq

theorem slots_le_store : slots ≤ ((storeOf a.home).get w).size := by
  obtain ⟨i, hAt, hSlots⟩ := h.reaches
  exact World.store_fits hAt h.veiled.sound hSlots

theorem size_own : ((bufferOf a.home).get w').size = room := by
  obtain ⟨buffer, charged, hLoan, hSize⟩ := h.own
  rw [World.buffer_own hLoan]
  exact hSize

/-- Something is done in both sessions that leaves them alike and the numbers in the first buffer
alone. -/
theorem after (hVeiled : Veiled a books (depth + 1) depth' s t) (hGrows : w.session.Grows s) :
    Blind a books depth depth' room slots W ⟨s, w.loan⟩ ⟨t, w'.loan⟩ := by
  obtain ⟨i, hAt, -, hDepth⟩ := h.veiled.here
  obtain ⟨i₁, hAt₁, hSlots⟩ := h.reaches
  cases hAt.symm.trans hAt₁
  obtain ⟨i', hAt', hMore⟩ := hGrows.some hAt
  obtain ⟨buffer, charged, hLoan, hSize⟩ := h.own
  obtain ⟨hLonger, hKept⟩ := World.buffer_grows hAt (hDepth ▸ Nat.succ_pos depth) hGrows
  have hOwn : (bufferOf a.home).get ⟨t, w'.loan⟩ = (bufferOf a.home).get w' :=
    (World.buffer_own (w := ⟨t, w'.loan⟩) hLoan).trans (World.buffer_own hLoan).symm
  exact { veiled := hVeiled
          reaches := ⟨i', hAt', Nat.le_trans hSlots hMore.space.cursor⟩
          fits := Nat.le_trans h.fits hLonger
          own := ⟨buffer, charged, hLoan, hSize⟩
          same := fun j hj => by
            rw [hKept j (Nat.lt_of_lt_of_le hj.1 h.fits), hOwn]
            exact h.same j hj }

theorem putStore {xs : Array Float} (hx : ChangedBelow slots ((storeOf a.home).get w) xs) :
    Blind a books depth depth' room slots W ((storeOf a.home).put xs w)
      ((storeOf a.home).put xs w') := by
  obtain ⟨i, hAt, hSlots⟩ := h.reaches
  rw [World.store_eq hAt] at hx
  have hGrows := grows_setStore hAt hx.size
  refine h.after { alike := h.veiled.alike.setStore xs
                   sound := h.veiled.sound.setStore hAt hx.size fun j hj =>
                     hx.above j (Nat.le_trans hSlots hj)
                   housed := h.veiled.housed.grows hGrows
                   terms := h.veiled.terms
                   here := ?_
                   there := ?_ } hGrows
  · obtain ⟨i, hi, hHere⟩ := h.veiled.here
    exact ⟨_, instance?_changed hi _, hHere⟩
  · obtain ⟨j, hj, hThere⟩ := h.veiled.there
    exact ⟨_, instance?_changed hj _, hThere⟩

theorem putBuffer {xs ys : Array Float}
    (hx : xs.size = ((bufferOf a.home).get w).size) (hy : ys.size = ((bufferOf a.home).get w').size)
    (hSame : SameOn (fun j => j < room ∧ W' j) xs ys) :
    Blind a books depth depth' room slots W' ((bufferOf a.home).put xs w)
      ((bufferOf a.home).put ys w') := by
  obtain ⟨buffer, charged, hOwn, -⟩ := h.own
  have hRoom := h.fits
  rw [← hx] at hRoom
  rw [h.size_own] at hy
  rw [World.put_own hOwn]
  cases hLoan : w.loan with
  | own buffer' charged' =>
    rw [World.put_own hLoan]
    exact ⟨h.veiled, h.reaches, hRoom, ⟨ys, charged, rfl, hy⟩, hSame⟩
  | shared =>
    obtain ⟨i, hAt, hObeys, hDepth⟩ := h.veiled.here
    obtain ⟨i₁, hAt₁, hSlots⟩ := h.reaches
    cases hAt.symm.trans hAt₁
    obtain ⟨i₂, hAt₂, hSuits⟩ := h.veiled.housed
    cases hAt.symm.trans hAt₂
    rw [World.buffer_shared hLoan hAt] at hx
    have hAt' := instance?_changed hAt (·.setBuffer xs)
    have hAlike : w.session.Alike a.home (w.session.changeInstance a.home (·.setBuffer xs)) :=
      alike_changeInstance _ _ fun _ => rfl
    have hGet : (bufferOf a.home).get
        ⟨w.session.changeInstance a.home (·.setBuffer xs), .shared⟩ = xs :=
      World.buffer_shared (i := i.setBuffer xs) rfl hAt'
    rw [World.put_shared hLoan]
    exact { veiled := { alike := h.veiled.alike.trans hAlike.symm
                        sound := h.veiled.sound.setBuffer hAt (Nat.le_of_eq hx.symm)
                        housed := ⟨_, hAt', hSuits.mono (Nat.le_refl _) (Nat.le_of_eq hx.symm) rfl⟩
                        terms := h.veiled.terms
                        here := ⟨_, hAt', hObeys, hDepth⟩
                        there := h.veiled.there }
            reaches := ⟨_, hAt', hSlots⟩
            fits := by
              rw [hGet]
              exact hRoom
            own := ⟨ys, charged, rfl, hy⟩
            same := by
              rw [hGet]
              exact hSame }

end

/-- **Alike sessions have paired arrays.** -/
theorem paired (a : Artifact) (books : Books) (depth depth' room slots : Nat) :
    Slots.Paired (storeOf a.home) (bufferOf a.home) (storeOf a.home) (bufferOf a.home) room slots
      (Blind a books depth depth' room slots) where
  weaken := weaken
  stored h := ⟨h.slots_le_store, h.store_eq ▸ h.slots_le_store⟩
  stores h _ _ := by rw [h.store_eq]
  roomy h := ⟨h.fits, Nat.le_of_eq h.size_own.symm⟩
  buffers h := h.same
  putStore {W w w'} h {xs ys} hx hy hSame := by
    rw [h.store_eq] at hy
    have hAll : ys = xs := by
      refine Array.ext_getElem? fun j => ?_
      by_cases hj : j < slots
      · exact (hSame j hj).symm
      · rw [hy.above j (Nat.le_of_not_lt hj), hx.above j (Nat.le_of_not_lt hj)]
    rw [hAll]
    exact h.putStore hx
  putBuffer {_ _ _ _} h {_ _} hx hy hSame := h.putBuffer hx.size hy.size hSame

end Blind

/-- Calls of host functions, by the routine of an artifact on books with certain terms, that cannot
tell alike sessions apart and leave alike sessions behind. -/
def BlindCalls (a : Artifact) (books : Books) (call : Calls) : Prop :=
  ∀ (f : String) (xs : List Float) {depth depth' : Nat} {s t : Session},
    Veiled a books (depth + 1) (depth' + 1) s t →
    Agree (fun v s' u t' => u = v ∧ Veiled a books (depth + 1) (depth' + 1) s' t')
      (Veiled a books (depth + 1) (depth' + 1)) (call f xs s) (call f xs t)

def SoundCalls (a : Artifact) (call : Calls) : Prop :=
  ∀ (f : String) (xs : List Float) {s : Session}, s.Houses a →
    Keeps course (fun _ _ => True) (call f xs) s

variable {call : Calls}

/-- **The machines of alike sessions mirror each other** if the host functions are blind. -/
theorem blind_mirrors {returns : Nat} (hBlind : BlindCalls a books call)
    (hSound : SoundCalls a call)
    (d d' : Nat) : (machine a.home d call).Mirrors (machine a.home d' call)
      (.strict .any room slots returns) (Blind a books depth (depth' + 1) room slots)
      (fun w w' => Veiled a books (depth + 1) (depth' + 1) w.session w'.session) := by
  refine Machine.ofSlots_mirrors (Blind.paired a books depth (depth' + 1) room slots) .any returns
    Blind.veiled _ _ ?_
  intro f xs W w w' h
  have hBoth := (hBlind f xs h.veiled).and_ends (hSound f xs h.veiled.housed h.veiled.sound)
  unfold onPart
  generalize call f xs w.session = out at hBoth ⊢
  generalize call f xs w'.session = out' at hBoth ⊢
  cases hBoth with
  | ok hDone =>
    obtain ⟨⟨hSame, hVeiled⟩, -, hGrows, -⟩ := hDone
    exact .ok ⟨hSame, h.after hVeiled hGrows⟩
  | error hFailed => exact .error hFailed.1

/-! ## Buffers that are lent -/

/-- The buffer that an evaluation gets at a depth. -/
def lent (room depth : Nat) : Loan :=
  if depth ≤ 1 then .shared else .own (Array.replicate room 0) (bufferBytes room)

/-- Giving a buffer back is seen in the books only. -/
theorem World.rebooked_close (failed : Bool) (w : World) (m : Nat) :
    w.session.Rebooked m (w.close failed m) := by
  rw [close_eq]
  refine rebooked_setBooks ?_
  cases w.loan with
  | shared => rfl
  | own buffer charged =>
    dsimp only [release]
    split
    · rfl
    · exact Books.terms_enter _ _

/-- The books of an instance do not refuse a buffer for the routine of an artifact. -/
def Grants (s : Session) (a : Artifact) : Prop :=
  ∀ (room : Nat) (rest : List Step), a.routine.body = .act (.acquire room) :: rest →
    (s.workshop a.home).books.ledger.bind (·.refusal? (bufferBytes room)) = none

/-- **An evaluation gets its buffer** if the books do not refuse it. -/
theorem onInstance_acquire (room depth : Nat) (hGranted : 1 < depth →
      (s.workshop m).books.ledger.bind (·.refusal? (bufferBytes room)) = none) :
    ∃ s', s.Rebooked m s' ∧
      onInstance m (Workshop.onScratch (acquire room depth)) s = .ok (lent room depth) s' := by
  by_cases hDepth : depth ≤ 1
  · refine ⟨_, rebooked_setBooks rfl, onPart_of_ok ?_⟩
    unfold lent Workshop.onScratch onPart
    rw [acquire_shallow hDepth, if_pos hDepth]
    rfl
  · have hCharge : charge (bufferBytes room) ⟨(s.workshop m).books, (s.workshop m).inst.scratch⟩ =
        .ok () ⟨(s.workshop m).books.enter (bufferBytes room), (s.workshop m).inst.scratch⟩ := by
      refine onPart_of_ok ?_
      unfold Books.charge
      rw [hGranted (Nat.lt_of_not_le hDepth)]
    refine ⟨_, rebooked_setBooks (Books.terms_enter (bufferBytes room) _), onPart_of_ok ?_⟩
    unfold lent Workshop.onScratch onPart
    rw [acquire_deep (Nat.lt_of_not_le hDepth), if_neg hDepth, bind_of_ok hCharge]
    rfl

/-- The routine gets a buffer in one session and a buffer of its own in the other. -/
theorem acquire_blind (hDepth : 1 < depth') (hVeiled : Veiled a books (depth + 1) depth' s t)
    (hAt : s.instance? a.home = some i) (hSlots : slots ≤ i.space.cursor)
    (hRoom : room ≤ i.scratch.buffer.size)
    (hGranted : 1 < depth + 1 →
      (s.workshop a.home).books.ledger.bind (·.refusal? (bufferBytes room)) = none)
    (hGranted' : (t.workshop a.home).books.ledger.bind (·.refusal? (bufferBytes room)) = none)
    (call : Calls) :
    Agree (fun _ w _ w' => Blind a books depth depth' room slots (fun _ => False) w w')
      (fun w w' => Veiled a books (depth + 1) depth' w.session w'.session)
      ((machine a.home (depth + 1) call).acquire room ⟨s, .shared⟩)
      ((machine a.home depth' call).acquire room ⟨t, .shared⟩) := by
  obtain ⟨s', hs, hAcquire⟩ := onInstance_acquire room (depth + 1) hGranted
  obtain ⟨t', ht, hAcquire'⟩ := onInstance_acquire room depth' fun _ => hGranted'
  have hAt' := (hs.instances a.home).trans hAt
  unfold machine Machine.ofSlots
  dsimp only
  rw [hAcquire, hAcquire']
  exact .ok { veiled := hVeiled.rebooked hs ht
              reaches := ⟨i, hAt', hSlots⟩
              fits := by
                unfold lent
                split
                · rw [World.buffer_shared rfl hAt']
                  exact hRoom
                · exact Nat.le_of_eq Array.size_replicate.symm
              own := ⟨_, _, if_neg (Nat.not_le_of_lt hDepth), Array.size_replicate⟩
              same := fun _ hj => absurd hj.2 id }

/-! ## Evaluations in alike sessions -/

theorem books_changeDepth (s : Session) (m : Nat) (g : Nat → Nat) :
    ((s.changeDepth m g).workshop m).books = (s.workshop m).books := by
  unfold workshop
  rw [instance?_changeDepth, if_pos rfl]
  cases s.instance? m with
  | none | some => rfl

theorem Grants.raised {rest : List Step} (h : s.Grants a)
    (hBody : a.routine.body = .act (.acquire room) :: rest) :
    ((s.changeDepth a.home (· + 1)).workshop a.home).books.ledger.bind
      (·.refusal? (bufferBytes room)) = none := by
  rw [books_changeDepth]
  exact h room rest hBody

theorem runRoutine_blind {args : List Float} {d d' : Nat} (hReturns : a.returns ≤ room)
    (h : Agree
      (fun _ w _ w' => Blind a books depth depth' room slots (fun j => j < a.returns) w w')
      (fun w w' => Veiled a books (depth + 1) depth' w.session w'.session)
      (a.routine.run (machine a.home d call) args ⟨s, .shared⟩)
      (a.routine.run (machine a.home d' call) args ⟨t, .shared⟩)) :
    Agree (fun xs s' ys t' => ys = xs ∧ Veiled a books (depth + 1) depth' s' t')
      (Veiled a books (depth + 1) depth')
      (runRoutine a d call args s) (runRoutine a d' call args t) := by
  have hClosed (failed : Bool) {w w' : World}
      (hVeiled : Veiled a books (depth + 1) depth' w.session w'.session) :
      Veiled a books (depth + 1) depth' (w.close failed a.home) (w'.close failed a.home) :=
    hVeiled.rebooked (w.rebooked_close failed a.home) (w'.rebooked_close failed a.home)
  unfold runRoutine
  generalize a.routine.run _ args (⟨s, .shared⟩ : World) = out at h ⊢
  generalize a.routine.run _ args (⟨t, .shared⟩ : World) = out' at h ⊢
  cases h with
  | error hVeiled => exact .error (hClosed true hVeiled)
  | @ok _ w _ w' hBlind =>
    have hValues : slice ((bufferOf a.home).get w) 0 (0 + a.returns) =
        slice ((bufferOf a.home).get w') 0 (0 + a.returns) := by
      refine hBlind.same.slice (fun j _ hj => ?_) ?_ ?_
      · exact ⟨by omega, by omega⟩
      · have := hBlind.fits
        omega
      · have := hBlind.size_own
        omega
    rw [Nat.zero_add] at hValues
    exact .ok ⟨congrArg Array.toList hValues.symm, hClosed false hBlind.veiled⟩

/-- **Evaluations in alike sessions lead to the same**: at depth one on the shared buffer, whatever
it holds, and deeper down on a buffer of zeros. -/
theorem evaluateWith_blind (hBlind : BlindCalls a books call) (hCalls : SoundCalls a call)
    (hVeiled : Veiled a books depth (depth' + 1) s t) (hGrants : 0 < depth → s.Grants a)
    (hGrants' : t.Grants a) (args : List Float) :
    Agree (fun xs s' ys t' => ys = xs ∧ Veiled a books depth (depth' + 1) s' t')
      (Veiled a books depth (depth' + 1)) (evaluateWith call a args s)
      (evaluateWith call a args t) := by
  by_cases hArgs : args.length = a.args
  · obtain ⟨i, hAt, hObeys, hDepth⟩ := hVeiled.here
    obtain ⟨j, hj, hDepth'⟩ := hVeiled.there
    obtain ⟨i', hi', hSuits⟩ := hVeiled.housed
    cases hAt.symm.trans hi'
    obtain ⟨room, slots, hChecked, hSlots, hRoom⟩ := hSuits.exact .any hObeys
    obtain ⟨rest, hBody, -⟩ := hChecked.body
    have hAcquire := acquire_blind (Nat.succ_lt_succ (Nat.succ_pos depth'))
      (hVeiled.changeDepth (· + 1)) (instance?_raised hAt) hSlots hRoom
      (fun hDeep => (hGrants (Nat.lt_of_succ_lt_succ hDeep)).raised hBody)
      (hGrants'.raised hBody) call
    have hRun := Routine.run_agrees (blind_mirrors hBlind hCalls _ _) hChecked hAcquire
      (args.map single) (.inl Blind.veiled)
    rw [evaluateWith_of_length hArgs, evaluateWith_of_length hArgs,
      workshop_inst (instance?_raised hAt), workshop_inst (instance?_raised hj), hDepth, hDepth']
    refine followedBy_agrees (.mono (runRoutine_blind hChecked.returns hRun) ?_ ?_)
    · exact fun _ _ _ _ hDone => ⟨hDone.1, hDone.2.changeDepth (· - 1)⟩
    · exact fun _ _ hFailed => hFailed.changeDepth (· - 1)
  · rw [evaluateWith_of_length_ne hArgs, evaluateWith_of_length_ne hArgs]
    exact .error hVeiled

/-- Calls keep a session sound, whatever the host functions do. -/
theorem callDeed_sound (host : Host) (limit : Nat) (a : Artifact) :
    SoundCalls a (callDeed host (hosted host limit) a) := by
  intro f xs s hHoused hSound
  have hCall := Watch.manner_reflects.callDeed
    (fun a args _ => Watch.manner_reflects.hosted host limit a args) host f xs (s := ⟨s, [], []⟩)
    hHoused (.start hSound)
  refine .mono hCall.agree.ends ?_ ?_
  · rintro v s' ⟨u, w, -, rfl, hAttends, hLe, -⟩
    exact ⟨hAttends.sound, hLe.1, trivial⟩
  · rintro s' ⟨w, rfl, hAttends, hLe⟩
    exact ⟨hAttends.sound, hLe.1⟩

theorem grants_of_terms (h : s.books.terms = books.terms)
    (hNone : books.ledger.bind (·.budget) = none) (a : Artifact) : s.Grants a := by
  intro room rest _
  show (booksFor ((s.instance? a.home).getD default) s.books).ledger.bind _ = none
  unfold booksFor
  split
  · rfl
  · exact Books.refusal?_of_terms h hNone _

end Session

/-! ## Host functions that are blind -/

/-- A program that looks at a session without telling alike sessions apart, and that evaluates the
running artifact where there is no budget. -/
def Deed.Blind (books : Books) (number : Nat) : Deed → Prop
  | .give _ | .fail _ => True
  | .look next =>
    (∀ s t, Session.Alike number s t → next s = next t) ∧ ∀ s, (next s).Blind books number
  | .evaluate .running _ next =>
    books.ledger.bind (·.budget) = none ∧ ∀ r, (next r).Blind books number
  | .work .. | .evaluate .. => False

open Session

variable {a : Artifact} {books : Books} {depth depth' : Nat} {s t : Session}

private theorem attempt_agrees {α : Type} {R : Session → Session → Prop} {x y : Act Session α}
    (h : Agree (fun a s' b t' => b = a ∧ R s' t') R (x s) (y t)) :
    Agree (fun a s' b t' => b = a ∧ R s' t') R (attempt x s) (attempt y t) := by
  unfold attempt
  generalize x s = out at h ⊢
  generalize y t = out' at h ⊢
  cases h with
  | ok h => exact .ok ⟨congrArg _ h.1, h.2⟩
  | error h => exact .ok ⟨rfl, h⟩

theorem Deed.Blind.perform_agrees {evaluate : Evaluator}
    (hEvaluate : ∀ args {s t}, Veiled a books (depth + 1) (depth' + 1) s t →
      s.Grants a → t.Grants a →
      Agree (fun xs s' ys t' => ys = xs ∧ Veiled a books (depth + 1) (depth' + 1) s' t')
        (Veiled a books (depth + 1) (depth' + 1)) (evaluate a args s) (evaluate a args t))
    {deed : Deed} (h : deed.Blind books a.home)
    (hVeiled : Veiled a books (depth + 1) (depth' + 1) s t) :
    Agree (fun v s' u t' => u = v ∧ Veiled a books (depth + 1) (depth' + 1) s' t')
      (Veiled a books (depth + 1) (depth' + 1))
      (deed.perform .plain evaluate a s) (deed.perform .plain evaluate a t) := by
  induction deed generalizing s t with
  | give value => exact .ok ⟨rfl, hVeiled⟩
  | fail failure => exact .error hVeiled
  | look next ih =>
    show Agree _ _ ((next s).perform .plain evaluate a s) ((next t).perform .plain evaluate a t)
    rw [h.1 s t hVeiled.alike]
    exact ih t (h.2 t) hVeiled
  | work => exact absurd h id
  | evaluate target args next ih =>
    cases target with
    | kept | fresh => exact absurd h id
    | running =>
      have hBoth := hEvaluate args hVeiled (grants_of_terms hVeiled.terms h.1 a)
        (grants_of_terms ((congrArg Aspect.terms hVeiled.alike).trans hVeiled.terms) h.1 a)
      refine .bind (attempt_agrees hBoth) ?_
      rintro _ s' r t' ⟨rfl, hVeiled'⟩
      exact ih r (h.2 r) hVeiled'

/-- **Host functions that look, and evaluate the running artifact,** are blind if they see no
difference between alike sessions. -/
theorem Session.blindCalls_of_deeds {host : Host}
    (h : ∀ f xs, (host a.home f xs).Blind books a.home)
    (limit : Nat) : BlindCalls a books (callDeed host (hosted host limit) a) := by
  intro f xs depth depth' s t hVeiled
  have hAlike := congrArg (fun x => ({ x with
    events := x.events ++ [.called a.home f xs] } : Aspect)) hVeiled.alike
  have hRecorded : Veiled a books (depth + 1) (depth' + 1)
      { s with events := s.events ++ [.called a.home f xs] }
      { t with events := t.events ++ [.called a.home f xs] } :=
    { hVeiled with
      alike := hAlike
      sound := ⟨hVeiled.sound.spaces, hVeiled.sound.artifacts⟩ }
  refine Deed.Blind.perform_agrees (fun args {s t} hVeiled hGrants hGrants' => ?_)
    (h f xs) hRecorded
  cases limit with
  | zero => exact .error hVeiled
  | succ limit =>
    exact evaluateWith_blind (blindCalls_of_deeds h limit) (callDeed_sound host limit a) hVeiled
      (fun _ => hGrants) hGrants' args

/-- **An evaluation sees neither leftovers nor its depth.**  An artifact is compiled on an instance
without templates.  Later it is evaluated at depth one, on a shared buffer that may be longer and
hold anything, with any values of the variables; and it is evaluated inside another evaluation, in a
session that is alike, on a buffer of zeros that the books do not refuse.  If the host functions
cannot tell alike sessions apart, both evaluations return the same values or fail in the same way,
and leave alike sessions behind: with the same values of all variables and the same record of calls.
-/
theorem evaluation_ignores_scratch_and_depth {s₀ s₁ s t : Session} (hReached : s₀.Reached)
    {number : Nat} {i₀ : Instance} (hAt : s₀.instance? number = some i₀)
    (hTemplateless : i₀.Templateless) {r : Request} {a : Artifact}
    (hCompile : onInstance number (Workshop.compile number r) s₀ = .ok a s₁) (hGrows : s₁.Grows s)
    (hSound : s.Sound) (hAlike : s.Alike number t)
    (hBusy : ∀ {j}, t.instance? number = some j → 0 < j.depth) (hGrants : t.Grants a) {host : Host}
    {limit : Nat} (hBlind : BlindCalls a s.books (callDeed host (hosted host limit) a))
    (args : List Float) :
    Agree (fun xs s' ys t' => ys = xs ∧ s'.Alike number t') (Alike number)
      (hosted host (limit + 1) a args s) (hosted host (limit + 1) a args t) := by
  have hRest := hReached.atRest
  obtain ⟨-, hGrows₁, hHoused⟩ := (compile_keeps hAt r).of_ok hRest.sound hCompile
  obtain ⟨-, -, w, -, p, w₁, d, hCompiled⟩ := (onInstance_keeps hAt
    (Workshop.keeps_of_making (Workshop.compile_keeps number r _))).of_ok hRest.sound hCompile
  obtain ⟨i, hi, hMore⟩ := (hGrows₁.trans hGrows).some hAt
  have hObeys : i.Obeys .any := by
    unfold Instance.Obeys
    rw [hMore.queries]
    exact hTemplateless.obeys
  have hHome : a.home = number := hCompiled.home
  subst hHome
  obtain ⟨j, hj, -⟩ := hAlike.here hi
  obtain ⟨depth, hDepth⟩ := Nat.exists_eq_succ_of_ne_zero (Nat.ne_of_gt (hBusy hj))
  have hVeiled : Veiled a s.books 0 (depth + 1) s t :=
    ⟨hAlike, hSound, hHoused.grows hGrows, rfl,
      ⟨i, hi, hObeys, hMore.depth.trans (hRest.idle hAt)⟩, ⟨j, hj, hDepth⟩⟩
  refine .mono (evaluateWith_blind hBlind (callDeed_sound host limit a) hVeiled
    (fun hPos => absurd hPos (Nat.lt_irrefl 0)) hGrants args) ?_ ?_
  · exact fun _ _ _ _ hDone => ⟨hDone.1, hDone.2.alike⟩
  · exact fun _ _ hFailed => hFailed.alike

/-- A session with one instance, which has a host function. -/
def lookingSession : Session :=
  (Session.start none).obeyAll .mute "a"
    [.create "a" ⟨some [("q.f", .host "f" 1 1)], false, [], false, false⟩]

/-- A variable is set and copied through the buffer, and returned or not. -/
def copiedVector : Request :=
  ⟨"v.x = [q.f(c.a), 2]; v.y = v.x; return c.a ? v.y : [q.f(3), 4];", ["a"], []⟩

/-- A host function that evaluates the running artifact, and adds what it returns and the value of
the first variable. -/
def addingVariable : Host := fun number _ args =>
  .evaluate .running args fun r => .look fun s =>
    .give (.number ((r.toOption.getD args).headD 0 +
      ((s.workshop number).inst.space.store[0]?).getD 0))

private theorem addingVariable_blind {books : Books} (hNone : books.ledger.bind (·.budget) = none)
    (number : Nat) (f : String) (xs : List Float) :
    (addingVariable number f xs).Blind books number := by
  refine ⟨hNone, fun r => ⟨fun s t hAlike => ?_, fun _ => trivial⟩⟩
  dsimp only
  rw [hAlike.space_eq]

theorem Session.grows_setBuffer {m : Nat} {i : Instance} (hAt : s.instance? m = some i)
    (hIdle : i.depth = 0) {xs : Array Float} (hSize : i.scratch.buffer.size ≤ xs.size) :
    s.Grows (s.changeInstance m (·.setBuffer xs)) := by
  have hGrows : i.Grows (i.setBuffer xs) :=
    ⟨.refl _, hSize, fun hDepth => absurd hIdle (Nat.ne_of_gt hDepth), rfl, rfl⟩
  exact .of_change hAt hGrows (instance?_change hAt _) rfl rfl

/-- The copied vector on a buffer full of sevens, and at depth two. -/
theorem sevens_are_not_seen :
    lookingSession.Reached ∧ ∃ a s₁ s t,
      onInstance 0 (Workshop.compile 0 copiedVector) lookingSession = .ok a s₁ ∧
      s = s₁.changeInstance 0 (·.setBuffer (Array.replicate 9 7)) ∧
      t = s₁.changeDepth 0 (· + 1) ∧
      (outcome (hosted addingVariable 3 a [1]) s).1.toOption.map (·.length) = some 2 ∧
      Agree (fun xs s' ys t' => ys = xs ∧ s'.Alike 0 t') (Alike 0)
        (hosted addingVariable 3 a [1] s) (hosted addingVariable 3 a [1] t) := by
  have hReached : lookingSession.Reached := reached_obeyAll "a" _ _
  have hAt : lookingSession.instance? 0 =
      some (Instance.fresh [("q.f", .host "f" 1 1)] [] false) := rfl
  have hTemplateless : (Instance.fresh [("q.f", .host "f" 1 1)] [] false).Templateless := by
    intro q hq arity report tree
    obtain ⟨key, hMem⟩ := Query.mem_table hq
    rw [(Prod.mk.inj (List.mem_singleton.mp hMem)).2]
    exact nofun
  have hChecks : Outcome.passes (fun a s₁ => s₁.books.ledger.isNone &&
      (s₁.instance? 0).all (·.scratch.buffer.size ≤ 9) &&
      ((outcome (hosted addingVariable 3 a [1])
        (s₁.changeInstance 0 (·.setBuffer (Array.replicate 9 7)))).1.toOption.map (·.length))
        == some 2)
      (onInstance 0 (Workshop.compile 0 copiedVector) lookingSession) = true := by decide +kernel
  obtain ⟨a, s₁, hCompile, hChecks⟩ := Outcome.of_passes hChecks
  simp only [Bool.and_eq_true, beq_iff_eq] at hChecks
  obtain ⟨⟨hLedger, hSmall⟩, hLength⟩ := hChecks
  have hRest := hReached.atRest
  obtain ⟨hSound₁, hGrows₁, -⟩ := (compile_keeps hAt copiedVector).of_ok hRest.sound hCompile
  obtain ⟨i₁, hAt₁, hMore⟩ := hGrows₁.some hAt
  rw [hAt₁] at hSmall
  have hSize : i₁.scratch.buffer.size ≤ (Array.replicate 9 (7 : Float)).size :=
    Nat.le_trans (of_decide_eq_true hSmall) (Nat.le_of_eq Array.size_replicate.symm)
  have hStale : s₁.Alike 0 (s₁.changeInstance 0 (·.setBuffer (Array.replicate 9 7))) :=
    alike_changeInstance s₁ _ fun _ => rfl
  have hNone : s₁.books.ledger.bind (·.budget) = none := by
    rw [Option.isNone_iff_eq_none.mp hLedger]
    rfl
  have hBlind : BlindCalls a s₁.books (callDeed addingVariable (hosted addingVariable 2) a) :=
    blindCalls_of_deeds (addingVariable_blind hNone a.home) 2
  refine ⟨hReached, a, s₁, _, _, hCompile, rfl, rfl, hLength, ?_⟩
  refine evaluation_ignores_scratch_and_depth hReached hAt hTemplateless hCompile
    (grows_setBuffer hAt₁ hMore.depth hSize) (hSound₁.setBuffer hAt₁ hSize)
    ((alike_changeDepth 0 (· + 1) s₁).trans hStale.symm) (fun {j} hj => ?_)
    (grants_of_terms (s := s₁.changeDepth 0 (· + 1)) rfl hNone a) hBlind [1]
  rw [instance?_changeDepth, if_pos rfl, hAt₁] at hj
  cases hj
  exact Nat.succ_pos _

end MolangCompiler
