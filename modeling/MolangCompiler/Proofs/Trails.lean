import MolangCompiler.Proofs.Bookkeeping
import MolangCompiler.Proofs.Images
import MolangCompiler.Proofs.Logged
import MolangCompiler.Proofs.Reached

/-!
# The sessions that a history passes through

A history is a list of moves: commands, and evaluations with host functions of any kind.
`Session.moments` lists all sessions that a history passes through: those between moves, and those
inside evaluations as the log has them.

`Session.Stepwise` says that each operation of a routine and each step of a host function keeps to a
course; then so does an evaluation with all that happens inside it (`Logged.hosted_alongside`), and
then a history does whose commands keep to it (`Session.moments_pairwise`).  Unlike elsewhere
nothing is assumed of the session or of the artifact.
-/

namespace MolangCompiler

/-! ## Logs that keep to a course -/

def LogEntry.session : LogEntry → Session
  | .moment s _ => s
  | .left _ _ after _ _ => after

namespace Logged

variable {c : Course Session} {l l₁ l₂ l₃ : Logged Session}

def sessions {σ : Type} (l : Logged σ) : List Session := (l.seen.map LogEntry.session).reverse

def view {σ : Type} (k : σ → Session) (l : Logged σ) : Logged Session :=
  { l with state := k l.state }

/-- Between two points of a run all sessions lie on a course, from the first point to the second. -/
structure Trail (c : Course Session) (l l' : Logged Session) : Prop where
  le : c.le l.state l'.state
  seen : ∃ new, l'.seen = new ++ l.seen ∧
    (∀ x ∈ new, c.le l.state x.session ∧ c.le x.session l'.state) ∧
    new.Pairwise fun x y => c.le y.session x.session

variable {l' : Logged Session}

theorem Trail.of_le (h : c.le l.state l'.state) (hSeen : l'.seen = l.seen) : l.Trail c l' :=
  ⟨h, [], hSeen, List.forall_mem_nil _, .nil⟩

theorem Trail.refl (l : Logged Session) : l.Trail c l := .of_le (c.refl _) rfl

theorem Trail.trans (h : l₁.Trail c l₂) (h' : l₂.Trail c l₃) : l₁.Trail c l₃ := by
  obtain ⟨hLe, new, hNew, hBetween, hOrder⟩ := h
  obtain ⟨hLe', new', hNew', hBetween', hOrder'⟩ := h'
  refine ⟨c.trans hLe hLe', new' ++ new, by rw [hNew', hNew, List.append_assoc],
    List.forall_mem_append.mpr ⟨fun x hx => ?_, fun x hx => ?_⟩, ?_⟩
  · exact ⟨c.trans hLe (hBetween' x hx).1, (hBetween' x hx).2⟩
  · exact ⟨(hBetween x hx).1, c.trans (hBetween x hx).2 hLe'⟩
  · refine List.pairwise_append.mpr ⟨hOrder', hOrder, fun x hx y hy => ?_⟩
    exact c.trans (hBetween y hy).2 (hBetween' x hx).1

theorem Trail.entry {x : LogEntry} (h : c.le l.state l'.state) (hSeen : l'.seen = x :: l.seen)
    (hNow : x.session = l'.state) : l.Trail c l' := by
  refine ⟨h, [x], hSeen, fun y hy => ?_, List.pairwise_singleton _ _⟩
  rw [List.mem_singleton.mp hy, hNow]
  exact ⟨h, c.refl _⟩

theorem Trail.sessions (h : l.Trail c l') (hEmpty : l.seen = []) :
    (∀ s ∈ l'.sessions, c.le l.state s ∧ c.le s l'.state) ∧ l'.sessions.Pairwise c.le := by
  obtain ⟨-, new, hNew, hBetween, hOrder⟩ := h
  rw [hEmpty, List.append_nil] at hNew
  unfold Logged.sessions
  rw [hNew]
  refine ⟨fun s hs => ?_, List.pairwise_reverse.mpr (List.pairwise_map.mpr hOrder)⟩
  obtain ⟨x, hx, rfl⟩ := List.mem_map.mp (List.mem_reverse.mp hs)
  exact hBetween x hx

/-- All sessions of a run lie on a course. -/
def trailing {σ : Type} (c : Course Session) (k : σ → Session) : Course (Logged σ) where
  ok l := c.ok (k l.state)
  le l l' := (l.view k).Trail c (l'.view k)
  refl _ := .refl _
  trans h h' := h.trans h'

end Logged

/-- An operation with a log, which shows that all sessions lie on a course, and the same operation
without it. -/
abbrev Comparison.alongside {σ : Type} (c : Course Session) (k : σ → Session) :
    Comparison (Logged σ) σ :=
  through Logged.state (Logged.trailing c k)

namespace Logged

open Comparison

variable {c : Course Session} {α : Type}

theorem marking_alongside {act : Act Session.World α}
    (h : (through id (c.on Session.World.session)).Like act act) :
    (alongside c Session.World.session).Like (marking act) act := by
  intro l hOk
  have hEnds := (h l.state hOk).ends
  unfold marking
  generalize act l.state = out at hEnds ⊢
  cases hEnds with
  | ok hDone => exact .ok ⟨hDone.1, .entry hDone.2.1 rfl rfl, trivial⟩
  | error hFailed => exact .error ⟨hFailed.1, .entry hFailed.2 rfl rfl⟩

variable {act : Act Session α}

theorem doing_alongside (makes : Session → Bool) (h : ∀ s, Stays c act s) (l : Logged Session) :
    (Pairing.shadowed state (trailing c id)).rel (fun _ _ => True) (manner.doing makes act)
      (Manner.plain.doing makes act) l := by
  intro hOk
  have hEnds := h l.state hOk
  show Shadows _ _ _ _ (doing makes act l) (act l.state)
  unfold doing
  generalize act l.state = out at hEnds ⊢
  cases hEnds with
  | ok hDone => exact .ok ⟨hDone.1, .entry hDone.2.1 rfl rfl, trivial⟩
  | error hFailed => exact .error ⟨hFailed.1, .entry hFailed.2 rfl rfl⟩

end Logged

/-! ## Evaluations that keep to a course -/

namespace Session

/-- A course that every operation of a routine and every step of a host function keeps to. -/
structure Stepwise (c : Course Session) : Prop where
  setStore (number : Nat) (store : Array Float) {s : Session} : c.ok s →
    c.ok (s.changeInstance number (·.setStore store)) ∧
      c.le s (s.changeInstance number (·.setStore store))
  setBuffer (number : Nat) (buffer : Array Float) {s : Session} : c.ok s →
    c.ok (s.changeInstance number (·.setBuffer buffer)) ∧
      c.le s (s.changeInstance number (·.setBuffer buffer))
  changeDepth (number : Nat) (f : Nat → Nat) {s : Session} : c.ok s →
    c.ok (s.changeDepth number f) ∧ c.le s (s.changeDepth number f)
  scratch {α : Type} (number : Nat) (act : Act ScratchRoom α) (s : Session) :
    Keeps c (fun _ _ => True) (onInstance number (Workshop.onScratch act)) s
  managed : Managed c (fun _ _ => True) (fun _ _ => True)

/-- Every operation keeps to a course that says nothing. -/
theorem Stepwise.any : Stepwise (.any Session) where
  setStore _ _ _ _ := ⟨trivial, trivial⟩
  setBuffer _ _ _ _ := ⟨trivial, trivial⟩
  changeDepth _ _ _ _ := ⟨trivial, trivial⟩
  scratch _ _ _ := Keeps.ran_any.forget
  managed := ⟨id, fun _ => id, fun _ => id, fun _ _ _ _ => Keeps.ran_any.forget,
    fun _ => Keeps.ran_any.forget, fun _ _ => Keeps.ran_any.forget,
    fun _ _ _ _ _ => Keeps.ran_any.forget, fun _ _ _ _ => Keeps.ran_any.forget,
    fun _ _ => Keeps.ran_any.forget, fun _ => Keeps.ran_any.forget⟩

variable {c : Course Session}

namespace Stepwise

variable (S : Stepwise c)
include S

theorem store (m : Nat) : (storeOf m).Kept (storeOf m) id (c.on World.session) :=
  ⟨fun _ _ => rfl, fun xs _ hOk => ⟨rfl, S.setStore m xs hOk⟩⟩

theorem buffer (m : Nat) : (bufferOf m).Kept (bufferOf m) id (c.on World.session) := by
  refine ⟨fun _ _ => rfl, fun xs w hOk => ⟨rfl, ?_⟩⟩
  obtain ⟨s, loan⟩ := w
  cases loan with
  | shared => exact S.setBuffer m xs hOk
  | own buffer charged => exact ⟨hOk, c.refl _⟩

theorem acquire (m depth slots : Nat) (call : Calls) :
    (Comparison.through id (c.on World.session)).Like ((machine m depth call).acquire slots)
      ((machine m depth call).acquire slots) := by
  intro w hOk
  have hEnds := S.scratch m (ScratchRoom.acquire slots depth) w.session hOk
  show Shadows _ _ _ _ (World.lent w.loan (onInstance m _ w.session))
    (World.lent w.loan (onInstance m _ w.session))
  generalize onInstance m _ w.session = out at hEnds ⊢
  cases hEnds with
  | ok hDone => exact .ok hDone
  | error hFailed => exact .error hFailed

theorem close (failed : Bool) (m : Nat) {w : World} (hOk : c.ok w.session) :
    c.ok (w.close failed m) ∧ c.le w.session (w.close failed m) := by
  obtain ⟨hOk', hLe, -⟩ :=
    (S.scratch m (modify (ScratchRoom.release failed w.loan)) w.session hOk).of_ok (a := ⟨⟩) rfl
  exact ⟨hOk', hLe⟩

end Stepwise

end Session

namespace Logged

open Comparison Session

variable {c : Course Session}

theorem bracketed_alongside {α : Type} (home : Nat) {act : Act Session α}
    {act' : Act (Logged Session) α} (h : (alongside c id).Like act' act) :
    (alongside c id).Like (bracketed home act') act := by
  intro l hOk
  have hShadows := h l hOk
  unfold bracketed followedBy
  generalize act l.state = out at hShadows ⊢
  generalize act' l = out' at hShadows ⊢
  have hClose (l' : Logged Session) (hLe : (trailing c id).le l l') :
      (trailing c id).le l { l' with seen := l.left home l' :: l'.seen } :=
    Trail.trans hLe (.entry (c.refl _) rfl rfl)
  cases hShadows with
  | ok hDone => exact .ok ⟨hDone.1, hClose _ hDone.2.1, trivial⟩
  | error hFailed => exact .error ⟨hFailed.1, hClose _ hFailed.2⟩
  | excused h => exact h.elim

variable (S : Stepwise c)
include S

section

variable {call : Session.Calls}
  {call' : String → List Float → Act (Logged Session) HostValue}
  (hCall : ∀ f args, (alongside c id).Like (call' f args) (call f args))
include hCall

theorem machine_alongside (m depth : Nat)
    (blind : Session.Calls) :
    ((Session.machine m depth blind).logged call').Compared (alongside c Session.World.session)
      (Session.machine m depth call) where
  readVariable slot := marking_alongside ((S.store m).read slot)
  writeVariable slot x := marking_alongside ((S.store m).write slot x)
  readVariables offset size := marking_alongside ((S.store m).readMany offset size)
  writeVariables offset size xs := marking_alongside ((S.store m).writeMany offset size xs)
  call f args := shadowing_onPart (fun _ hOk => ⟨rfl, hOk⟩)
    (fun _ _ _ hOk hTrail => ⟨rfl, hOk, hTrail⟩) (hCall f args)
  acquire slots := marking_alongside (S.acquire m depth slots blind)
  writeSlot slot x := marking_alongside ((S.buffer m).write slot x)
  readSlots slot size := marking_alongside ((S.buffer m).readMany slot size)
  writeSlots slot size xs := marking_alongside ((S.buffer m).writeMany slot size xs)

theorem runRoutine_alongside (a : Artifact) (depth : Nat) (args : List Float) :
    (alongside c id).Like (runRoutine a depth call' args)
      (Session.runRoutine a depth call args) := by
  intro l hOk
  have hMachine := machine_alongside S hCall a.home depth fun _ _ => runFailure .hostFailed
  have hRun :=
    Routine.run_compared hMachine a.routine args { l with state := ⟨l.state, .shared⟩ } hOk
  unfold Session.runRoutine runRoutine
  dsimp only at hRun ⊢
  generalize a.routine.run _ args (⟨l.state, .shared⟩ : World) = out at hRun ⊢
  generalize a.routine.run _ args { l with state := (⟨l.state, .shared⟩ : World) } = out' at hRun ⊢
  cases hRun with
  | ok hDone =>
    obtain ⟨hOk', hTrail, -⟩ := hDone
    obtain ⟨hClosed, hLe⟩ := S.close false a.home hOk'
    exact .ok ⟨hClosed, .trans hTrail (.of_le hLe rfl), trivial⟩
  | error hFailed =>
    obtain ⟨hOk', hTrail⟩ := hFailed
    obtain ⟨hClosed, hLe⟩ := S.close true a.home hOk'
    exact .error ⟨hClosed, .trans hTrail (.of_le hLe rfl)⟩
  | excused h => exact h.elim

theorem evaluateWith_alongside (a : Artifact) (args : List Float) :
    (alongside c id).Like (manner.evaluateWith call' a args)
      (Manner.plain.evaluateWith call a args) := by
  refine bracketed_alongside a.home ?_
  show (alongside c id).Like _ (if args.length ≠ a.args then _ else _)
  split
  · exact (alongside c id).throw _
  · refine .bind (shadowing_modify fun l hOk => ?_) fun _ => shadowing_get fun l _ =>
      shadowing_followedBy (runRoutine_alongside S hCall a _ _) fun l hOk => ?_
    · obtain ⟨hRaised, hUp⟩ := S.changeDepth a.home (· + 1) hOk
      exact ⟨rfl, hRaised, .entry hUp rfl rfl⟩
    · obtain ⟨hLowered, hDown⟩ := S.changeDepth a.home (· - 1) hOk
      exact ⟨rfl, hLowered, .of_le hDown rfl⟩

end

/-- **Evaluations with a log** do what they do without it, and all sessions inside them lie on the
course. -/
theorem manner_reflects :
    manner.Reflects .plain (.shadowed state (trailing c id)) (fun _ _ => True) (fun _ => True)
    where
  lasts _ _ := trivial
  look := doing_alongside _ fun _ hOk => .ok ⟨hOk, c.refl _, trivial⟩
  record e := doing_alongside _ (S.managed.record e)
  chore chore _ l _ := doing_alongside _ (fun _ => S.managed.chore chore trivial) l
  find target _ l _ := doing_alongside _ (fun _ => S.managed.find target trivial) l
  tooDeep {_ l} _ := bracketed_alongside _ ((alongside c id).throw _) l
  evaluate args l hCall _ :=
    evaluateWith_alongside S (fun f xs _ => hCall f xs trivial) _ args l

theorem hosted_alongside (host : Host) (limit : Nat) (a : Artifact) (args : List Float) :
    (alongside c id).Like (hosted host limit a args) (Session.hosted host limit a args) :=
  fun _ => (manner_reflects S).hosted host limit a args trivial

end Logged

/-! ## Histories -/

/-- Something that is done with a session at rest. -/
inductive Move where
  | command (host : Host) (who : String) (command : Command)
  | evaluation (host : Host) (limit : Nat) (artifact : Artifact) (args : List Float)

namespace Session

def after (s : Session) : Move → Session
  | .command host who command => (report host who command s).2
  | .evaluation host limit a args => (outcome (hosted host limit a args) s).2

def during (s : Session) : Move → List Session
  | .command .. => []
  | .evaluation host limit a args =>
    (Outcome.state (Logged.hosted host limit a args ⟨s, [], 0, [], []⟩)).sessions

/-- All sessions that a history passes through, in the order of time. -/
def moments (s : Session) : List Move → List Session
  | [] => [s]
  | move :: rest => s :: (s.during move ++ (s.after move).moments rest)

/-- Every command of a history is as `p` says in the session in which it is given. -/
def EachCommand (p : Command → Session → Prop) (s : Session) : List Move → Prop
  | [] => True
  | move :: rest =>
    (∀ host who command, move = .command host who command → p command s) ∧
    (s.after move).EachCommand p rest

variable {p : Command → Session → Prop}

theorem EachCommand.imp {q : Command → Session → Prop} (h : ∀ command s, p command s → q command s)
    {moves : List Move} : ∀ {s : Session}, s.EachCommand p moves → s.EachCommand q moves := by
  induction moves with
  | nil => exact fun hs => hs
  | cons move rest ih =>
    exact fun hs => ⟨fun host who command hMove => h command _ (hs.1 host who command hMove),
      ih hs.2⟩

theorem EachCommand.of_forall (h : ∀ command s, p command s) {moves : List Move} :
    ∀ {s : Session}, s.EachCommand p moves := by
  induction moves with
  | nil => exact trivial
  | cons move rest ih => exact ⟨fun _ _ command _ => h command _, ih⟩

variable {c : Course Session}

/-- An evaluation keeps to the course, whatever its host functions do. -/
theorem Stepwise.hosted_keeps (S : Stepwise c) (host : Host) (limit : Nat) (a : Artifact)
    (args : List Float) (s : Session) : Stays c (hosted host limit a args) s := by
  intro hOk
  refine Ends.mono (Logged.hosted_alongside S host limit a args ⟨s, [], 0, [], []⟩ hOk).agree.ends
    ?_ ?_
  · rintro xs s' ⟨ys, l, -, rfl, hOk', hTrail, -⟩
    exact ⟨hOk', hTrail.le, trivial⟩
  · rintro s' ⟨l, rfl, hOk', hTrail⟩
    exact ⟨hOk', hTrail.le⟩

theorem Stepwise.evaluation (S : Stepwise c) (host : Host) (limit : Nat) (a : Artifact)
    (args : List Float) {s : Session} (hOk : c.ok s) :
    c.ok (s.after (.evaluation host limit a args)) ∧
    (Outcome.state (Logged.hosted host limit a args ⟨s, [], 0, [], []⟩)).state =
      s.after (.evaluation host limit a args) ∧
    Logged.Trail c ⟨s, [], 0, [], []⟩
      (Outcome.state (Logged.hosted host limit a args ⟨s, [], 0, [], []⟩)) := by
  have hShadows := Logged.hosted_alongside S host limit a args ⟨s, [], 0, [], []⟩ hOk
  have hAfter : s.after (.evaluation host limit a args) =
      Outcome.state (hosted host limit a args s) := by
    show (outcome (hosted host limit a args) s).2 = _
    unfold outcome
    cases hosted host limit a args s with
    | ok | error => rfl
  rw [hAfter]
  generalize hosted host limit a args s = out at hShadows ⊢
  generalize Logged.hosted host limit a args ⟨s, [], 0, [], []⟩ = out' at hShadows ⊢
  cases hShadows with
  | ok hDone => exact ⟨hDone.1, rfl, hDone.2.1⟩
  | error hFailed => exact ⟨hFailed.1, rfl, hFailed.2⟩
  | excused h => exact h.elim

/-- **A history** lies on a course if single operations and its commands keep to it. -/
theorem moments_pairwise (S : Stepwise c) (hCommand : ∀ host who command s, p command s →
      c.ok s → c.ok (report host who command s).2 ∧ c.le s (report host who command s).2)
    (moves : List Move) :
    ∀ {s : Session}, c.ok s → s.EachCommand p moves →
      (∀ t ∈ s.moments moves, c.le s t) ∧ (s.moments moves).Pairwise c.le := by
  induction moves with
  | nil =>
    intro s _ _
    refine ⟨fun t ht => ?_, List.pairwise_singleton _ _⟩
    rw [List.mem_singleton.mp ht]
    exact c.refl s
  | cons move rest ih =>
    intro s hOk hEach
    have hInside : c.ok (s.after move) ∧ c.le s (s.after move) ∧
        (∀ t ∈ s.during move, c.le s t ∧ c.le t (s.after move)) ∧
        (s.during move).Pairwise c.le := by
      cases move with
      | command host who command =>
        obtain ⟨hOk', hLe⟩ := hCommand host who command s (hEach.1 host who command rfl) hOk
        exact ⟨hOk', hLe, List.forall_mem_nil _, .nil⟩
      | evaluation host limit a args =>
        obtain ⟨hOk', hState, hTrail⟩ := S.evaluation host limit a args hOk
        have hLe := hTrail.le
        obtain ⟨hBetween, hOrder⟩ := hTrail.sessions rfl
        rw [hState] at hLe hBetween
        exact ⟨hOk', hLe, hBetween, hOrder⟩
    obtain ⟨hOk', hLe, hBetween, hOrder⟩ := hInside
    obtain ⟨hLater, hRest⟩ := ih hOk' hEach.2
    have hAll : ∀ t ∈ s.during move ++ (s.after move).moments rest, c.le s t :=
      List.forall_mem_append.mpr ⟨fun t ht => (hBetween t ht).1,
        fun t ht => c.trans hLe (hLater t ht)⟩
    refine ⟨List.forall_mem_cons.mpr ⟨c.refl _, hAll⟩,
      List.pairwise_cons.mpr ⟨hAll, List.pairwise_append.mpr ⟨hOrder, hRest, ?_⟩⟩⟩
    exact fun t ht u hu => c.trans (hBetween t ht).2 (hLater u hu)

end Session

end MolangCompiler
