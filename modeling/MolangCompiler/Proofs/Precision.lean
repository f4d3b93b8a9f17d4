import MolangCompiler.Proofs.Glimpses
import MolangCompiler.Proofs.Reached

/-!
# Evaluations in single precision

The routine of an artifact and all evaluations that its host functions start are run with one
notebook (`Noted.hosted`), and all numbers in it are of single precision, given that the session
stores no others; and that is kept by all commands (`Session.Reached.rounded`).  Such a number is
read back as it was from wherever a routine may put it (`Session.Lasting`).
-/

namespace MolangCompiler

open Session

/-! ## Slots -/

/-- An array inside a state holds numbers of single precision, and may be replaced by any other that
does. -/
structure Slots.Rounded {σ : Type} (k : Slots σ) (Q : σ → Prop) : Prop where
  get : ∀ {s}, Q s → AllSingle (k.get s)
  put : ∀ {s xs}, Q s → AllSingle xs → Q (k.put xs s)

namespace Slots.Rounded

variable {σ : Type} {k : Slots σ} {Q : σ → Prop}

theorem read (h : k.Rounded Q) (slot : Nat) {s : σ} (hs : Q s) :
    Ends (fun x s' => IsSingle x ∧ Q s') Q (k.read slot s) := by
  unfold Slots.read
  cases hAt : (k.get s)[slot]? with
  | none => exact .error hs
  | some x => exact .ok ⟨h.get hs x (Array.mem_of_getElem? hAt), hs⟩

theorem write (h : k.Rounded Q) (slot : Nat) (x : Float) : Preserves Q (k.write slot x) := by
  intro s hs
  unfold Slots.write
  cases hSet : setSlot? (k.get s) slot x with
  | none => exact .error hs
  | some xs => exact .ok (h.put hs ((h.get hs).setSlot? hSet))

theorem readMany (h : k.Rounded Q) (slot size : Nat) {s : σ} (hs : Q s) :
    Ends (fun xs s' => AllSingle xs ∧ Q s') Q (k.readMany slot size s) :=
  .ok ⟨(h.get hs).extract _ _, hs⟩

theorem writeMany (h : k.Rounded Q) (slot size : Nat) {xs : Array Float} (hxs : AllSingle xs) :
    Preserves Q (k.writeMany slot size xs) :=
  fun _ hs => .ok (h.put hs ((h.get hs).splice hxs _ _))

end Slots.Rounded

namespace Session

/-- All numbers that a routine can reach are of single precision. -/
structure World.Rounded (w : World) : Prop where
  session : w.session.Rounded
  loan : w.loan.Rounded

theorem storeOf_rounded (k : Nat) : (storeOf k).Rounded World.Rounded where
  get h := (h.session.workshop k).space
  put h hxs := ⟨h.session.changeInstance k fun _ hi => ⟨hxs, hi.buffer⟩, h.loan⟩

theorem bufferOf_rounded (k : Nat) : (bufferOf k).Rounded World.Rounded where
  get {w} h := by
    cases w with
    | mk s loan =>
      cases loan with
      | shared => exact (h.session.workshop k).buffer
      | own buffer charged => exact h.loan
  put {w xs} h hxs := by
    cases w with
    | mk s loan =>
      cases loan with
      | shared => exact ⟨h.session.changeInstance k fun _ hi => ⟨hi.space, hxs⟩, trivial⟩
      | own buffer charged => exact ⟨h.session, hxs⟩

theorem acquire_rounded (k depth slots : Nat) (call : Calls) :
    Preserves World.Rounded ((machine k depth call).acquire slots) := by
  intro w hw
  have hAcquire : Ends (fun (loan : Loan) (w' : Workshop) => loan.Rounded ∧ w'.Rounded)
      Workshop.Rounded
      (Workshop.onScratch (ScratchRoom.acquire slots depth) (w.session.workshop k)) := by
    have hShop := hw.session.workshop k
    refine onPart_ends (.mono (ScratchRoom.acquire_rounded slots depth _ hShop.buffer) ?_ ?_)
    · exact fun loan r h => ⟨h.1, hShop.space, h.2⟩
    · exact fun r h => ⟨hShop.space, h⟩
  have hInstance : Ends (fun (loan : Loan) (s' : Session) => loan.Rounded ∧ s'.Rounded) Rounded
      (onInstance k (Workshop.onScratch (ScratchRoom.acquire slots depth)) w.session) := by
    refine onPart_ends (.mono hAcquire ?_ ?_)
    · exact fun loan w' h => ⟨h.1, hw.session.setWorkshop k h.2⟩
    · exact fun w' h => hw.session.setWorkshop k h
  exact acquire_lends (.mono hInstance (fun _ _ h => ⟨h.2, h.1⟩) fun _ h => ⟨h, hw.loan⟩)

theorem World.Rounded.close {w : World} (h : w.Rounded) (failed : Bool) (k : Nat) :
    (w.close failed k).Rounded := by
  have hRelease : Preserves ScratchRoom.Rounded
      (modify (ScratchRoom.release failed w.loan) : Act ScratchRoom Unit) :=
    .modify fun r hr => ScratchRoom.release_rounded failed w.loan hr
  exact (onInstance_preserves k (Workshop.onScratch_preserves hRelease) _ h.session).of_ok rfl

end Session

/-! ## Evaluations with a notebook -/

namespace Noted

/-- A host function reaches the session of a routine, and the notebook. -/
def onSession {α : Type} (act : Act (Noted Session) α) : Act (Noted Session.World) α :=
  onPart (fun n => ⟨n.state.session, n.seen⟩)
    (fun n' n => ⟨{ n.state with session := n'.state }, n'.seen⟩) act

def runRoutine (a : Artifact) (depth : Nat)
    (call : String → List Float → Act (Noted Session) HostValue) (args : List Float) :
    Act (Noted Session) (List Float) := fun n =>
  let m := Session.machine a.home depth fun _ _ => runFailure .hostFailed
  match a.routine.runSeen (m.noted fun function args => onSession (call function args)) args
      ⟨⟨n.state, .shared⟩, n.seen⟩ with
  | .ok () n' =>
    .ok (slice ((Session.bufferOf a.home).get n'.state) 0 a.returns).toList
      ⟨n'.state.close false a.home, n'.seen⟩
  | .error e n' => .error e ⟨n'.state.close true a.home, n'.seen⟩

def changeDepth (number : Nat) (f : Nat → Nat) (n : Noted Session) : Noted Session :=
  { n with state := n.state.changeDepth number f }

/-- Evaluations with a notebook. -/
def manner : Manner (Noted Session) where
  session := state
  doing _ act := lift act
  enter number := changeDepth number (· + 1)
  leave number := changeDepth number (· - 1)
  run := runRoutine
  bracketed _ act := act

/-- An evaluation with a notebook. -/
abbrev hosted := manner.hosted

/-! ## Evaluations compute in single precision -/

theorem onSession_noting {α : Type} {V : α → Prop} {x : Act Session α} {y : Act (Noted Session) α}
    (h : Noting Rounded V x y) :
    Noting World.Rounded V
      (onPart World.session (fun s w => { w with session := s }) x) (onSession y) := by
  refine Comparison.shadowing_onPart (fun n hn => ?_) (fun n' n hn hn' _ => ?_) h
  · exact ⟨rfl, hn.state.session, hn.seen⟩
  · exact ⟨rfl, ⟨⟨hn'.state, hn.state.loan⟩, hn'.seen⟩, trivial⟩

section

variable {call : Calls}
  {call' : String → List Float → Act (Noted Session) HostValue}
  (hCall : ∀ function args,
    Noting Rounded (fun _ => True) (call function args) (call' function args))
include hCall

/-- **The machine of a session** computes in single precision if its host functions keep all stored
numbers so; what they return may be any number. -/
theorem machine_notes (k depth : Nat) (blind : Calls) :
    (machine k depth call).Notes ((machine k depth blind).noted
      fun function args => onSession (call' function args)) World.Rounded where
  readVariable slot := .lift fun _ hw => (storeOf_rounded k).read slot hw
  writeVariable slot x := .of_preserves ((storeOf_rounded k).write slot x)
  readVariables offset size :=
    .lift fun _ hw => (storeOf_rounded k).readMany offset size hw
  writeVariables offset size _ hxs :=
    .of_preserves ((storeOf_rounded k).writeMany offset size hxs)
  call function args := onSession_noting (hCall function args)
  acquire slots := .of_preserves (acquire_rounded k depth slots _)
  writeSlot slot x := .of_preserves ((bufferOf_rounded k).write slot x)
  readSlots slot size := .lift fun _ hw => (bufferOf_rounded k).readMany slot size hw
  writeSlots slot size _ hxs :=
    .of_preserves ((bufferOf_rounded k).writeMany slot size hxs)

theorem runRoutine_noting (a : Artifact) (depth : Nat) {args : List Float}
    (hArgs : ∀ x ∈ args, IsSingle x) :
    Noting Session.Rounded (fun xs => ∀ x ∈ xs, IsSingle x) (Session.runRoutine a depth call args)
      (runRoutine a depth call' args) := by
  intro n hn
  have hShadows := a.routine.runSeen_noting
    (machine_notes hCall a.home depth fun _ _ => runFailure .hostFailed) hArgs
    ⟨⟨n.state, .shared⟩, n.seen⟩ ⟨⟨hn.state, trivial⟩, hn.seen⟩
  unfold Session.runRoutine runRoutine
  dsimp only at hShadows ⊢
  generalize a.routine.run _ args (⟨n.state, .shared⟩ : Session.World) = out at hShadows ⊢
  generalize a.routine.runSeen _ args (⟨⟨n.state, .shared⟩, n.seen⟩ : Noted Session.World) =
    out' at hShadows ⊢
  cases hShadows with
  | ok hDone =>
    obtain ⟨hGood, -, -⟩ := hDone
    refine .ok ⟨⟨hGood.state.close false a.home, hGood.seen⟩, trivial, fun x hx => ?_⟩
    have hBuffer := (Session.bufferOf_rounded a.home).get hGood.state
    exact hBuffer.extract 0 a.returns x (Array.mem_toList_iff.mp hx)
  | error hFailed => exact .error ⟨⟨hFailed.1.state.close true a.home, hFailed.1.seen⟩, trivial⟩
  | excused h => exact h.elim

theorem evaluateWith_noting (a : Artifact) (args : List Float) :
    Noting Session.Rounded (fun xs => ∀ x ∈ xs, IsSingle x)
      (evaluateWith call a args) (manner.evaluateWith call' a args) := by
  have hArgs : ∀ x ∈ args.map single, IsSingle x := by
    intro x hx
    obtain ⟨y, -, rfl⟩ := List.mem_map.mp hx
    exact isSingle_single y
  show Noting _ _ (if args.length ≠ a.args then _ else _) (if args.length ≠ a.args then _ else _)
  split
  · exact .throw _
  · intro n hn
    have hRaised : Good Session.Rounded (changeDepth a.home (· + 1) n) :=
      ⟨hn.state.changeDepth a.home _, hn.seen⟩
    exact Noting.followedBy (runRoutine_noting hCall a _ hArgs)
      (fun s hs => hs.changeDepth a.home (· - 1)) _ hRaised

end

/-- **An evaluation with a notebook**, with evaluations nested to any depth inside it. -/
theorem manner_reflects : manner.Reflects .plain
    (.shadowed state (.holding (Good Session.Rounded))) (fun _ _ => True)
      (fun xs => ∀ x ∈ xs, IsSingle x) where
  lasts _ _ := trivial
  look := by
    have hLook : Preserves Session.Rounded (get : Act Session Session) := fun _ hs => .ok hs
    exact Noting.of_preserves hLook
  record e := Noting.of_preserves (Session.record_preserves e)
  chore chore _ n _ :=
    Noting.of_preserves (.of_keeps fun _ => rounded_managed.chore chore trivial) n
  find target _ n _ :=
    Noting.of_preserves (.of_keeps fun _ => rounded_managed.find target trivial) n
  tooDeep {_ n} _ := (Pairing.shadowed _ _).throw _ n
  evaluate args n hCall _ :=
    evaluateWith_noting (fun f xs _ => hCall f xs trivial) _ args n

theorem hosted_noting (host : Host) (limit : Nat) (a : Artifact) (args : List Float) :
    Noting Session.Rounded (fun xs => ∀ x ∈ xs, IsSingle x)
      (Session.hosted host limit a args) (hosted host limit a args) :=
  fun _ => manner_reflects.hosted host limit a args trivial

end Noted

namespace Session

theorem hosted_preserves (host : Host) (limit : Nat) (a : Artifact) (args : List Float) :
    Preserves Rounded (hosted host limit a args) := by
  intro s hs
  refine Ends.mono (Noted.hosted_noting host limit a args ⟨s, []⟩
    ⟨hs, List.forall_mem_nil _⟩).agree.ends ?_ ?_
  · rintro xs s' ⟨ys, n, -, rfl, hGood, -⟩
    exact hGood.state
  · rintro s' ⟨n, rfl, hGood, -⟩
    exact hGood.state

/-- **Every session that commands lead to** stores numbers of single precision only. -/
theorem Leads.rounded {s s' : Session} (h : Leads s s') (hs : s.Rounded) : s'.Rounded := by
  induction h with
  | refl => exact hs
  | command host name command _ ih =>
    exact outcome_of_ends (obeyVia_preserves (hosted_preserves host nestingLimit) command _ ih)
  | evaluation host limit a args _ _ ih =>
    exact outcome_of_ends (hosted_preserves host limit a args _ ih)

theorem Reached.rounded {s : Session} (h : s.Reached) : s.Rounded := by
  obtain ⟨ledger, hLeads⟩ := h
  exact hLeads.rounded (rounded_start ledger)

end Session

/-! ## Numbers that last -/

namespace Slots

variable {σ : Type} {k : Slots σ}

/-- What is put into an array that is there is read back. -/
def Stays (k : Slots σ) : Prop := ∀ s xs, 0 < (k.get s).size → k.get (k.put xs s) = xs

theorem write_eq_ok {slot : Nat} {x : Float} {s s' : σ} (hStays : k.Stays) (hx : IsSingle x)
    (h : k.write slot x s = .ok () s') : (k.get s')[slot]? = some x := by
  unfold write at h
  split at h
  · rename_i xs hSet
    cases h
    have hSlot : slot < (k.get s).size := by
      unfold setSlot? at hSet
      split at hSet
      · assumption
      · cases hSet
    rw [hStays s xs (Nat.zero_lt_of_lt hSlot)]
    exact hx.read_back hSet
  · cases h

end Slots

namespace Session

/-- An array that an instance holds is read back as it was put there; an instance that is not there
holds none. -/
theorem array_changeInstance (part : Instance → Array Float) {s : Session} {k : Nat}
    {f : Instance → Instance} {xs : Array Float} (hPut : ∀ i, part (f i) = xs)
    (hNone : part default = #[]) (hSize : 0 < (part (s.workshop k).inst).size) :
    part ((s.changeInstance k f).workshop k).inst = xs := by
  cases hAt : s.instance? k with
  | some i =>
    rw [workshop_inst (instance?_changed hAt f)]
    exact hPut i
  | none =>
    have hDefault : (s.workshop k).inst = default := by
      show (s.instance? k).getD default = default
      rw [hAt]
      rfl
    rw [hDefault, hNone] at hSize
    exact absurd hSize (Nat.lt_irrefl 0)

theorem storeOf_stays (k : Nat) : (storeOf k).Stays := fun _ _ hSize =>
  array_changeInstance (fun i => i.space.store) (fun _ => rfl) rfl hSize

theorem bufferOf_stays (k : Nat) : (bufferOf k).Stays := by
  rintro ⟨s, loan⟩ xs hSize
  cases loan with
  | own buffer charged => rfl
  | shared => exact array_changeInstance (fun i => i.scratch.buffer) (fun _ => rfl) rfl hSize

/-- A number that is read back as it was, wherever a routine puts it: into a variable, into a slot
of its buffer, or into a local. -/
structure Lasting (x : Float) : Prop where
  single : MolangCompiler.single x = x
  stored : ∀ number depth call slot w w',
    (machine number depth call).writeVariable slot x w = .ok () w' →
      (machine number depth call).readVariable slot w' = .ok x w'
  written : ∀ number depth call slot w w',
    (machine number depth call).writeSlot slot x w = .ok () w' →
      (machine number depth call).readSlots slot 1 w' = .ok #[x] w'
  held : ∀ index (a : Activation World), ∃ a',
    setLocal index x a = .ok () a' ∧ readLocal index a' = .ok x a'

/-- **A number of single precision lasts.** -/
theorem lasting_of_isSingle {x : Float} (h : IsSingle x) : Lasting x where
  single := h
  stored k depth call slot w w' hWrite := by
    have hAt := Slots.write_eq_ok (storeOf_stays k) h hWrite
    show (storeOf k).read slot w' = .ok x w'
    unfold Slots.read
    rw [hAt]
  written k depth call slot w w' hWrite := by
    have hAt := Slots.write_eq_ok (bufferOf_stays k) h hWrite
    obtain ⟨hSlot, hx⟩ := Array.getElem?_eq_some_iff.mp hAt
    show EStateM.Result.ok (slice ((bufferOf k).get w') slot (slot + 1)) w' = _
    have hSlice : slice ((bufferOf k).get w') slot (slot + 1) = #[x] := by
      unfold slice
      rw [Array.extract_succ_right (Nat.lt_succ_self slot) hSlot, hx,
        Array.extract_empty_of_stop_le_start (Nat.le_refl slot)]
      rfl
    rw [hSlice]
  held index a := by
    refine ⟨_, rfl, ?_⟩
    unfold readLocal
    rw [get_bind]
    dsimp only
    rw [if_pos rfl]
    rfl

end Session

/-- **Single precision everywhere.**  A well-formed tree is written and read back as a routine.
Whenever an artifact with this routine is evaluated, in a session that commands lead to, with any
arguments and with host functions that do whatever they like: with a notebook the result and the
session are the same, and every number in it lasts, that is the value of every expression, and every
local at the beginning and after every action.  So do the values with which the evaluation ends.
This holds of the evaluations inside it as well, and up to the point of failure if it fails. -/
theorem evaluations_compute_in_single_precision {e : Expr} {args temps slots : Nat}
    (hWF : e.Compilable ⟨args, temps, slots⟩) (name : String) {s : Session} (hReached : s.Reached) :
    ∃ draft routine,
      Routine.write name e args temps (Routine.draft args temps) = .ok () draft ∧
      Routine.ofLines? draft.listing.lines = some routine ∧
      (∀ loaded, Routine.load draft.listing.lines = .ok loaded → loaded = routine) ∧
      ∀ (a : Artifact) (host : Host) (limit : Nat) (values : List Float), a.routine = routine →
        Agree
          (fun xs s' ys n => ys = xs ∧ n.state = s' ∧ (∀ x ∈ xs, Session.Lasting x) ∧
            ∀ g ∈ n.seen, ∀ x, g.Shows x → Session.Lasting x)
          (fun s' n => n.state = s' ∧ ∀ g ∈ n.seen, ∀ x, g.Shows x → Session.Lasting x)
          (Session.hosted host limit a values s) (Noted.hosted host limit a values ⟨s, []⟩) := by
  have hRead := Routine.ofLines?_outline name e args temps
  refine ⟨_, _, Routine.write_outline hWF.writable name args temps, hRead,
    fun _ hLoad => Option.some.inj ((Routine.ofLines?_of_load hLoad).symm.trans hRead),
    fun a host limit values _ => ?_⟩
  refine Agree.mono (Noted.hosted_noting host limit a values ⟨s, []⟩
    ⟨hReached.rounded, fun _ hg => absurd hg List.not_mem_nil⟩).agree ?_ ?_
  · rintro xs s' ys n ⟨rfl, hState, hGood, -, hSingle⟩
    exact ⟨rfl, hState, fun x hx => Session.lasting_of_isSingle (hSingle x hx),
      fun g hg x hx => Session.lasting_of_isSingle (hGood.seen g hg x hx)⟩
  · rintro s' n ⟨hState, hGood, -⟩
    exact ⟨hState, fun g hg x hx => Session.lasting_of_isSingle (hGood.seen g hg x hx)⟩

/-- A session with one instance that has no queries and has compiled a number. -/
def bareSession : Session :=
  (Session.start none).obeyAll .mute "a"
    [.create "a" ⟨some [], false, [], false, false⟩, .task "a" (.compile ⟨"1", [], []⟩)]

/-- A number that a host function returns, bound, negated and divided by the context value. -/
def negatedShare : Expr :=
  .bind 2 (.hostCall "f" [.localRead 0 "c"] 1)
    (.binary .div (.negate (.localRead 2 "x")) (.localRead 0 "c"))

def shareArtifact : Artifact := ⟨0, "m", 1, 1, "", Routine.outline "m" negatedShare 1 1⟩

/-- A host function that evaluates the artifact that called it with other arguments, deals with the
failure of the innermost evaluation, and returns a number that is not of single precision. -/
def sharing : Host := fun _ _ _ => .evaluate .running [3] fun _ => .give (.number 0.1)

/-- Host functions that start evaluations in turn and return numbers that are not of single
precision: twenty-six notes are made. -/
theorem negated_share_in_single_precision :
    (negatedShare.Compilable ⟨1, 1, 0⟩ ∧ bareSession.Reached ∧
      (Outcome.state (Noted.hosted sharing 2 shareArtifact [7] ⟨bareSession, []⟩)).seen.length =
      26) ∧
    ∃ draft routine,
      Routine.write "m" negatedShare 1 1 (Routine.draft 1 1) = .ok () draft ∧
      Routine.ofLines? draft.listing.lines = some routine ∧
      (∀ loaded, Routine.load draft.listing.lines = .ok loaded → loaded = routine) ∧
      ∀ (a : Artifact) (host : Host) (limit : Nat) (values : List Float), a.routine = routine →
        Agree
          (fun xs s' ys n => ys = xs ∧ n.state = s' ∧ (∀ x ∈ xs, Session.Lasting x) ∧
            ∀ g ∈ n.seen, ∀ x, g.Shows x → Session.Lasting x)
          (fun s' n => n.state = s' ∧ ∀ g ∈ n.seen, ∀ x, g.Shows x → Session.Lasting x)
          (Session.hosted host limit a values bareSession)
          (Noted.hosted host limit a values ⟨bareSession, []⟩) := by
  have hWF : negatedShare.Compilable ⟨1, 1, 0⟩ := by
    simp [negatedShare, Expr.Compilable, Expr.WellFormed, Expr.Each, Expr.EachOf, Expr.Fits,
      Expr.Delivers, Expr.width, Bounds.Names, Bounds.firstFresh]
  have hReached : bareSession.Reached := Session.reached_obeyAll "a" _ _
  exact ⟨⟨hWF, hReached, by decide +kernel⟩,
    evaluations_compute_in_single_precision hWF "m" hReached⟩

end MolangCompiler
