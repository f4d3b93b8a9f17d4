import Mathlib.Data.List.Nodup
import MolangCompiler.Proofs.Nesting
import MolangCompiler.Proofs.Scripts

/-!
# Sessions that commands lead to

Between commands no evaluation is running.  `Session.AtRest` is the invariant of such sessions: they
are sound, all instances are idle, numbers of instances are not given twice, and every name stands
for an instance of its own.  An instance may be dropped, but as long as it is there it has only
grown (`Session.Advances`).
-/

namespace MolangCompiler

variable {α : Type} {m : Nat}

theorem Agree.ends {σ τ β : Type} {done : α → σ → β → τ → Prop} {failed : σ → τ → Prop}
    {x : Outcome σ α} {y : Outcome τ β} (h : Agree done failed x y) :
    Ends (fun a s => ∃ b t, done a s b t) (fun s => ∃ t, failed s t) x := by
  cases h with
  | ok h => exact .ok ⟨_, _, h⟩
  | error h => exact .error ⟨_, h⟩

namespace Session

/-! ## Tasks -/

/-- **Evaluating an artifact keeps a session sound**, whatever the host functions do. -/
theorem hosted_keeps (host : Host) (limit : Nat) {a : Artifact} (args : List Float) {s : Session}
    (hHoused : s.Houses a) : Stays course (hosted host limit a args) s := by
  intro hSound
  refine .mono (Watch.manner_reflects.hosted host limit a args (s := ⟨s, [], []⟩) hHoused
    (.start hSound)).agree.ends ?_ ?_
  · rintro xs s' ⟨ys, w, -, rfl, hAttends, hLe, -⟩
    exact ⟨hAttends.sound, hLe.1, trivial⟩
  · rintro s' ⟨w, rfl, hAttends, hLe⟩
    exact ⟨hAttends.sound, hLe.1⟩

theorem enter_ends (m levels : Nat) (s : Session) :
    ∃ s', enter m levels s = .ok () s' ∧
      (∀ n, s'.instance? n = (s.changeDepth m (· + levels)).instance? n) ∧
      s'.names = s.names ∧ s'.nextInstance = s.nextInstance ∧ s'.artifacts = s.artifacts := by
  induction levels generalizing s with
  | zero =>
    refine ⟨s, rfl, fun n => ?_, rfl, rfl, rfl⟩
    rw [instance?_changeDepth]
    by_cases hSame : n = m
    · rw [if_pos hSame, hSame]
      cases s.instance? m with
      | none | some => rfl
    · rw [if_neg hSame]
  | succ levels ih =>
    let s₁ := s.changeDepth m (· + 1)
    let s₂ : Session :=
      { s₁ with events := s₁.events ++ [.entered (s₁.workshop m).inst.depth] }
    obtain ⟨s', hEnter, hLook, hRest⟩ := ih s₂
    refine ⟨s', hEnter, fun n => ?_, hRest⟩
    rw [hLook, instance?_changeDepth, instance?_changeDepth]
    show (if n = m then (s₁.instance? m).map _ else s₁.instance? n) = _
    rw [instance?_changeDepth, instance?_changeDepth, if_pos rfl]
    by_cases hSame : n = m
    · rw [if_pos hSame, if_pos hSame]
      cases s.instance? m with
      | none => rfl
      | some i =>
        show some { i with depth := i.depth + 1 + levels } =
          some { i with depth := i.depth + (levels + 1) }
        rw [Nat.add_assoc, Nat.add_comm 1]
    · rw [if_neg hSame, if_neg hSame, if_neg hSame]

section

variable {evaluate : Evaluator}
  (hEvaluate : ∀ a args {s : Session}, s.Houses a → Stays course (evaluate a args) s)
include hEvaluate

theorem evaluateNested_keeps {a : Artifact} (args : List Float) (m levels : Nat) {s : Session}
    (hHoused : s.Houses a) :
    Stays course (followedBy (do enter m levels; return Answer.values (← evaluate a args))
        (changeDepth m (· - levels))) s := by
  intro hSound
  obtain ⟨s₁, hEnter, hLook, hNames, hNext, hArtifacts⟩ := enter_ends m levels s
  have hGrows : s.Grows (s₁.changeDepth m (· - levels)) := by
    refine .of_same (fun n => ?_) hNames hNext
    rw [← instance?_lowered s m levels n, instance?_changeDepth, instance?_changeDepth]
    rw [hLook, hLook]
  have hSame : (s.changeDepth m (· + levels)).Grows s₁ := .of_same hLook hNames hNext
  have hRaised := hSound.changeDepth m (· + levels)
  have hSound₁ : s₁.Sound :=
    hRaised.grows hSame (fun hi => hRaised.spaces ((hLook _).symm.trans hi)) hArtifacts
  have hHoused₁ : s₁.Houses a := (houses_changeDepth.mpr hHoused).grows hSame
  have hEnds := Keeps.bind (hEvaluate a args hHoused₁)
    (fun xs s₂ _ _ _ => Keeps.pure (a := Answer.values xs) (p := fun _ _ => True) trivial) hSound₁
  have hAfter {s₂ : Session} (hOk : s₂.Sound) (hMore : s₁.Grows s₂) :
      (s₂.changeDepth m (· - levels)).Sound ∧ s.Grows (s₂.changeDepth m (· - levels)) :=
    ⟨hOk.changeDepth m _, hGrows.trans (hMore.lower m levels)⟩
  unfold followedBy
  rw [bind_of_ok hEnter]
  generalize (evaluate a args >>= fun xs => pure (Answer.values xs) : Act Session Answer) s₁ = out
    at hEnds ⊢
  cases hEnds with
  | ok hEnd =>
    obtain ⟨hOk, hMore⟩ := hAfter hEnd.1 hEnd.2.1
    exact .ok ⟨hOk, hMore, trivial⟩
  | error hEnd => exact .error (hAfter hEnd.1 hEnd.2)

/-- **Every task keeps a session sound.** -/
theorem doTask_keeps {i : Instance} {s : Session} (hAt : s.instance? m = some i) (task : Task) :
    Stays course (doTask evaluate m task) s := by
  refine course_managed.task hEvaluate ?_ ⟨i, hAt⟩ task fun name size _ => ?_
  · exact fun a args levels s _ hHoused => evaluateNested_keeps hEvaluate args m levels hHoused
  · exact .forget (onInstance_keeps hAt (Workshop.keeps_of_making (Workshop.onTenant_makes
      (Tenant.obtain_keeps name size _))))

end

/-! ## Commands -/

/-- A session in which no evaluation is running. -/
structure AtRest (s : Session) : Prop where
  sound : s.Sound
  idle : ∀ {n i}, s.instance? n = some i → i.depth = 0
  numbers : ∀ {n i}, s.instance? n = some i → n < s.nextInstance
  names : ∀ p ∈ s.names, ∃ i, s.instance? p.2 = some i
  distinct : (s.names.map (·.2)).Nodup

/-- Instances that were there before and still are have grown. -/
structure Advances (s s' : Session) : Prop where
  next : s.nextInstance ≤ s'.nextInstance
  instances : ∀ {n i'}, n < s.nextInstance → s'.instance? n = some i' →
    ∃ i, s.instance? n = some i ∧ i.Grows i'

variable {s₁ s₂ s₃ s s' : Session}

theorem Advances.trans (h : s₁.Advances s₂) (h' : s₂.Advances s₃) : s₁.Advances s₃ where
  next := Nat.le_trans h.next h'.next
  instances hn hi := by
    obtain ⟨i₂, hi₂, hMore'⟩ := h'.instances (Nat.lt_of_lt_of_le hn h.next) hi
    obtain ⟨i₁, hi₁, hMore⟩ := h.instances hn hi₂
    exact ⟨i₁, hi₁, hMore.trans hMore'⟩

theorem Grows.advances (h : s.Grows s') : s.Advances s' where
  next := Nat.le_of_eq h.next.symm
  instances _ hi' := h.back hi'

theorem AtRest.grows (h : s.AtRest) (hSound : s'.Sound) (hGrows : s.Grows s') : s'.AtRest where
  sound := hSound
  idle hi' := by
    obtain ⟨i, hi, hMore⟩ := hGrows.back hi'
    rw [hMore.depth]
    exact h.idle hi
  numbers hi' := by
    obtain ⟨i, hi, -⟩ := hGrows.back hi'
    rw [hGrows.next]
    exact h.numbers hi
  names p hp := by
    rw [hGrows.names] at hp
    obtain ⟨i, hi⟩ := h.names p hp
    obtain ⟨i', hi', -⟩ := hGrows.some hi
    exact ⟨i', hi'⟩
  distinct := by
    rw [hGrows.names]
    exact h.distinct

def Moves (s s' : Session) : Prop := s'.AtRest ∧ s.Advances s'

theorem Moves.trans (h : Moves s₁ s₂) (h' : Moves s₂ s₃) : Moves s₁ s₃ :=
  ⟨h'.1, h.2.trans h'.2⟩

theorem moves_of_keeps {act : Act Session α} {p : α → Session → Prop} (hRest : s.AtRest)
    (h : Keeps course p act s) :
    Ends (fun _ s' => Moves s s') (fun s' => Moves s s') (act s) :=
  Ends.mono (h hRest.sound) (fun _ _ hEnd => ⟨hRest.grows hEnd.1 hEnd.2.1, hEnd.2.1.advances⟩)
    fun _ hEnd => ⟨hRest.grows hEnd.1 hEnd.2, hEnd.2.advances⟩

theorem moves_of_same (hRest : s.AtRest) (hInstances : s'.instances = s.instances)
    (hArtifacts : s'.artifacts = s.artifacts) (hNames : s'.names = s.names)
    (hNext : s'.nextInstance = s.nextInstance) : Moves s s' := by
  have hEnds := moves_of_keeps hRest
    (modify_keeps (f := fun _ => s') hInstances hArtifacts hNames hNext)
  cases hEnds with
  | ok hMoves => exact hMoves

theorem establish_ends (w : Workshop) :
    Ends (fun _ w' => w'.inst.space = w.inst.space ∧ w'.inst.depth = w.inst.depth) (fun _ => True)
      (Workshop.establish w) := by
  unfold Workshop.establish
  split
  · exact .ok ⟨rfl, rfl⟩
  cases Books.charge w.inst.bytes w.books with
  | error e b => exact .error trivial
  | ok _ b =>
    have hScratch : Ends (fun _ w' => w'.inst.space = w.inst.space ∧ w'.inst.depth = w.inst.depth)
        (fun _ => True) (Workshop.onScratch ScratchRoom.establish
          ⟨b, { w.inst with owner := some (.opened w.inst.bytes) }⟩) := by
      refine onPart_ends ?_
      generalize ScratchRoom.establish _ = out
      cases out with
      | ok _ r => exact .ok ⟨rfl, rfl⟩
      | error e r => exact .error trivial
    dsimp only
    generalize Workshop.onScratch ScratchRoom.establish _ = out at hScratch ⊢
    cases hScratch with
    | ok h => exact .ok h
    | error h => exact .error trivial

theorem AtRest.free (h : s.AtRest) : s.instance? s.nextInstance = none := by
  cases hi : s.instance? s.nextInstance with
  | none => rfl
  | some i => exact absurd (h.numbers hi) (Nat.lt_irrefl _)

theorem moves_of_new (hRest : s.AtRest) {i : Instance} (hSpace : i.space.Sound)
    (hDepth : i.depth = 0)
    (hLook : ∀ n, s'.instance? n = if n = s.nextInstance then some i else s.instance? n)
    (hArtifacts : s'.artifacts = s.artifacts) (hNext : s'.nextInstance = s.nextInstance + 1)
    {name : String} (hNames : s'.names = (name, s.nextInstance) :: s.names.filter (·.1 != name)) :
    Moves s s' := by
  have hOld {n : Nat} {j : Instance} (hj : s.instance? n = some j) : s'.instance? n = some j := by
    rw [hLook, if_neg (Nat.ne_of_lt (hRest.numbers hj))]
    exact hj
  have hEither {n : Nat} {j : Instance} (hj : s'.instance? n = some j) :
      (n = s.nextInstance ∧ j = i) ∨ s.instance? n = some j := by
    rw [hLook] at hj
    by_cases hSame : n = s.nextInstance
    · rw [if_pos hSame] at hj
      cases hj
      exact .inl ⟨hSame, rfl⟩
    · rw [if_neg hSame] at hj
      exact .inr hj
  have hSound : s'.Sound := by
    refine hRest.sound.enlarges (fun _ _ hj => ⟨_, hOld hj, Nat.le_refl _, Nat.le_refl _, rfl⟩)
      (fun hj => ?_) hArtifacts
    rcases hEither hj with ⟨-, rfl⟩ | hj
    · exact hSpace
    · exact hRest.sound.spaces hj
  refine ⟨⟨hSound, fun hj => ?_, fun {n j} hj => ?_, fun p hp => ?_, ?_⟩, ?_, fun hn hj => ?_⟩
  · rcases hEither hj with ⟨-, rfl⟩ | hj
    · exact hDepth
    · exact hRest.idle hj
  · rw [hNext]
    rcases hEither hj with ⟨rfl, -⟩ | hj
    · exact Nat.lt_succ_self _
    · exact Nat.lt_succ_of_lt (hRest.numbers hj)
  · rw [hNames] at hp
    rcases List.mem_cons.mp hp with rfl | hp
    · exact ⟨i, (hLook _).trans (if_pos rfl)⟩
    · obtain ⟨j, hj⟩ := hRest.names p (List.mem_of_mem_filter hp)
      exact ⟨j, hOld hj⟩
  · rw [hNames, List.map_cons]
    refine List.nodup_cons.mpr ⟨fun hMem => ?_, ?_⟩
    · obtain ⟨p, hp, hSame⟩ := List.mem_map.mp hMem
      obtain ⟨j, hj⟩ := hRest.names p (List.mem_of_mem_filter hp)
      exact Nat.ne_of_lt (hRest.numbers hj) hSame
    · exact hRest.distinct.sublist (List.filter_sublist.map _)
  · rw [hNext]
    exact Nat.le_succ _
  · rcases hEither hj with ⟨rfl, -⟩ | hj
    · exact absurd hn (Nat.lt_irrefl _)
    · exact ⟨_, hj, .refl _⟩

/-- **A new instance** gets a number of its own. -/
theorem create_moves (name : String) (plan : Plan) (hRest : s.AtRest) :
    Ends (fun _ s' => Moves s s') (fun s' => Moves s s') (create name plan s) := by
  unfold create
  extract_lets i ledger
  have hEnds := establish_ends ⟨{ s.books with ledger := ledger }, i⟩
  generalize Workshop.establish ⟨{ s.books with ledger := ledger }, i⟩ = out at hEnds ⊢
  cases hEnds with
  | error h => exact .error (moves_of_same hRest rfl rfl rfl rfl)
  | @ok _ w h =>
    refine .ok (moves_of_new hRest (i := w.inst) ?_ h.2 (fun n => ?_) rfl rfl rfl)
    · rw [h.1]
      exact Namespace.sound_empty
    · unfold instance?
      rw [List.find?_append, List.find?_singleton]
      by_cases hSame : n = s.nextInstance
      · have hFree := hRest.free
        unfold instance? at hFree
        rw [if_pos hSame, hSame, Option.map_eq_none_iff.mp hFree, Option.none_or]
        show Option.map _ (if (s.nextInstance == s.nextInstance) = true then _ else _) = _
        rw [if_pos (beq_self_eq_true _)]
        rfl
      · have hOther : ¬ (s.nextInstance == n) = true := fun h => hSame (beq_iff_eq.mp h).symm
        show Option.map _ (Option.or _ (if (s.nextInstance == n) = true then _ else _)) = _
        rw [if_neg hSame, if_neg hOther, Option.or_none]

theorem mem_of_number? {name : String} (h : s.number? name = some m) : (name, m) ∈ s.names := by
  obtain ⟨p, hp, rfl⟩ := Option.map_eq_some_iff.mp h
  have hName := List.find?_some hp
  have hMem := List.mem_of_find?_eq_some hp
  rw [← beq_iff_eq.mp hName]
  exact hMem

theorem moves_of_gone (hRest : s.AtRest)
    (hLook : ∀ n, s'.instance? n = if n = m then none else s.instance? n)
    (hArtifacts : ∀ {a}, some a ∈ s'.artifacts → some a ∈ s.artifacts ∧ a.home ≠ m)
    (hNext : s'.nextInstance = s.nextInstance) (hNames : ∀ p ∈ s'.names, p ∈ s.names ∧ p.2 ≠ m)
    (hDistinct : (s'.names.map (·.2)).Nodup) : Moves s s' := by
  have hBack {n : Nat} {j : Instance} (hj : s'.instance? n = some j) : s.instance? n = some j := by
    rw [hLook] at hj
    by_cases hSame : n = m
    · rw [if_pos hSame] at hj
      cases hj
    · rw [if_neg hSame] at hj
      exact hj
  have hStill {n : Nat} (hOther : n ≠ m) : s'.instance? n = s.instance? n :=
    (hLook n).trans (if_neg hOther)
  refine ⟨⟨⟨fun hj => hRest.sound.spaces (hBack hj), fun ha => ?_⟩, fun hj => hRest.idle (hBack hj),
    fun hj => ?_, fun p hp => ?_, hDistinct⟩, Nat.le_of_eq hNext.symm,
    fun _ hj => ⟨_, hBack hj, .refl _⟩⟩
  · obtain ⟨hOld, hOther⟩ := hArtifacts ha
    obtain ⟨i, hi, hSuits⟩ := hRest.sound.artifacts hOld
    exact ⟨i, (hStill hOther).trans hi, hSuits⟩
  · rw [hNext]
    exact hRest.numbers (hBack hj)
  · obtain ⟨hOld, hOther⟩ := hNames p hp
    obtain ⟨i, hi⟩ := hRest.names p hOld
    exact ⟨i, (hStill hOther).trans hi⟩

theorem instance?_filter (s : Session) (m n : Nat) :
    (({ s with instances := s.instances.filter (·.1 != m) } : Session).instance? n) =
      if n = m then none else s.instance? n := by
  unfold instance?
  rw [List.find?_filter]
  by_cases hSame : n = m
  · rw [if_pos hSame, List.find?_eq_none.mpr]
    · rfl
    · intro p _ hBoth
      obtain ⟨hOther, hHere⟩ := of_decide_eq_true hBoth
      exact bne_iff_ne.mp hOther ((beq_iff_eq.mp hHere).trans hSame)
  · rw [if_neg hSame]
    refine congrArg (Option.map _) (congrArg (List.find? · s.instances) (funext fun p => ?_))
    refine (decide_eq_decide.mpr (and_iff_right_of_imp fun hHere => ?_)).trans (Bool.decide_coe _)
    exact bne_iff_ne.mpr fun hNumber => hSame ((beq_iff_eq.mp hHere).symm.trans hNumber)

/-- **A dropped instance** is gone, and so are its name and its artifacts. -/
theorem drop_moves (name : String) (hRest : s.AtRest) : Moves s (s.drop name) := by
  unfold drop
  cases hNumber : s.number? name with
  | none => exact ⟨hRest, (Grows.refl s).advances⟩
  | some m =>
    refine moves_of_gone hRest (instance?_filter s m) (fun {a} ha => ?_) rfl (fun p hp => ?_)
      ((List.filter_sublist.map _).nodup hRest.distinct)
    · obtain ⟨b, hb, hKept⟩ := List.mem_map.mp ha
      obtain ⟨hSome, hOther⟩ := Option.filter_eq_some_iff.mp hKept
      exact ⟨hSome ▸ hb, bne_iff_ne.mp hOther⟩
    · obtain ⟨hOld, hOther⟩ := List.mem_filter.mp hp
      refine ⟨hOld, fun hSame => bne_iff_ne.mp hOther ?_⟩
      have hEq := List.inj_on_of_nodup_map hRest.distinct hOld (mem_of_number? hNumber) hSame
      exact congrArg Prod.fst hEq

theorem changeBudget_moves (budget : Option Int) (hRest : s.AtRest) :
    Ends (fun _ s' => Moves s s') (fun s' => Moves s s') (changeBudget budget s) :=
  .ok (moves_of_same hRest rfl rfl rfl rfl)

/-- **Every command** leaves a session at rest, if evaluations keep it sound. -/
theorem obeyVia_moves {evaluate : Evaluator}
    (hEvaluate : ∀ a args {s : Session}, s.Houses a →
      Stays course (evaluate a args) s) (command : Command) (hRest : s.AtRest) :
    Ends (fun _ s' => Moves s s') (fun s' => Moves s s') (obeyVia evaluate command s) := by
  cases command with
  | create name plan => exact create_moves name plan hRest
  | drop name => exact .ok (drop_moves name hRest)
  | setBudget budget => exact changeBudget_moves budget hRest
  | setSlack slack => exact changeBudget_moves _ hRest
  | task name task =>
    delta obeyVia
    dsimp only
    rw [get_bind]
    cases hNumber : s.number? name with
    | none => exact .error ⟨hRest, (Grows.refl s).advances⟩
    | some m =>
      obtain ⟨i, hi⟩ := hRest.names _ (mem_of_number? hNumber)
      exact moves_of_keeps hRest (doTask_keeps hEvaluate hi task)

theorem outcome_of_ends {act : Act Session α} {p : Session → Prop}
    (h : Ends (fun _ s' => p s') p (act s)) : p (outcome act s).2 := by
  unfold outcome
  generalize act s = out at h ⊢
  cases h with
  | ok h | error h => exact h

theorem report_moves (host : Host) (name : String) (command : Command) (hRest : s.AtRest) :
    Moves s (report host name command s).2 := by
  have hObeyed := outcome_of_ends
    (obeyVia_moves (fun _ args _ => hosted_keeps host nestingLimit args) command hRest)
  exact hObeyed.trans (moves_of_same hObeyed.1 rfl rfl rfl rfl)

/-! ## Runs of commands -/

/-- Commands lead from one session to another, and so do evaluations with host functions of any
kind. -/
inductive Leads (s : Session) : Session → Prop where
  | refl : Leads s s
  | command {s' : Session} (host : Host) (name : String) (command : Command) :
      Leads s s' → Leads s (report host name command s').2
  | evaluation {s' : Session} (host : Host) (limit : Nat) (a : Artifact) (args : List Float) :
      some a ∈ s'.artifacts → Leads s s' → Leads s (outcome (hosted host limit a args) s').2

theorem Leads.trans (h : Leads s₁ s₂) (h' : Leads s₂ s₃) : Leads s₁ s₃ := by
  induction h' with
  | refl => exact h
  | command host name command _ ih => exact .command host name command ih
  | evaluation host limit a args hKept _ ih => exact .evaluation host limit a args hKept ih

/-- **A run of commands** leaves a session at rest, and what it has of its instances has grown. -/
theorem Leads.moves (h : Leads s s') (hRest : s.AtRest) : Moves s s' := by
  induction h with
  | refl => exact ⟨hRest, (Grows.refl s).advances⟩
  | command host name command _ ih => exact ih.trans (report_moves host name command ih.1)
  | evaluation host limit a args hKept _ ih =>
    have hHoused := ih.1.sound.artifacts hKept
    exact ih.trans (outcome_of_ends (moves_of_keeps ih.1 (hosted_keeps host limit args hHoused)))

/-- The session after some commands, each with a report on the instance with a name. -/
def obeyAll (host : Host) (name : String) (commands : List Command) (s : Session) : Session :=
  commands.foldl (fun s command => (report host name command s).2) s

theorem leads_obeyAll (host : Host) (name : String) (commands : List Command) (s : Session) :
    Leads s (obeyAll host name commands s) := by
  induction commands generalizing s with
  | nil => exact .refl
  | cons command rest ih => exact (Leads.command host name command .refl).trans (ih _)

theorem atRest_start (ledger : Option Ledger) : (start ledger).AtRest where
  sound := ⟨(nomatch ·), (nomatch ·)⟩
  idle h := nomatch h
  numbers h := nomatch h
  names _ h := nomatch h
  distinct := .nil

/-- A session that moves lead to from a start. -/
def Reached (s : Session) : Prop := ∃ ledger, Leads (start ledger) s

theorem reached_obeyAll {host : Host} (name : String) (commands : List Command)
    (ledger : Option Ledger) : ((start ledger).obeyAll host name commands).Reached :=
  ⟨ledger, leads_obeyAll host name commands _⟩

theorem Reached.atRest (h : s.Reached) : s.AtRest := by
  obtain ⟨ledger, hLeads⟩ := h
  exact (hLeads.moves (atRest_start ledger)).1

end Session

end MolangCompiler
