import MolangCompiler.Proofs.Resolving
import MolangCompiler.Proofs.Safety
import MolangCompiler.Proofs.Trails
import MolangCompiler.Proofs.Upkeep

/-!
# Names keep their variables

Once a source was compiled that mentions a variable, the name stands for this variable.  Most
operations leave it so, between commands or in a host function.  But whoever asks for a variable by
its exact name can make a second one, which hides the first (`exact_name_hides_sized_variable`);
templates can do the same.

`Session.naming` is the course on which an instance moves, as far as one name is concerned.  All
sessions that a history passes through keep to it.
-/

namespace MolangCompiler

variable {s' : Session} {r : Variable}

namespace Session

variable {number : Nat} {name : String} {spared : Prop}

/-! ## The course of a name -/

/-- The instance with this number has been made and moves on, until it is dropped. -/
def naming (number : Nat) (name : String) (spared : Prop) : Course Session where
  ok s := number < s.nextInstance
  le s s' := ∀ i', s'.instance? number = some i' →
    ∃ i, s.instance? number = some i ∧ i.Follows spared name i'
  refl _ i hi := ⟨i, hi, .refl i⟩
  trans h h' i₃ h₃ := by
    obtain ⟨i₂, h₂, hFollows'⟩ := h' i₃ h₃
    obtain ⟨i₁, h₁, hFollows⟩ := h i₂ h₂
    exact ⟨i₁, h₁, hFollows.trans hFollows'⟩

variable {s : Session}

theorem naming_of_same (h : s'.instance? number = s.instance? number) :
    (naming number name spared).le s s' := fun i hi => ⟨i, h.symm.trans hi, .refl i⟩

theorem naming_of_change {m : Nat} {f : Instance → Instance} (hLook : s'.instance? number =
      if number = m then (s.instance? m).map f else s.instance? number)
    (hf : number = m → ∀ i, s.instance? m = some i → i.Follows spared name (f i)) :
    (naming number name spared).le s s' := by
  intro i' hi'
  rw [hLook] at hi'
  by_cases hSame : number = m
  · rw [if_pos hSame] at hi'
    obtain ⟨i, hi, rfl⟩ := Option.map_eq_some_iff.mp hi'
    exact ⟨i, hSame ▸ hi, hf hSame i hi⟩
  · rw [if_neg hSame] at hi'
    exact ⟨i', hi', .refl i'⟩

theorem naming_changeInstance (m : Nat) {f : Instance → Instance}
    (hf : ∀ i : Instance, i.Follows spared name (f i)) (s : Session) :
    (naming number name spared).le s (s.changeInstance m f) :=
  naming_of_change (instance?_changeInstance s m number f) fun _ i _ => hf i

theorem onInstance_naming {α : Type} (m : Nat) {act : Act Workshop α}
    (h : number = m → ∀ i, Preserves (Workshop.Follows spared name i) act) (s : Session) :
    Stays (naming number name spared) (onInstance m act) s := by
  intro hOk
  have hEnds : Ends (fun _ w => number = m → (s.workshop m).inst.Follows spared name w.inst)
      (fun w => number = m → (s.workshop m).inst.Follows spared name w.inst)
      (act (s.workshop m)) := by
    by_cases hSame : number = m
    · refine .mono (h hSame _ _ (.refl _)) ?_ ?_
      · exact fun _ _ hw _ => hw
      · exact fun _ hw _ => hw
    · cases act (s.workshop m) with
      | ok a w => exact .ok fun hEq => absurd hEq hSame
      | error e w => exact .error fun hEq => absurd hEq hSame
  have hAfter {w : Workshop} (hw : number = m → (s.workshop m).inst.Follows spared name w.inst) :
      (naming number name spared).le s (s.setWorkshop m w) := by
    refine naming_of_change (instance?_setWorkshop s m number w) fun hSame i hi => ?_
    have hFollows := hw hSame
    rw [workshop_inst hi] at hFollows
    exact hFollows
  refine onPart_ends (.mono hEnds ?_ ?_)
  · exact fun _ w hw => ⟨hOk, hAfter hw, trivial⟩
  · exact fun w hw => ⟨hOk, hAfter hw⟩

theorem modify_naming {f : Session → Session} (hInstances : (f s).instances = s.instances)
    (hNext : (f s).nextInstance = s.nextInstance) :
    Stays (naming number name spared) (modify f : Act Session PUnit) s := by
  refine .modify (fun hOk => ?_) (fun _ => naming_of_same ?_) fun _ => trivial
  · show number < (f s).nextInstance
    rw [hNext]
    exact hOk
  · unfold instance?
    rw [hInstances]

theorem changeDepth_naming (m : Nat) (f : Nat → Nat) (hOk : (naming number name spared).ok s) :
    (naming number name spared).ok (s.changeDepth m f) ∧
      (naming number name spared).le s (s.changeDepth m f) :=
  ⟨hOk, naming_changeInstance m (f := fun i => { i with depth := f i.depth })
    (fun _ => .of_space rfl rfl) s⟩

/-! ## Evaluations -/

section

variable (hPlain : '$' ∉ name.toList)
include hPlain

/-- **Single operations** leave alone what a name stands for. -/
theorem naming_managed :
    Managed (naming number name spared) (fun _ _ => True) (fun _ _ => True) where
  home _ := trivial
  later _ _ := trivial
  lasts _ _ := trivial
  compile request m :=
    fun _ => onInstance_naming m (fun _ _ => Workshop.compile_follows hPlain m request) _
  keep _ := .get_bind (.bind_pure (modify_naming rfl rfl))
  artifact index s := .forget (artifact_looks index s)
  set other vs m s _ := by
    refine onInstance_naming m (fun _ _ => ?_) s
    exact Workshop.onTenant_follows (Tenant.setValues_adds other vs)
      fun _ _ => Tenant.setValues_finds hPlain other vs
  get other m s _ := by
    refine onInstance_naming m (fun _ _ => ?_) s
    exact Workshop.onTenant_follows (Tenant.values_looks other)
      fun _ _ => Tenant.values_preserves other
  record _ _ := modify_naming rfl rfl
  settle _ := modify_naming rfl rfl

/-- **Whatever routines and host functions do** leaves alone what a name stands for. -/
theorem naming_stepwise : Stepwise (naming number name spared) where
  setStore m store s hOk :=
    ⟨hOk, naming_changeInstance m (f := (·.setStore store)) (fun _ => .of_space rfl rfl) s⟩
  setBuffer m buffer s hOk :=
    ⟨hOk, naming_changeInstance m (f := (·.setBuffer buffer)) (fun _ => .of_space rfl rfl) s⟩
  changeDepth m f _ hOk := changeDepth_naming m f hOk
  scratch m act s := onInstance_naming m (fun _ _ => Workshop.onScratch_follows act) s
  managed := naming_managed hPlain

end

/-! ## Commands -/

theorem create_naming (who : String) (plan : Plan) (s : Session) :
    Stays (naming number name spared) (create who plan) s := by
  intro hOk
  unfold create
  extract_lets i ledger
  cases Workshop.establish ⟨{ s.books with ledger := ledger }, i⟩ with
  | error e w => exact .error ⟨hOk, naming_of_same rfl⟩
  | ok _ w =>
    refine .ok ⟨Nat.lt_succ_of_lt hOk, naming_of_same ?_, trivial⟩
    have hOther : (s.nextInstance == number) = false :=
      beq_eq_false_iff_ne.mpr (Nat.ne_of_gt hOk)
    show Option.map _ (List.find? _ (s.instances ++ [(s.nextInstance, w.inst)])) = _
    rw [List.find?_append, List.find?_singleton, hOther]
    simp only [Bool.false_eq_true, if_false, Option.or_none]
    rfl

theorem drop_naming (who : String) (hOk : (naming number name spared).ok s) :
    (naming number name spared).ok (s.drop who) ∧
      (naming number name spared).le s (s.drop who) := by
  unfold drop
  cases s.number? who with
  | none => exact ⟨hOk, (naming number name spared).refl s⟩
  | some m =>
    refine ⟨hOk, fun i hi => ?_⟩
    have hLook := instance?_filter s m number
    by_cases hSame : number = m
    · rw [if_pos hSame] at hLook
      cases hLook.symm.trans hi
    · rw [if_neg hSame] at hLook
      exact ⟨i, hLook.symm.trans hi, .refl i⟩

/-- A command does not ask the instance with a number for a variable by just this name. -/
def Spares (number : Nat) (name : String) (command : Command) (s : Session) : Prop :=
  ∀ owner size, command = .task owner (.declare name size) → s.number? owner ≠ some number

section

variable {evaluate : Evaluator}
  (hPlain : '$' ∉ name.toList)
  (hEvaluate : ∀ a args s, Stays (naming number name spared) (evaluate a args) s)
include hPlain hEvaluate

theorem doTask_naming (m : Nat) (task : Task)
    (hSpares : spared → ∀ size, task = .declare name size → number ≠ m) (s : Session) :
    Stays (naming number name spared) (doTask evaluate m task) s := by
  refine (naming_managed hPlain).task (fun a args _ _ => hEvaluate a args _) ?_ trivial task
    fun other size hTask => ?_
  · exact (naming_managed hPlain).nested (fun a args _ _ => hEvaluate a args _)
      fun f _ _ => changeDepth_naming m f
  · refine onInstance_naming m (fun hSame i => ?_) s
    refine Workshop.onTenant_follows (Tenant.obtain_adds other size) fun hSpared r => ?_
    refine Tenant.obtain_finds (fun hName => ?_) size
    exact hSpares hSpared size (by rw [hTask, hName]) hSame

/-- **Commands** leave alone what a name stands for, if they do not ask for a variable by just this
name. -/
theorem obeyVia_naming (command : Command) (hSpares : spared → Spares number name command s) :
    Stays (naming number name spared) (obeyVia evaluate command) s := by
  cases command with
  | create who plan => exact create_naming who plan s
  | drop who =>
    refine .bind (p := fun _ _ => True) ?_ fun _ _ _ _ _ => .pure trivial
    exact .modify (fun hOk => (drop_naming who hOk).1) (fun hOk => (drop_naming who hOk).2)
      fun _ => trivial
  | setBudget budget => exact .bind_pure (modify_naming rfl rfl)
  | setSlack slack =>
    exact .get_bind (.bind_pure (modify_naming rfl rfl))
  | task who task =>
    refine .get_bind ?_
    cases hNumber : s.number? who with
    | none => exact .throw
    | some m =>
      refine doTask_naming hPlain hEvaluate m task (fun hSpared size hTask hSame => ?_) s
      refine hSpares hSpared who size (by rw [hTask]) ?_
      rw [hNumber, hSame]

end

variable {s : Session}

theorem report_naming (hPlain : '$' ∉ name.toList) (host : Host) (who : String)
    (command : Command) (hSpares : spared → Spares number name command s)
    (hOk : (naming number name spared).ok s) :
    (naming number name spared).ok (report host who command s).2 ∧
      (naming number name spared).le s (report host who command s).2 := by
  have S : Stepwise (naming number name spared) := naming_stepwise hPlain
  have hObey : Stays (naming number name spared) (obey host command) s :=
    obeyVia_naming hPlain (S.hosted_keeps host nestingLimit) command hSpares
  have hDone := outcome_of_ends (.mono (hObey hOk) (fun _ _ h => ⟨h.1, h.2.1⟩) fun _ h => h)
  exact ⟨hDone.1, (naming number name spared).trans hDone.2 (naming_of_same rfl)⟩

/-! ## Compiling twice -/

/-- Compiling some source on the instance with a number leads from one session to another, and
resolves a name in the source to a variable. -/
def Compiles (number : Nat) (name : String) (r : Variable) (s s' : Session) : Prop :=
  ∃ i request a, s.instance? number = some i ∧
    onInstance number (Workshop.compile number request) s = .ok a s' ∧
    (name, r) ∈ (s.workshop number).resolutions request

theorem Compiles.stood (h : Compiles number name r s s') :
    ∃ i i', s.instance? number = some i ∧ s'.instance? number = some i' ∧
      i'.queries = i.queries ∧ (i.Templateless → i.space.Settles i'.space) ∧
      Stood i.Templateless i.space (name, r) i'.space := by
  obtain ⟨i, request, a, hi, hCompile, hMem⟩ := h
  obtain ⟨w, hRun, rfl⟩ := onPart_eq_ok.mp hCompile
  obtain ⟨p, w₁, hRead, hQueries, hRecords⟩ := Workshop.read_of_compile hRun
  obtain ⟨-, hSettles, hStood⟩ := Workshop.read_resolves hRead
  obtain ⟨hPlain, ⟨mid, hBefore, hAfter, hFound⟩, hStill⟩ := hStood _ hMem
  rw [workshop_inst hi] at hQueries hSettles hBefore hStill
  have hFind := Namespace.find?_congr hRecords
  refine ⟨i, w.inst, hi, ?_, hQueries, fun hCalm other v hOther hv => ?_, hPlain,
    ⟨mid, hBefore, hRecords ▸ hAfter, hFound⟩, fun hCalm => (hFind _).trans (hStill hCalm)⟩
  · rw [instance?_setWorkshop, if_pos rfl, hi]
    rfl
  · rw [hFind]
    exact hSettles hCalm other v hOther hv

/-- **One name, two compilations.**  The instance has moved on from one compilation to a later one.
-/
theorem Compiles.same {r' : Variable} {s₁ t u u₁ : Session} (hFirst : Compiles number name r s s₁)
    (hThen : t.instance? number = s₁.instance? number) (hLater : (naming number name spared).le t u)
    (hSecond : Compiles number name r' u u₁) :
    (r' = r ∨ r.name ≠ name ∧ r'.name = name) ∧
      (∀ i, t.instance? number = some i → spared → i.Templateless → r' = r) := by
  obtain ⟨i, i₁, -, hi₁, hQueries, -, hPlain, ⟨mid, -, hMid, hFound⟩, hStill⟩ := hFirst.stood
  obtain ⟨j, j₁, hj, hj₁, -, hSettles, -, ⟨mid', hMid', -, hFound'⟩, hStill'⟩ := hSecond.stood
  obtain ⟨k, hk, hFollows⟩ := hLater j hj
  obtain rfl : i₁ = k := Option.some.inj (hi₁.symm.trans (hThen.symm.trans hk))
  refine ⟨?_, fun k hk' hSpared hCalm => ?_⟩
  · exact Namespace.find?_of_prefix ((hMid.trans hFollows.space.records).trans hMid') hFound hFound'
  · obtain rfl : i₁ = k := Option.some.inj (hk.symm.trans hk')
    have hCalm₀ : i.Templateless := by
      unfold Instance.Templateless at hCalm ⊢
      rw [← hQueries]
      exact hCalm
    have hCalmLater : j.Templateless := hFollows.templateless hCalm
    have hStands : j.space.find? name = some r :=
      hFollows.space.finds ⟨hSpared, hCalm⟩ r (hStill hCalm₀)
    have hStands₁ := hSettles hCalmLater name r hPlain hStands
    exact Option.some.inj ((hStill' hCalmLater).symm.trans hStands₁)

end Session

open Session

/-- **Names in sources keep their variables.**  A session that commands lead to passes through any
history of commands and evaluations, whose host functions may compile and set variables themselves.
At some moment the instance with a number is as compiling a source has left it, and a name in that
source was resolved to `r`.  If at this moment or a later one, inside an evaluation or between
moves, a source is compiled on it that mentions the name again, then the name is resolved to `r`
again, or else to a variable with just this name, while `r` has a size in front of it.  If the
instance has no templates and no command of the history asks it for a variable by just this name,
then the name is always resolved to `r`.

What names are resolved to is taken from a reading of the source with a list, which comes to the
tree that is compiled. -/
theorem source_names_keep_their_variables {s : Session} (hReached : s.Reached) {number : Nat}
    {i : Instance} (hAt : s.instance? number = some i) (name : String) (moves : List Move) :
    (∀ (t t' : Session) (request : Request) (a : Artifact),
      onInstance number (Workshop.compile number request) t = .ok a t' →
      ∃ e temps w r, Workshop.read request (t.workshop number) = .ok (e, temps) w ∧
        ((t.workshop number).dictionary request).resolve
          ⟨Scope.start (t.workshop number).tenant, []⟩ = .ok (.accepted e) r ∧
        r.resolved = (t.workshop number).resolutions request) ∧
    ∀ before t after, s.moments moves = before ++ t :: after →
      ∀ s₀ s₁ r, Compiles number name r s₀ s₁ → t.instance? number = s₁.instance? number →
      ∀ u ∈ t :: after, ∀ u₁ r', Compiles number name r' u u₁ →
        (r' = r ∨ r.name ≠ name ∧ r'.name = name) ∧
        (i.Templateless → s.EachCommand (Spares number name) moves → r' = r) := by
  constructor
  · intro t t' request a hCompile
    obtain ⟨w', hRun, -⟩ := onPart_eq_ok.mp hCompile
    obtain ⟨p, w, hRead, -, -⟩ := Workshop.read_of_compile hRun
    obtain ⟨⟨r, hResolve, hList, -⟩, -⟩ := Workshop.read_resolves hRead
    exact ⟨p.1, p.2, w, r, hRead, hResolve, hList⟩
  · intro before t after hMoments s₀ s₁ r hFirst hThen u hu u₁ r' hSecond
    obtain ⟨-, -, -, -, -, -, hPlain, -⟩ := hFirst.stood
    -- the course of the name, for a history that spares it as well as for one that does not
    let spared : Prop := s.EachCommand (Spares number name) moves
    let c := naming number name spared
    have hEach : s.EachCommand (fun command s' => spared → Spares number name command s')
        moves := by
      by_cases hSpared : spared
      · exact hSpared.imp fun _ _ h _ => h
      · exact .of_forall fun _ _ h => absurd h hSpared
    obtain ⟨hAll, hOrder⟩ := moments_pairwise (c := c) (naming_stepwise hPlain)
      (fun host who command s' hSpares hOk => report_naming hPlain host who command hSpares hOk)
      moves
      (hReached.atRest.numbers hAt) hEach
    rw [hMoments] at hAll hOrder
    have hLater : c.le t u := by
      rcases List.mem_cons.mp hu with rfl | hu
      · exact c.refl u
      · exact (List.pairwise_cons.mp (List.pairwise_append.mp hOrder).2.1).1 u hu
    obtain ⟨hEither, hSame⟩ := hFirst.same hThen hLater hSecond
    refine ⟨hEither, fun hCalm hSpared => ?_⟩
    obtain ⟨j, -, hj, -⟩ := hSecond.stood
    obtain ⟨k, hk, -⟩ := hLater j hj
    obtain ⟨i', hi', hFollows⟩ := hAll t (List.mem_append_right _ List.mem_cons_self) k hk
    obtain rfl : i = i' := Option.some.inj (hAt.symm.trans hi')
    exact hSame k hk hSpared (hFollows.templateless hCalm)

/-- What the names in a source are resolved to, if it can be compiled. -/
def Session.resolutions? (number : Nat) (request : Request) (s : Session) :
    Option (List (String × Variable)) :=
  match s.instance? number, onInstance number (Workshop.compile number request) s with
  | some _, .ok _ _ => some ((s.workshop number).resolutions request)
  | _, _ => none

private theorem compiles_of_resolutions? {number : Nat} {request : Request} {s : Session}
    {list : List (String × Variable)} (h : s.resolutions? number request = some list)
    {name : String} (hMem : (name, r) ∈ list) : ∃ s', Compiles number name r s s' := by
  unfold Session.resolutions? at h
  split at h
  · rename_i i a s' hi hCompile
    cases h
    exact ⟨s', i, request, a, hi, hCompile, hMem⟩
  · cases h

/-- A session with an artifact that calls a host function. -/
def callingSession : Session :=
  (Session.start none).obeyAll .mute "a"
    [.create "a" ⟨some [("q.f", .host "f" 0 1)], false, [], true, false⟩,
      .task "a" (.compile ⟨"q.f()", [], []⟩)]

def pairMove : Move := .command .mute "a" (.task "a" (.compile ⟨"v.n = [1, 2]", [], []⟩))

private theorem compiles_pairMove : ∃ s₁, Compiles 0 "n" ⟨"2$n", 2, 0⟩ callingSession s₁ ∧
    (callingSession.after pairMove).instance? 0 = s₁.instance? 0 := by
  have hNumber : callingSession.number? "a" = some 0 := by decide +kernel
  have hList : callingSession.resolutions? 0 ⟨"v.n = [1, 2]", [], []⟩ =
      some [("n", ⟨"2$n", 2, 0⟩)] := by decide +kernel
  obtain ⟨index, a, hCompiled⟩ := exists_artifact (r := (report .mute "a" (.task "a"
    (.compile ⟨"v.n = [1, 2]", [], []⟩)) callingSession).1) (by decide +kernel)
  obtain ⟨s₁, hCompile, hLook⟩ := compiled_of_report hNumber hCompiled
  obtain ⟨i, hi⟩ : ∃ i, callingSession.instance? 0 = some i :=
    Option.isSome_iff_exists.mp (by decide +kernel)
  unfold Session.resolutions? at hList
  rw [hi, hCompile] at hList
  have hMem : ("n", ⟨"2$n", 2, 0⟩) ∈
      (callingSession.workshop 0).resolutions ⟨"v.n = [1, 2]", [], []⟩ := by
    rw [Option.some.inj hList]
    exact List.mem_singleton.mpr rfl
  exact ⟨s₁, ⟨i, _, a, hi, hCompile, hMem⟩, hLook 0⟩

/-- The pair is assigned, another variable is asked for, and a host function reads the pair. -/
def readingBack (a : Artifact) : List Move :=
  [pairMove, .command .mute "a" (.task "a" (.declare "m" 1)),
    .evaluation (fun _ _ _ => .evaluate (.fresh ⟨"v.n", [], []⟩) [] fun _ => .give (.number 0)) 2 a
    []]

/-- The history has fifteen moments; from the second one on the name can be resolved, and is
resolved to the pair. -/
theorem pair_is_read_back : callingSession.Reached ∧ ∃ i a,
    callingSession.instance? 0 = some i ∧ i.Templateless ∧ some a ∈ callingSession.artifacts ∧
    callingSession.EachCommand (Spares 0 "n") (readingBack a) ∧
    ∃ t after, callingSession.moments (readingBack a) = [callingSession] ++ t :: after ∧
      after.length = 13 ∧ ∀ u ∈ t :: after,
        (∃ u₁ r', Compiles 0 "n" r' u u₁) ∧
        ∀ u₁ r', Compiles 0 "n" r' u u₁ → r' = ⟨"2$n", 2, 0⟩ := by
  have hReached : callingSession.Reached := reached_obeyAll "a" _ _
  obtain ⟨i, hi⟩ : ∃ i, callingSession.instance? 0 = some i :=
    Option.isSome_iff_exists.mp (by decide +kernel)
  have hCalm : ((callingSession.instance? 0).map fun i => i.queries.all (!·.2.isTemplate)) =
      some true := by decide +kernel
  have hTemplateless : i.Templateless := by
    rw [hi] at hCalm
    exact Instance.templateless_of_all (Option.some.inj hCalm)
  have hMoments : (callingSession.artifacts.head?.join.map fun a =>
      ((callingSession.moments (readingBack a)).drop 1).map (·.resolutions? 0 ⟨"v.n", [], []⟩)) =
      some (List.replicate 14 (some [("n", ⟨"2$n", 2, 0⟩)])) := by decide +kernel
  obtain ⟨a, ha, hLists⟩ := Option.map_eq_some_iff.mp hMoments
  have hSpares : callingSession.EachCommand (Spares 0 "n") (readingBack a) := by
    refine ⟨?_, ?_, ?_, trivial⟩
    · rintro host who command hMove owner size rfl
      cases hMove
    · rintro host who command hMove owner size rfl
      injection hMove with _ _ hCommand
      injection hCommand with _ hTask
      injection hTask with hName
      exact absurd hName (by decide)
    · exact fun _ who command hMove => nomatch hMove
  obtain ⟨s₁, hPair, hThen⟩ := compiles_pairMove
  obtain ⟨after, hAfter⟩ : ∃ after, callingSession.moments (readingBack a) =
      [callingSession] ++ callingSession.after pairMove :: after := ⟨_, rfl⟩
  rw [hAfter] at hLists
  have hLength := congrArg List.length hLists
  rw [List.length_map, List.length_replicate] at hLength
  refine ⟨hReached, i, a, hi, hTemplateless,
    List.mem_of_mem_head? (Option.join_eq_some_iff.mp ha), hSpares, _, after, hAfter,
    Nat.succ.inj hLength, fun u hu => ⟨?_, fun u₁ r' hCompiles => ?_⟩⟩
  · have hList := List.eq_of_mem_replicate (hLists ▸ List.mem_map_of_mem hu)
    obtain ⟨u₁, hCompiles⟩ := compiles_of_resolutions? hList (List.mem_singleton.mpr rfl)
    exact ⟨u₁, _, hCompiles⟩
  · exact ((source_names_keep_their_variables hReached hi "n" (readingBack a)).2 _ _ after
      hAfter _ _ _ hPair hThen u hu u₁ r' hCompiles).2 hTemplateless hSpares

/-- The pair is assigned, and then a variable is asked for by the exact name. -/
def askingExactly : List Move := [pairMove, .command .mute "a" (.task "a" (.declare "n" 1))]

/-- **A variable with the exact name hides the pair**: one name is resolved to two variables, one
behind the other. -/
theorem exact_name_hides_sized_variable : callingSession.Reached ∧
    ∃ t u, callingSession.moments askingExactly = [callingSession, t, u] ∧
      (∃ s₁, Compiles 0 "n" ⟨"2$n", 2, 0⟩ callingSession s₁ ∧ t.instance? 0 = s₁.instance? 0) ∧
      ∃ u₁, Compiles 0 "n" ⟨"n", 1, 2⟩ u u₁ := by
  have hList : ((callingSession.after pairMove).after
      (.command .mute "a" (.task "a" (.declare "n" 1)))).resolutions? 0 ⟨"v.n", [], []⟩ =
      some [("n", ⟨"n", 1, 2⟩)] := by decide +kernel
  exact ⟨reached_obeyAll "a" _ _, _, _, rfl, compiles_pairMove,
    compiles_of_resolutions? hList (List.mem_singleton.mpr rfl)⟩

end MolangCompiler
