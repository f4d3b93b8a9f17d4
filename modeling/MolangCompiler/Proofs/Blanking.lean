import MolangCompiler.Proofs.Images
import MolangCompiler.Proofs.Nesting
import MolangCompiler.Proofs.Stages

/-!
# Nothing inside an evaluation sees the shared buffer

While a routine runs on the shared buffer, nothing else reads that buffer: what is evaluated inside
gets a buffer of its own, and compiling only lengthens the shared one.  So a session may be blanked
before a host function is called (`Session.blanked`), and the call does the same as before, but for
the blanks.

This holds of every host function that does not look into the buffer itself, and does not ask for
the running artifact (`Deed.Impartial`).
-/

namespace MolangCompiler

/-! ## Routines that ask for a buffer first -/

/-- The routine of an artifact asks for its buffer before it does anything else. -/
def Artifact.Opens (a : Artifact) : Prop :=
  ∃ room rest, a.routine.body = .act (.acquire room) :: rest

/-- If the first or the second line asks for a buffer, the routine that the lines describe does so
before anything else. -/
theorem Routine.opens_of_lines {first rest : List (Nat × Line)} {level : Nat} {room : Int}
    {r : Routine} (hOne : first.length ≤ 1)
    (h : ofLines? (first ++ (level, .act (.acquire room)) :: rest) = some r) :
    ∃ steps, r.body = .act (.acquire room) :: steps := by
  unfold ofLines? at h
  cases first with
  | nil =>
    simp [absorb] at h
  | cons line others =>
    obtain rfl : others = [] :=
      List.eq_nil_of_length_eq_zero (Nat.le_zero.mp (Nat.le_of_succ_le_succ hOne))
    rw [List.singleton_append, List.foldr_cons, List.foldr_cons] at h
    generalize rest.foldr absorb [] = behind at h
    obtain ⟨k, line⟩ := line
    cases line with
    | act | onlyIf | otherwise => simp [absorb] at h
    | define name params =>
      by_cases hLevel : level = k + 1
      · subst hLevel
        simp only [absorb, takeBlock, if_true] at h
        split at h
        · rename_i hPieces
          cases h
          injection hPieces with hHead _
          injection hHead with _ hPiece
          injection hPiece with _ _ hBody
          exact ⟨_, hBody.symm⟩
        · cases h
      · simp [absorb, takeBlock, hLevel] at h

theorem Routine.acquire_of_write {name : String} {e : Expr} {args temps : Nat} {d : Draft}
    (h : write name e args temps (draft args temps) = .ok () d) :
    ∃ first level room rest, first.length ≤ 1 ∧
      d.listing.lines = first ++ (level, .act (.acquire room)) :: rest := by
  unfold write Writing.block at h
  dsimp only at h
  split at h
  case h_2 => cases h
  rename_i d' hBody
  cases h
  obtain ⟨header, d₁, hMark, hBody⟩ := bind_eq_ok.mp hBody
  cases hMark
  obtain ⟨output, d₂, -, hBody⟩ := bind_eq_ok.mp hBody
  obtain ⟨_, d₃, -, hBody⟩ := bind_eq_ok.mp hBody
  obtain ⟨_, d₄, -, hBody⟩ := bind_eq_ok.mp hBody
  obtain ⟨layout, d₅, -, hBody⟩ := bind_eq_ok.mp hBody
  obtain ⟨_, d₆, -, hAcquire⟩ := bind_eq_ok.mp hBody
  cases hAcquire
  -- the header is the only line before the place that was marked
  refine ⟨d₆.listing.lines.take (d₆.listing.place 1), d₆.listing.level, layout.layout.extent,
    d₆.listing.lines.drop (d₆.listing.place 1), ?_, rfl⟩
  rw [List.length_take]
  exact Nat.le_trans (Nat.min_le_left _ _) (Nat.min_le_left _ _)

/-- **What is compiled asks for its buffer first.** -/
theorem Artifact.opens_of_compile {home : Nat} {r : Request} {w w' : Workshop} {a : Artifact}
    (h : Workshop.compile home r w = .ok a w') : a.Opens := by
  obtain ⟨-, p, w₁, d, room, t, routine, -, hWrite, -, -, hLoad, rfl, -⟩ :=
    Workshop.compile_eq_ok.mp h
  obtain ⟨first, level, slots, rest, hOne, hLines⟩ := Routine.acquire_of_write hWrite
  have hRead := Routine.ofLines?_of_load hLoad
  rw [hLines] at hRead
  exact ⟨slots, Routine.opens_of_lines hOne hRead⟩

open Comparison

/-! ## Blanks in a shared buffer -/

def ScratchRoom.blanked (r : ScratchRoom) : ScratchRoom :=
  { r with scratch := { r.scratch with buffer := Array.replicate r.scratch.buffer.size 0 } }

/-- An instance whose shared buffer is filled with zeros. -/
def Instance.blanked (i : Instance) : Instance :=
  i.setBuffer (Array.replicate i.scratch.buffer.size 0)

/-- A workshop whose shared buffer is filled with zeros. -/
def Workshop.blanked (w : Workshop) : Workshop := { w with inst := w.inst.blanked }

namespace ScratchRoom

/-- Operations on scratch space that do not look into the shared buffer. -/
abbrev Heedless {α : Type} (x y : Act ScratchRoom α) : Prop := (through blanked (.any _)).Like x y

theorem charge_blanked (bytes : Int) : Heedless (charge bytes) (charge bytes) := by
  refine shadowing_onPart ?_ ?_ (shadowing_id _)
  · exact fun _ _ => ⟨rfl, trivial⟩
  · exact fun _ _ _ _ _ => ⟨rfl, trivial, trivial⟩

theorem ensure_blanked (slots : Int) : Heedless (ensure slots) (ensure slots) := by
  have hGrow (missing : Nat) : Heedless (grow missing) (grow missing) := by
    refine .bind (shadowing_modify fun r _ => ⟨?_, trivial, trivial⟩) fun _ =>
      shadowing_modify fun r _ => ⟨?_, trivial, trivial⟩
    · unfold blanked
      simp
    · unfold blanked
      simp
  refine shadowing_get fun r _ => ?_
  dsimp only [blanked]
  rw [Array.size_replicate]
  split
  · refine shadowing_get fun r' _ => ?_
    dsimp only [blanked]
    split
    · exact (charge_blanked _).bind fun _ => hGrow _
    · exact hGrow _
  · exact (through blanked (.any _)).pure trivial

theorem acquire_blanked (slots : Nat) (depth : Int) :
    Heedless (acquire slots depth) (acquire slots depth) := by
  unfold acquire
  split
  · exact (charge_blanked _).bind fun _ => (through blanked (.any _)).pure trivial
  · exact (through blanked (.any _)).pure trivial

theorem release_blanked (failed : Bool) (loan : Loan) :
    Heedless (modify (release failed loan) : Act ScratchRoom PUnit)
      (modify (release failed loan)) := by
  refine shadowing_modify fun r _ => ⟨?_, trivial, trivial⟩
  cases loan with
  | shared => rfl
  | own buffer charged =>
    dsimp only [release]
    rw [apply_ite blanked]
    rfl

end ScratchRoom

variable {α : Type}

namespace Workshop

variable {depth : Nat}

/-- Operations on an instance at a given depth that do not look into its shared buffer. -/
abbrev Heedless {α : Type} (depth : Nat) (x y : Act Workshop α) : Prop :=
  (through blanked (.holding fun w => w.inst.depth = depth)).Like x y

theorem onTenant_blanked (act : Act Tenant α) : Heedless depth (onTenant act) (onTenant act) := by
  refine shadowing_onPart ?_ ?_ (shadowing_id act)
  · exact fun _ _ => ⟨rfl, trivial⟩
  · exact fun _ _ hDepth _ _ => ⟨rfl, hDepth, trivial⟩

theorem onScratch_blanked {act : Act ScratchRoom α} (h : ScratchRoom.Heedless act act) :
    Heedless depth (onScratch act) (onScratch act) := by
  refine shadowing_onPart ?_ ?_ h
  · exact fun _ _ => ⟨rfl, trivial⟩
  · exact fun _ _ hDepth _ _ => ⟨rfl, hDepth, trivial⟩

theorem note_blanked (n : Note) : Heedless depth (note n) (note n) :=
  shadowing_modify fun _ hDepth => ⟨rfl, hDepth, trivial⟩

theorem read_blanked (r : Request) : Heedless depth (read r) (read r) := by
  refine shadowing_get fun w _ => shadowing_onPart ?_ ?_ (shadowing_id _)
  · exact fun _ _ => ⟨rfl, trivial⟩
  · exact fun _ _ hDepth _ _ => ⟨rfl, hDepth, trivial⟩

/-- **Compiling** does not look into the shared buffer. -/
theorem compile_blanked (home : Nat) (r : Request) :
    Heedless depth (compile home r) (compile home r) := by
  have hName : Heedless depth nextName nextName := by
    refine shadowing_get fun w _ => Like.bind
      (shadowing_modify fun w hDepth => ⟨?_, hDepth, trivial⟩) fun _ => ?_
    · rfl
    · exact (through blanked _).pure trivial
  unfold compile
  split
  · exact (through blanked _).throw _
  refine (read_blanked r).bind fun p => hName.bind fun name => ?_
  refine Like.bind ?_ fun d => ?_
  · unfold write
    split
    · exact (through blanked _).pure trivial
    · exact (through blanked _).throw _
  refine (onScratch_blanked (ScratchRoom.ensure_blanked _)).bind fun _ => ?_
  refine (onTenant_blanked _).bind fun _ => ?_
  cases Routine.load d.listing.lines with
  | error problem => exact (through blanked _).throw _
  | ok routine =>
    refine (note_blanked _).bind fun _ => shadowing_get fun w _ => ?_
    dsimp only [blanked, Instance.blanked, Instance.setBuffer]
    split
    · refine (note_blanked _).bind fun _ => (note_blanked _).bind fun _ => ?_
      exact (through blanked _).pure trivial
    · exact (note_blanked _).bind fun _ => (through blanked _).pure trivial

end Workshop

namespace Session

/-- A session in which the shared buffer of the instance with a number is filled with zeros. -/
def blanked (number : Nat) (s : Session) : Session :=
  s.changeInstance number fun _ => (s.workshop number).inst.blanked

variable {number home depth : Nat} {s : Session}

theorem changeInstance_twice (number : Nat) (f g : Instance → Instance) (s : Session) :
    (s.changeInstance number f).changeInstance number g =
      s.changeInstance number fun i => g (f i) := by
  unfold changeInstance
  rw [List.map_map]
  congr 2
  funext p
  by_cases hHere : (p.1 == number) = true
  · simp only [Function.comp_apply, if_pos hHere, beq_self_eq_true, if_true]
  · simp only [Function.comp_apply, if_neg hHere]

theorem changeInstance_comm {m n : Nat} (hOther : m ≠ n) (f g : Instance → Instance) (s : Session) :
    (s.changeInstance n f).changeInstance m g = (s.changeInstance m g).changeInstance n f := by
  unfold changeInstance
  rw [List.map_map, List.map_map]
  congr 2
  funext p
  by_cases hm : p.1 = m
  · have hn : ¬ (p.1 = n) := fun hn => hOther (hm.symm.trans hn)
    simp only [Function.comp_apply, beq_iff_eq, if_neg hn, if_pos hm, if_neg hOther]
  · by_cases hn : p.1 = n
    · simp only [Function.comp_apply, beq_iff_eq, if_pos hn, if_neg hm, if_neg (Ne.symm hOther)]
    · simp only [Function.comp_apply, beq_iff_eq, if_neg hn, if_neg hm]

theorem changeInstance_of_none (h : s.instance? number = none) (f : Instance → Instance) :
    s.changeInstance number f = s := by
  have hOther : ∀ p ∈ s.instances, (p.1 == number) = false := by
    intro p hp
    exact Bool.eq_false_iff.mpr (List.find?_eq_none.mp (Option.map_eq_none_iff.mp h) p hp)
  have hSame : s.instances.map (fun p => if p.1 == number then (number, f p.2) else p) =
      s.instances := by
    refine (List.map_congr_left fun p hp => ?_).trans (List.map_id s.instances)
    rw [hOther p hp]
    rfl
  unfold changeInstance
  rw [hSame]

theorem workshop_changeInstance_of_ne {n : Nat} (hOther : home ≠ n) (f : Instance → Instance)
    (s : Session) : ((s.changeInstance n f).workshop home) = s.workshop home := by
  unfold workshop
  rw [instance?_changeInstance, if_neg hOther]
  rfl

variable {f : Instance → Instance}

theorem changeInstance_blanked (h : home = number → ∀ i : Instance, f i.blanked = (f i).blanked)
    (s : Session) :
    (s.blanked number).changeInstance home f = (s.changeInstance home f).blanked number := by
  unfold blanked
  by_cases hHere : home = number
  · subst hHere
    cases hAt : s.instance? home with
    | none =>
      rw [changeInstance_of_none hAt, changeInstance_of_none hAt, changeInstance_of_none hAt]
    | some i =>
      have hAfter : (s.changeInstance home f).instance? home = some (f i) := by
        rw [instance?_changeInstance, if_pos rfl, hAt]
        rfl
      rw [changeInstance_twice, changeInstance_twice, workshop_inst hAt, workshop_inst hAfter,
        h rfl i]
  · rw [workshop_changeInstance_of_ne (.symm hHere)]
    exact changeInstance_comm hHere _ _ s

theorem workshop_blanked_of_ne (hOther : home ≠ number) (s : Session) :
    (s.blanked number).workshop home = s.workshop home :=
  workshop_changeInstance_of_ne hOther _ s

theorem workshop_blanked (number : Nat) (s : Session) :
    (s.blanked number).workshop number = (s.workshop number).blanked := by
  unfold workshop blanked
  rw [instance?_changeInstance, if_pos rfl]
  cases hAt : s.instance? number with
  | none => rfl
  | some i =>
    rw [workshop_inst hAt]
    rfl

theorem setWorkshop_blanked (number : Nat) (w : Workshop) (s : Session) :
    (s.blanked number).setWorkshop number w.blanked = (s.setWorkshop number w).blanked number := by
  let t : Session := { s with books := (s.setWorkshop number w).books }
  have hLeft : (s.blanked number).setWorkshop number w.blanked =
      (t.changeInstance number fun _ => (s.workshop number).inst.blanked).changeInstance number
        fun _ => w.inst.blanked := rfl
  have hRight : (s.setWorkshop number w).blanked number =
      (t.changeInstance number fun _ => w.inst).changeInstance number
        fun _ => ((s.setWorkshop number w).workshop number).inst.blanked := rfl
  rw [hLeft, hRight]
  cases hAt : s.instance? number with
  | none =>
    have hNone : t.instance? number = none := hAt
    rw [changeInstance_of_none hNone, changeInstance_of_none hNone, changeInstance_of_none hNone,
      changeInstance_of_none hNone]
  | some i =>
    have hAfter : (s.setWorkshop number w).instance? number = some w.inst := by
      rw [instance?_setWorkshop, if_pos rfl, hAt]
      rfl
    rw [changeInstance_twice, changeInstance_twice, workshop_inst hAfter]

theorem setWorkshop_blanked_of_ne (hOther : home ≠ number) (w : Workshop) (s : Session) :
    (s.blanked number).setWorkshop home w = (s.setWorkshop home w).blanked number := by
  let t : Session := { s with books := (s.setWorkshop home w).books }
  have hSame : ((s.setWorkshop home w).workshop number).inst = (s.workshop number).inst := by
    have hLook := instance?_setWorkshop s home number w
    rw [if_neg (Ne.symm hOther)] at hLook
    exact congrArg (fun i? : Option Instance => i?.getD default) hLook
  unfold blanked
  rw [hSame]
  exact changeInstance_comm hOther (fun _ => (s.workshop number).inst.blanked) (fun _ => w.inst) t

/-! ### Sessions in which an instance is evaluated -/

/-- The instance with a number is evaluated at a given depth, and all artifacts ask for their buffer
first. -/
structure Engaged (number depth : Nat) (s : Session) : Prop where
  here : ∃ i, s.instance? number = some i ∧ i.depth = depth
  opens : ∀ a, some a ∈ s.artifacts → a.Opens

theorem Engaged.change (h : s.Engaged number depth) {s' : Session} {depth' : Nat}
    (hLook : ∀ n, s'.instance? n = if n = home then (s.instance? home).map f else s.instance? n)
    (hArtifacts : s'.artifacts = s.artifacts)
    (hHere : home = number → ∀ i : Instance, i.depth = depth → (f i).depth = depth')
    (hElsewhere : home ≠ number → depth' = depth) : s'.Engaged number depth' := by
  obtain ⟨i, hAt, hDepth⟩ := h.here
  refine ⟨?_, hArtifacts ▸ h.opens⟩
  rw [hLook]
  by_cases hSame : number = home
  · subst hSame
    exact ⟨f i, by rw [if_pos rfl, hAt]; rfl, hHere rfl i hDepth⟩
  · rw [if_neg hSame, hElsewhere (.symm hSame)]
    exact ⟨i, hAt, hDepth⟩

theorem Engaged.changeInstance (h : s.Engaged number depth)
    (hDepth : home = number → ∀ i : Instance, (f i).depth = i.depth) :
    (s.changeInstance home f).Engaged number depth :=
  h.change (instance?_changeInstance s home · f) rfl (fun hHere i hi => (hDepth hHere i).trans hi)
    fun _ => rfl

theorem Engaged.setWorkshop (h : s.Engaged number depth) {w : Workshop}
    (hDepth : home = number → w.inst.depth = depth) : (s.setWorkshop home w).Engaged number depth :=
  h.change (instance?_setWorkshop s home · w) rfl (fun hHere _ _ => hDepth hHere) fun _ => rfl

/-- Operations that do not look into the shared buffer of an instance that is evaluated at a given
depth. -/
abbrev Heedless {α : Type} (number depth : Nat) (x y : Act Session α) : Prop :=
  (through (blanked number) (.holding (Engaged number depth))).Like x y

theorem onInstance_blanked {act : Act Workshop α} (h : Workshop.Heedless depth act act)
    (home : Nat) : Heedless number depth (onInstance home act) (onInstance home act) := by
  by_cases hHere : home = number
  · subst hHere
    refine shadowing_onPart ?_ ?_ h
    · intro s hEngaged
      obtain ⟨i, hAt, hDepth⟩ := hEngaged.here
      exact ⟨workshop_blanked home s, (congrArg Instance.depth (workshop_inst hAt)).trans hDepth⟩
    · intro w s hEngaged hDepth _
      exact ⟨setWorkshop_blanked home w s, hEngaged.setWorkshop fun _ => hDepth, trivial⟩
  · refine shadowing_onPart ?_ ?_ (shadowing_id act)
    · exact fun s _ => ⟨workshop_blanked_of_ne hHere s, trivial⟩
    · intro w s hEngaged _ _
      exact ⟨setWorkshop_blanked_of_ne hHere w s,
        hEngaged.setWorkshop fun hSame => absurd hSame hHere, trivial⟩

theorem record_blanked (e : HostEvent) : Heedless number depth (record e) (record e) :=
  shadowing_modify fun _ hEngaged => ⟨rfl, ⟨hEngaged.here, hEngaged.opens⟩, trivial⟩

theorem compile_blanked (home : Nat) (r : Request) :
    (through (blanked number) (.holding (Engaged number depth))).rel Artifact.Opens
      (onInstance home (Workshop.compile home r)) (onInstance home (Workshop.compile home r)) := by
  refine shadowing_result (onInstance_blanked (Workshop.compile_blanked home r) home) fun hRun => ?_
  obtain ⟨w, hCompile, -⟩ := onPart_eq_ok.mp hRun
  exact Artifact.opens_of_compile hCompile

/-- **What a host function does on its instance** does not depend on the shared buffer. -/
theorem chore_blanked (home : Nat) (chore : Chore) :
    Heedless number depth (chore.act home) (chore.act home) := by
  have hPure {α : Type} (a : α) : Heedless number depth (Pure.pure a) (Pure.pure a) :=
    (through (blanked number) (.holding (Engaged number depth))).pure trivial
  cases chore with
  | compile request =>
    refine Comparison.bind _ (compile_blanked home request) fun a hOpens => ?_
    refine Like.bind (shadowing_get fun s _ => Like.bind (shadowing_modify fun s hEngaged => ?_)
      fun _ => hPure _) fun _ => hPure _
    refine ⟨rfl, ⟨hEngaged.here, fun b hb => ?_⟩, trivial⟩
    rcases List.mem_append.mp hb with hOld | hNew
    · exact hEngaged.opens b hOld
    · cases List.mem_singleton.mp hNew
      exact hOpens
  | set | get =>
    exact .bind (onInstance_blanked (Workshop.onTenant_blanked _) home) fun _ => hPure _
  | record event => exact (record_blanked event).bind fun _ => hPure _
  | settle =>
    refine .bind (shadowing_modify fun s hEngaged => ?_) fun _ => hPure _
    exact ⟨rfl, ⟨hEngaged.here, hEngaged.opens⟩, trivial⟩

theorem find_blanked (target : Target) (hOther : target ≠ .running) (current : Artifact) :
    (through (blanked number) (.holding (Engaged number depth))).rel Artifact.Opens
      (target.find current) (target.find current) := by
  cases target with
  | running => exact absurd rfl hOther
  | fresh request => exact compile_blanked current.home request
  | kept index =>
    show (through (blanked number) (.holding (Engaged number depth))).rel Artifact.Opens
      (artifact index) (artifact index)
    unfold artifact
    split
    · exact (through _ _).throw _
    refine shadowing_get fun s hEngaged => ?_
    have hSame : (s.blanked number).artifacts = s.artifacts := rfl
    rw [hSame]
    split
    · rename_i a hFound
      exact (through _ _).pure (hEngaged.opens a (List.mem_of_getElem? hFound))
    · exact (through _ _).throw _

/-! ## Evaluations inside an evaluation -/

def World.blanked (number : Nat) (w : World) : World :=
  { w with session := w.session.blanked number }

/-- A routine that does not run on the shared buffer of the instance that is evaluated around it. -/
structure World.Apart (number home depth : Nat) (w : World) : Prop where
  engaged : w.session.Engaged number depth
  own : home = number → ∃ buffer charged, w.loan = .own buffer charged

theorem storeOf_kept (number home depth : Nat) : (storeOf home).Kept (storeOf home)
    (World.blanked number) (.holding (World.Apart number home depth)) := by
  refine ⟨fun w _ => ?_, fun xs w hApart => ⟨?_, ⟨?_, hApart.own⟩, trivial⟩⟩
  · show ((w.session.blanked number).workshop home).inst.space.store = _
    by_cases hHere : home = number
    · subst hHere
      rw [workshop_blanked]
      rfl
    · rw [workshop_blanked_of_ne hHere]
      rfl
  · exact congrArg (World.mk · w.loan)
      (changeInstance_blanked (f := (·.setStore xs)) (fun _ _ => rfl) w.session)
  · exact hApart.engaged.changeInstance fun _ _ => rfl

theorem bufferOf_kept (number home depth : Nat) : (bufferOf home).Kept (bufferOf home)
    (World.blanked number) (.holding (World.Apart number home depth)) := by
  refine ⟨fun w hApart => ?_, fun xs w hApart => ?_⟩
  · obtain ⟨s, loan⟩ := w
    cases loan with
    | own buf charged => rfl
    | shared =>
      have hHere : home ≠ number := fun hSame => by
        obtain ⟨_, _, hOwn⟩ := hApart.own hSame
        cases hOwn
      show ((s.blanked number).workshop home).inst.scratch.buffer = _
      rw [workshop_blanked_of_ne hHere]
      rfl
  · obtain ⟨s, loan⟩ := w
    cases loan with
    | own buf charged => exact ⟨rfl, ⟨hApart.engaged, fun _ => ⟨_, _, rfl⟩⟩, trivial⟩
    | shared =>
      have hHere : home ≠ number := fun hSame => by
        obtain ⟨_, _, hOwn⟩ := hApart.own hSame
        cases hOwn
      refine ⟨?_, ⟨?_, fun hSame => absurd hSame hHere⟩, trivial⟩
      · exact congrArg (World.mk · .shared)
          (changeInstance_blanked (f := (·.setBuffer xs)) (fun hSame => absurd hSame hHere) s)
      · exact hApart.engaged.changeInstance fun hSame => absurd hSame hHere

section

variable {call : Calls} {deep : Nat}

theorem acquire_blanked (hDeep : home = number → 1 < deep) (slots : Nat) {w : World}
    (h : w.session.Engaged number depth) :
    Shadows (World.blanked number) (fun _ => False) (fun _ w' => w'.Apart number home depth)
      (fun w' => w'.session.Engaged number depth ∧ w'.loan = w.loan)
      ((machine home deep call).acquire slots w)
      ((machine home deep call).acquire slots (w.blanked number)) := by
  have hOwn {s s' : Session} {loan : Loan}
      (hRun : onInstance home (Workshop.onScratch (ScratchRoom.acquire slots deep)) s = .ok loan s')
      (hHere : home = number) : ∃ buf charged, loan = .own buf charged := by
    obtain ⟨w', hScratch, -⟩ := onPart_eq_ok.mp hRun
    obtain ⟨r, hAcquire, -⟩ := onPart_eq_ok.mp hScratch
    obtain ⟨-, -, hLoan⟩ := (ScratchRoom.acquire_keeps slots deep _).of_ok trivial hAcquire
    rcases hLoan with ⟨-, hShallow⟩ | ⟨charged, hLoan⟩
    · exact absurd (hDeep hHere) (Nat.not_lt.mpr hShallow)
    · exact ⟨_, charged, hLoan⟩
  have hScratch : Heedless number depth _ _ :=
    onInstance_blanked (Workshop.onScratch_blanked (ScratchRoom.acquire_blanked slots deep)) home
  have hShadows := hScratch w.session h
  show Shadows _ _ _ _ (World.lent w.loan (onInstance home _ w.session))
    (World.lent w.loan (onInstance home _ (w.session.blanked number)))
  generalize hRun : onInstance home _ w.session = out at hShadows ⊢
  generalize onInstance home _ (w.session.blanked number) = out' at hShadows ⊢
  cases hShadows with
  | ok hDone => exact .ok ⟨hDone.1, hOwn hRun⟩
  | error hFailed => exact .error ⟨hFailed.1, rfl⟩
  | excused hNever => exact hNever.elim

theorem machine_blanked (hDeep : home = number → 1 < deep)
    (hCall : ∀ f xs, Heedless number depth (call f xs) (call f xs)) :
    (machine home deep call).Compared
      (through (World.blanked number) (.holding (World.Apart number home depth)))
      (machine home deep call) := by
  have hStore := storeOf_kept number home depth
  have hBuffer := bufferOf_kept number home depth
  refine ⟨hStore.read, hStore.write, hStore.readMany, hStore.writeMany, fun f xs => ?_,
    fun slots w hApart => ?_, hBuffer.write, hBuffer.readMany, hBuffer.writeMany⟩
  · refine shadowing_onPart ?_ ?_ (hCall f xs)
    · exact fun w hApart => ⟨rfl, hApart.engaged⟩
    · exact fun s w hApart hEngaged _ => ⟨rfl, ⟨hEngaged, hApart.own⟩, trivial⟩
  · refine (acquire_blanked hDeep slots hApart.engaged).mono ?_ ?_
    · exact fun _ w' hApart' => ⟨hApart', trivial, trivial⟩
    · exact fun w' hFailed => ⟨⟨hFailed.1, hFailed.2 ▸ hApart.own⟩, trivial⟩

end

end Session

theorem Routine.run_opening {σ : Type} (m : Machine σ) {r : Routine} {room : Int} {rest : List Step}
    (h : r.body = .act (.acquire room) :: rest) (args : List Float) :
    r.run m args =
      (m.acquire room.toNat >>= fun _ => (⟨r.name, r.params, rest⟩ : Routine).run m args) := by
  funext w
  cases hAcquire : m.acquire room.toNat w with
  | ok _ w' =>
    have hFirst : (Step.act (.acquire room)).run m ⟨fun i => args[i]?, w⟩ =
        .ok .goOn ⟨fun i => args[i]?, w'⟩ := bind_of_ok (onPart_of_ok hAcquire)
    rw [bind_of_ok hAcquire]
    unfold run
    rw [h, Step.runAll_cons, bind_of_ok hFirst]
    rfl
  | error e w' =>
    have hFirst : (Step.act (.acquire room)).run m ⟨fun i => args[i]?, w⟩ =
        .error e ⟨fun i => args[i]?, w'⟩ := bind_of_error (onPart_of_error hAcquire)
    rw [bind_of_error hAcquire]
    unfold run
    rw [h, Step.runAll_cons, bind_of_error hFirst]

namespace Session

variable {number home depth : Nat} {s : Session}

section

variable {call : Calls} {deep : Nat} {a : Artifact}

theorem run_blanked (hDeep : a.home = number → 1 < deep) (hOpens : a.Opens)
    (hCall : ∀ f xs, Heedless number depth (call f xs) (call f xs)) (args : List Float)
    (h : s.Engaged number depth) :
    Shadows (World.blanked number) (fun _ => False) (fun _ w => w.Apart number a.home depth)
      (fun w => w.session.Engaged number depth)
      (a.routine.run (machine a.home deep call) args ⟨s, .shared⟩)
      (a.routine.run (machine a.home deep call) args ⟨s.blanked number, .shared⟩) := by
  obtain ⟨room, rest, hBody⟩ := hOpens
  rw [Routine.run_opening _ hBody]
  refine .bind ((acquire_blanked hDeep room.toNat (w := ⟨s, .shared⟩) h).mono
    (fun _ _ hDone => hDone) fun w hFailed => hFailed.1) fun _ w hApart => ?_
  exact (Routine.run_compared (machine_blanked hDeep hCall) _ args w hApart).mono
    (fun _ _ hDone => hDone.1) fun _ hFailed => hFailed.1.engaged

theorem close_blanked (failed : Bool) {w : World} (h : w.session.Engaged number depth)
    (home : Nat) : (w.blanked number).close failed home = (w.close failed home).blanked number ∧
      (w.close failed home).Engaged number depth := by
  have hScratch : Heedless number depth _ _ :=
    onInstance_blanked (Workshop.onScratch_blanked (ScratchRoom.release_blanked failed w.loan)) home
  have hShadows := hScratch w.session h
  unfold World.close World.blanked
  generalize onInstance home _ w.session = out at hShadows ⊢
  generalize onInstance home _ (w.session.blanked number) = out' at hShadows ⊢
  cases hShadows with
  | ok hDone => exact ⟨rfl, hDone.1⟩
  | error hFailed => exact ⟨rfl, hFailed.1⟩
  | excused hNever => exact hNever.elim

theorem runRoutine_blanked (hDeep : a.home = number → 1 < deep) (hOpens : a.Opens)
    (hCall : ∀ f xs, Heedless number depth (call f xs) (call f xs)) (args : List Float) :
    Heedless number depth (runRoutine a deep call args) (runRoutine a deep call args) := by
  intro s h
  have hRun := run_blanked hDeep hOpens hCall args h
  unfold runRoutine
  generalize a.routine.run _ args (⟨s, .shared⟩ : World) = out at hRun ⊢
  generalize a.routine.run _ args (⟨s.blanked number, .shared⟩ : World) = out' at hRun ⊢
  cases hRun with
  | ok hApart =>
    obtain ⟨hClose, hEngaged⟩ := close_blanked false hApart.engaged a.home
    dsimp only
    rw [(bufferOf_kept number a.home depth).get _ hApart]
    exact .ok_of hClose ⟨hEngaged, trivial, trivial⟩
  | error hEngaged' =>
    obtain ⟨hClose, hEngaged⟩ := close_blanked true hEngaged' a.home
    exact .error_of hClose ⟨hEngaged, trivial⟩
  | excused hNever => exact hNever.elim

/-- **An evaluation inside an evaluation** does not depend on the shared buffer of the one around
it, if the calls of host functions do not. -/
theorem evaluateWith_blanked (hOpens : a.Opens) (hRunning : 0 < depth)
    (hCall : ∀ depth, 0 < depth → ∀ f xs, Heedless number depth (call f xs) (call f xs))
    (args : List Float) :
    Heedless number depth (evaluateWith call a args) (evaluateWith call a args) := by
  intro s h
  by_cases hArgs : args.length ≠ a.args
  · rw [evaluateWith_of_length_ne hArgs, evaluateWith_of_length_ne hArgs]
    exact .error ⟨h, trivial⟩
  let inner := if a.home = number then depth + 1 else depth
  have hChange (g : Nat → Nat) (t : Session) :
      (t.blanked number).changeDepth a.home g = (t.changeDepth a.home g).blanked number :=
    changeInstance_blanked (f := fun i => { i with depth := g i.depth }) (fun _ _ => rfl) t
  have hEnter : (s.changeDepth a.home (· + 1)).Engaged number inner := by
    refine h.change (instance?_changeDepth s a.home · _) rfl ?_ ?_
    · intro hHere i hi
      rw [show inner = depth + 1 from if_pos hHere, ← hi]
    · exact fun hOther => if_neg hOther
  have hLeave {t : Session} (ht : t.Engaged number inner) :
      (t.changeDepth a.home (· - 1)).Engaged number depth := by
    refine ht.change (instance?_changeDepth t a.home · _) rfl ?_ ?_
    · intro hHere i hi
      rw [hi, show inner = depth + 1 from if_pos hHere, Nat.add_sub_cancel]
    · exact fun hOther => (if_neg hOther).symm
  have hInner : 0 < inner := by
    show 0 < if a.home = number then depth + 1 else depth
    split
    · exact Nat.succ_pos depth
    · exact hRunning
  have hDepth : (((s.changeDepth a.home (· + 1)).blanked number).workshop a.home).inst.depth =
      ((s.changeDepth a.home (· + 1)).workshop a.home).inst.depth := by
    by_cases hHere : a.home = number
    · rw [← hHere, workshop_blanked]
      rfl
    · rw [workshop_blanked_of_ne hHere]
  have hDeep : a.home = number →
      1 < ((s.changeDepth a.home (· + 1)).workshop a.home).inst.depth := by
    intro hHere
    obtain ⟨i, hAt, hi⟩ := hEnter.here
    rw [hHere, workshop_inst (hHere ▸ hAt), hi, show inner = depth + 1 from if_pos hHere]
    exact Nat.succ_lt_succ hRunning
  rw [evaluateWith_of_length (not_not.mp hArgs), evaluateWith_of_length (not_not.mp hArgs), hChange,
    hDepth]
  refine .followedBy ((runRoutine_blanked hDeep hOpens (hCall inner hInner) (args.map single) _
    hEnter).mono ?_ ?_)
  · exact fun _ t hDone => ⟨hChange _ t, hLeave hDone.1, trivial, trivial⟩
  · exact fun t hFailed => ⟨hChange _ t, hLeave hFailed.1, trivial⟩

end

end Session

/-! ## Host functions -/

/-- A program that neither looks into the shared buffer of the instance with a number, nor asks for
the running artifact. -/
def Deed.Impartial (number : Nat) : Deed → Prop
  | .give _ | .fail _ => True
  | .look next =>
    (∀ s : Session, next (s.blanked number) = next s) ∧ ∀ s, (next s).Impartial number
  | .work _ next => ∀ r, (next r).Impartial number
  | .evaluate target _ next => target ≠ .running ∧ ∀ r, (next r).Impartial number

/-- Host functions whose programs do not see the shared buffer of the instance with a number. -/
def Host.Impartial (number : Nat) (host : Host) : Prop :=
  ∀ home key args, (host home key args).Impartial number

namespace Session

variable {number depth : Nat}

/-- **Impartial programs** do the same in a blanked session. -/
theorem perform_blanked {evaluate : Evaluator}
    (hEvaluate : ∀ a, a.Opens → ∀ args, Heedless number depth (evaluate a args) (evaluate a args))
    (current : Artifact) {d : Deed} (h : d.Impartial number) :
    Heedless number depth (d.perform .plain evaluate current)
      (d.perform .plain evaluate current) := by
  induction d with
  | give value => exact (through _ _).pure trivial
  | fail failure => exact (through _ _).throw _
  | look next ih =>
    refine shadowing_get fun s _ => ?_
    rw [h.1]
    exact ih s (h.2 s)
  | work chore next ih =>
    exact .bind (through_attempt (chore_blanked current.home chore)) fun r => ih r (h r)
  | evaluate target args next ih =>
    refine .bind (through_attempt (p := fun _ => True) ?_) fun r => ih r (h.2 r)
    exact Comparison.bind _ (find_blanked target h.1 current)
      fun a hOpens => hEvaluate a hOpens args

/-- **Calls of impartial host functions** do the same in a blanked session, whatever they evaluate.
-/
theorem callDeed_blanked {host : Host} (h : host.Impartial number) (limit : Nat)
    (hRunning : 0 < depth) (current : Artifact) (f : String) (xs : List Float) :
    Heedless number depth (callDeed host (hosted host limit) current f xs)
      (callDeed host (hosted host limit) current f xs) := by
  have hHosted : ∀ limit depth, 0 < depth → ∀ a : Artifact, a.Opens → ∀ args,
      Heedless number depth (hosted host limit a args) (hosted host limit a args) := by
    intro limit
    induction limit with
    | zero => exact fun depth _ a _ args => (through _ _).throw _
    | succ limit ih =>
      intro depth hDepth a hOpens args
      refine evaluateWith_blanked hOpens hDepth (fun depth hDepth f xs => ?_) args
      exact (record_blanked _).bind fun _ => perform_blanked (ih depth hDepth) a (h a.home f xs)
  exact (record_blanked _).bind fun _ =>
    perform_blanked (hHosted limit depth hRunning) current (h current.home f xs)

theorem callDeed_eq {host : Host} (h : host.Impartial number)
    (evaluate : Evaluator) {a b : Artifact}
    (hHome : b.home = a.home) : callDeed host evaluate b = callDeed host evaluate a := by
  have hPerform {d : Deed} (hd : d.Impartial number) :
      d.perform .plain evaluate b = d.perform .plain evaluate a := by
    induction d with
    | give | fail => rfl
    | look next ih =>
      unfold Deed.perform
      simp only [fun s => ih s (hd.2 s)]
    | work chore next ih =>
      unfold Deed.perform
      simp only [hHome, fun r => ih r (hd r)]
    | evaluate target args next ih =>
      unfold Deed.perform
      have hFind : target.find b = target.find a := by
        cases target with
        | kept index => rfl
        | running => exact absurd rfl hd.1
        | fresh request =>
          unfold Target.find
          rw [hHome]
      simp only [hFind, fun r => ih r (hd.2 r)]
  funext f xs
  unfold callDeed Manner.callDeed
  rw [hHome, hPerform (h a.home f xs)]

end Session

end MolangCompiler
