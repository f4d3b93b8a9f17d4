import MolangCompiler.Proofs.Shared

/-!
# Code without host functions cannot fail

On an instance that offers only the default queries and constants, whatever can be read can be
written, and whatever is loaded can be evaluated: with as many arguments as there are context
values, an artifact returns its values, now and in every later session.  All of this is known when
the artifact is compiled: its routine is checked against the cursor and the room at that time, and
instances only grow.
-/

namespace MolangCompiler

/-! ## Queries without host functions -/

/-- A default query, or a constant. -/
def Query.Plain (q : Query) : Prop :=
  (∃ key, (key, q) ∈ defaults) ∨ ∃ values, q = .constant values

/-- Whether a query calls nothing but helpers, with as many numbers as they take. -/
def Query.fits : Query → Bool
  | .helper name arity => (Helper.ofName? name).all (·.arity == arity)
  | .constant _ | .clamp | .lerp => true
  | .host .. | .template .. => false

theorem Query.obeys_of_fits {q : Query} (h : q.fits = true) : q.Obeys .plain := by
  cases q with
  | helper name arity =>
    intro helper hName
    change (Helper.ofName? name).all (·.arity == arity) = true at h
    rw [hName] at h
    exact (beq_iff_eq.mp h).symm
  | constant values => trivial
  | clamp => exact ⟨rfl, rfl⟩
  | lerp => trivial
  | host | template => cases h

theorem Query.defaults_fit : Query.defaults.all (·.2.fits) = true := by decide

/-- **The default queries** give every helper as many numbers as it takes. -/
theorem Query.Plain.obeys {q : Query} (h : q.Plain) : q.Obeys .plain := by
  rcases h with ⟨key, hMem⟩ | ⟨values, rfl⟩
  · exact obeys_of_fits (List.all_eq_true.mp defaults_fit _ hMem)
  · trivial

/-! ## Routines that keep to their limits -/

namespace Session

variable {m : Nat} {s : Session} {a : Artifact}

/-- **The machine of an instance serves checked routines**, and changes no length. -/
theorem machine_serves {depth room slots returns stored size : Nat} (hSlots : slots ≤ stored)
    (hRoom : room ≤ size) (call : Calls) :
    (machine m depth call).Maintains (.strict .plain room slots returns)
      (Steady m stored size) (fun _ => False) where
  readVariable {slot} hSlot {w} h := by
    change slot < slots at hSlot
    show Ends _ _ ((storeOf m).read slot w)
    unfold Slots.read
    rw [Array.getElem?_eq_getElem (by rw [h.size_store]; omega)]
    exact .ok h
  writeVariable {slot} hSlot x {w} h := by
    change slot < slots at hSlot
    show Ends _ _ ((storeOf m).write slot x w)
    unfold Slots.write
    rw [setSlot?_eq_some (by rw [h.size_store]; omega)]
    exact .ok (h.putStore (by rw [Array.size_setIfInBounds, h.size_store]))
  call hHost := absurd hHost id
  writeSlot {slot} hSlot x {w} h := by
    obtain ⟨first, count, ⟨hLow, hHigh⟩, hFrom, hTo⟩ := hSlot
    show Ends _ _ ((bufferOf m).write slot x w)
    unfold Slots.write
    rw [setSlot?_eq_some (by rw [h.size_buffer]; omega)]
    exact .ok (h.putBuffer (by rw [Array.size_setIfInBounds, h.size_buffer]))
  load {slot offset count} hSlot hSpan {w} h := by
    obtain ⟨hLow, hHigh⟩ : 0 ≤ slot ∧ slot + count ≤ room := hSlot
    change offset + count ≤ slots at hSpan
    have hRead : (slice ((storeOf m).get w) offset (offset + count)).size = count :=
      size_slice (by rw [h.size_store]; omega)
    exact .ok (h.putBuffer (by
      rw [size_splice (by rw [h.size_buffer]; omega) hRead, h.size_buffer]))
  store {slot offset count} hSpan hSlot {w} h := by
    obtain ⟨hLow, hHigh⟩ : 0 ≤ slot ∧ slot + count ≤ room := hSlot
    change offset + count ≤ slots at hSpan
    have hRead : (slice ((bufferOf m).get w) slot.toNat (slot.toNat + count)).size = count :=
      size_slice (by rw [h.size_buffer]; omega)
    exact .ok (h.putStore (by
      rw [size_splice (by rw [h.size_store]; omega) hRead, h.size_store]))

theorem acquire_succeeds {stored size : Nat} {w : World} (h : Steady m stored size w)
    (room : Nat) (call : Calls) :
    Ends (fun _ w' => Steady m stored size w') (fun _ => False)
      ((machine m 1 call).acquire room w) := by
  exact .ok (h.of_same (instance?_setWorkshop_self w.session m m))

/-- **A strictly checked artifact can be evaluated** on an idle instance, and leaves the lengths of
the store and of the shared buffer as they were. -/
theorem evaluateWith_succeeds {i : Instance} (hAt : s.instance? a.home = some i)
    (hIdle : i.depth = 0) (hSound : i.space.Sound) (hExact : a.Exact .plain i) {args : List Float}
    (hArgs : args.length = a.args) (call : Calls) :
    ∃ xs s' i', evaluateWith call a args s = .ok xs s' ∧ xs.length = a.returns ∧
      s'.instance? a.home = some i' ∧ i'.space.store.size = i.space.store.size ∧
      i'.scratch.buffer.size = i.scratch.buffer.size := by
  obtain ⟨room, slots, hChecked, hSlots, hRoom⟩ := hExact
  have hStart : Steady a.home i.space.store.size i.scratch.buffer.size
      ⟨s.changeDepth a.home (· + 1), .shared⟩ := ⟨rfl, _, instance?_raised hAt, rfl, rfl⟩
  have hLength : (args.map single).length = a.args := by rw [List.length_map, hArgs]
  have hServes : (machine a.home 1 call).Maintains (.strict .plain room slots a.returns)
      (Steady a.home i.space.store.size i.scratch.buffer.size) fun _ => False :=
    machine_serves (Nat.le_trans hSlots hSound.cursor_le) hRoom call
  -- all locals are set that the check relies on, so nothing is left that could fail
  have hGiven : (Facts.start a.args).Hold fun i => (args.map single)[i]? := fun i hi =>
    Option.isSome_iff_exists.mpr ⟨_, List.getElem?_eq_getElem (hLength ▸ hi)⟩
  obtain ⟨_, w, hRun, hSteady⟩ := (Routine.run_maintains hServes hChecked
    (acquire_succeeds hStart room call) _ (.inr ⟨rfl, hGiven⟩)).exists_ok
  obtain ⟨j, hj, hStored, hBuffer⟩ := hSteady.here
  refine ⟨(slice ((bufferOf a.home).get w) 0 a.returns).toList,
    (w.close false a.home).changeDepth a.home (· - 1), { j with depth := j.depth - 1 }, ?_, ?_, ?_,
    hStored, hBuffer⟩
  · rw [evaluateWith_idle hAt hIdle hArgs]
    unfold followedBy runRoutine
    rw [hRun]
  · have hReturns : a.returns ≤ room := hChecked.returns
    simp only [slice, Array.length_toList, Array.size_extract, hSteady.size_buffer]
    omega
  · rw [instance?_changeDepth, if_pos rfl, instance?_close, hj]
    rfl

/-! ## Compiling by command -/

/-- Whether a report tells of a new artifact. -/
def isCompiled (r : Report) : Bool :=
  match r.result with
  | .ok (.artifact ..) => true
  | _ => false

theorem exists_artifact {r : Report} (h : isCompiled r = true) :
    ∃ index a, r.result = .ok (.artifact index a) := by
  unfold isCompiled at h
  split at h
  · exact ⟨_, _, by assumption⟩
  · cases h

theorem compiled_of_report {host : Host} {shown name : String} {r : Request}
    (hNumber : s.number? name = some m) {index : Nat}
    (h : (report host shown (.task name (.compile r)) s).1.result = .ok (.artifact index a)) :
    ∃ s₁, onInstance m (Workshop.compile m r) s = .ok a s₁ ∧
      ∀ n, (report host shown (.task name (.compile r)) s).2.instance? n = s₁.instance? n := by
  have hObey : obey host (.task name (.compile r)) s = doTask (evaluate host) m (.compile r) s := by
    delta obey obeyVia
    dsimp only
    rw [get_bind, hNumber]
  cases hCompile : onInstance m (Workshop.compile m r) s with
  | error e t =>
    have hFail : obey host (.task name (.compile r)) s = .error e t :=
      hObey.trans (bind_of_error hCompile)
    unfold report reportOn outcome at h
    rw [hFail] at h
    cases h
  | ok b s₁ =>
    have hKept : obey host (.task name (.compile r)) s = .ok (.artifact s₁.artifacts.length b)
        { s₁ with artifacts := s₁.artifacts ++ [some b] } := hObey.trans (bind_of_ok hCompile)
    unfold report reportOn outcome at h ⊢
    rw [hKept] at h ⊢
    cases h
    exact ⟨s₁, rfl, fun _ => rfl⟩

/-- **What a command compiles** suits its instance, which keeps its queries. -/
theorem suits_of_report (hRest : s.AtRest) {host : Host} {shown name : String} {i : Instance}
    {r : Request}
    (hNumber : s.number? name = some m) (hAt : s.instance? m = some i) {index : Nat}
    (h : (report host shown (.task name (.compile r)) s).1.result = .ok (.artifact index a)) :
    a.home = m ∧ a.args = r.context.length ∧
      ∃ i₁, (report host shown (.task name (.compile r)) s).2.instance? m = some i₁ ∧
        i₁.queries = i.queries ∧ a.Suits i₁ := by
  obtain ⟨s₁, hCompile, hLook⟩ := compiled_of_report hNumber h
  obtain ⟨-, hGrows, w, hAt₁, p, w₁, d, hCompiled⟩ := (onInstance_keeps hAt
    (Workshop.keeps_of_making (Workshop.compile_keeps m r _))).of_ok hRest.sound hCompile
  obtain ⟨j, hj, hMore⟩ := hGrows.some hAt
  cases hAt₁.symm.trans hj
  have hSpace : (s.workshop m).inst.space.Sound := by
    rw [workshop_inst hAt]
    exact hRest.sound.spaces hAt
  exact ⟨hCompiled.home, hCompiled.args, w.inst, (hLook m).trans hAt₁, hMore.queries,
    hCompiled.suits hSpace⟩

end Session

open Session in
/-- **Code without host functions cannot fail.**  On an instance with default queries and constants
only, what can be read can be written.  What is compiled takes as many arguments as there are
context values, and in every later session that still has the instance its routine keeps to the
store and to the shared buffer, sets every local before it reads it, and returns its values. -/
theorem plain_code_never_fails {s : Session} (hReached : s.Reached) {name : String} {number : Nat}
    {i : Instance} (hNumber : s.number? name = some number) (hAt : s.instance? number = some i)
    (hPlain : ∀ q ∈ i.queries, q.2.Plain) {r : Request} {p : Expr × Nat} {w : Workshop}
    (hRead : Workshop.read r (s.workshop number) = .ok p w) :
    (∀ routine w', ∃ d, Workshop.write r routine p.1 p.2 w' = .ok d w') ∧
      ∀ {host shown index a},
        (report host shown (.task name (.compile r)) s).1.result = .ok (.artifact index a) →
        a.args = r.context.length ∧
        ∀ {s₂ i₂}, Leads (report host shown (.task name (.compile r)) s).2 s₂ →
          s₂.instance? number = some i₂ →
          a.Exact .plain i₂ ∧ i₂.space.cursor ≤ i₂.space.store.size ∧
          ∀ (host : Host) {args : List Float}, args.length = a.args → ∃ xs s₃ i₃,
            evaluate host a args s₂ = .ok xs s₃ ∧
            xs.length = a.returns ∧ s₃.instance? number = some i₃ ∧
            i₃.space.store.size = i₂.space.store.size ∧
            i₃.scratch.buffer.size = i₂.scratch.buffer.size := by
  have hRest := hReached.atRest
  have hInst : (s.workshop number).inst = i := workshop_inst hAt
  have hObeys : i.Obeys .plain := fun q hq => (hPlain q hq).obeys
  refine ⟨fun routine w' => ?_, fun {host shown index a} hResult => ?_⟩
  · exact Workshop.write_of_read (k := .plain) id (hInst ▸ hRest.sound.spaces hAt) (hInst ▸ hObeys)
      hRead routine w'
  obtain ⟨rfl, hArity, i₁, hAt₁, hQueries, hSuits⟩ := suits_of_report hRest hNumber hAt hResult
  refine ⟨hArity, fun {s₂ i₂} hLeads hAt₂ => ?_⟩
  have hMoves := report_moves host shown (.task name (.compile r)) hRest
  obtain ⟨hRest₂, hAdvances⟩ := hLeads.moves hMoves.1
  obtain ⟨j, hj, hMore⟩ := hAdvances.instances (hMoves.1.numbers hAt₁) hAt₂
  cases hAt₁.symm.trans hj
  have hSound₂ := hRest₂.sound.spaces hAt₂
  have hObeys₂ : i₂.Obeys .plain := by
    unfold Instance.Obeys
    rw [hMore.queries, hQueries]
    exact hObeys
  have hExact : a.Exact .plain i₂ :=
    (hSuits.mono hMore.space.cursor hMore.buffer hMore.queries).exact .plain hObeys₂
  refine ⟨hExact, hSound₂.cursor_le, fun _ _ hArgs => ?_⟩
  exact evaluateWith_succeeds hAt₂ (hRest₂.idle hAt₂) hSound₂ hExact hArgs _

/-- A session with one instance, which has the default queries. -/
def defaultSession : Session :=
  (Session.start none).obeyAll .mute "a" [.create "a" ⟨none, true, [], false, false⟩]

/-- A choice between two vectors, with a variable and a temp that were never assigned. -/
def rootOrCircle : Request :=
  ⟨"return math.sqrt(c.a) ? [v.x, t.y] : [math.pi, b];", ["a"], [("b", [1])]⟩

open Session in
/-- The choice is compiled on the instance with the default queries, and has two values. -/
theorem root_or_circle_never_fails :
    defaultSession.Reached ∧ ∃ i, defaultSession.instance? 0 = some i ∧
      (∀ q ∈ i.queries, q.2.Plain) ∧ ∃ p w index a xs s₃,
        Workshop.read rootOrCircle (defaultSession.workshop 0) = .ok p w ∧
        (report .mute "a" (.task "a" (.compile rootOrCircle)) defaultSession).1.result =
          .ok (.artifact index a) ∧
        evaluate .mute a [4]
        (report .mute "a" (.task "a" (.compile rootOrCircle)) defaultSession).2 =
          .ok xs s₃ ∧ xs.length = a.returns := by
  have hReached : defaultSession.Reached := reached_obeyAll "a" _ _
  have hAt : defaultSession.instance? 0 = some (Instance.fresh Query.defaults [] false) := rfl
  have hPlain : ∀ q ∈ (Instance.fresh Query.defaults [] false).queries, q.2.Plain :=
    fun q hq => .inl (Query.mem_table hq)
  have hNumber : defaultSession.number? "a" = some 0 := by decide +kernel
  obtain ⟨index, a, hResult⟩ := exists_artifact (r := (report .mute "a" (.task "a"
    (.compile rootOrCircle)) defaultSession).1) (by decide +kernel)
  obtain ⟨s₁, hCompile, -⟩ := compiled_of_report hNumber hResult
  obtain ⟨-, -, w, -, p, w₁, d, hCompiled⟩ := (onInstance_keeps hAt (Workshop.keeps_of_making
    (Workshop.compile_keeps 0 rootOrCircle _))).of_ok hReached.atRest.sound hCompile
  obtain ⟨-, -, j, hj, -⟩ := suits_of_report hReached.atRest hNumber hAt hResult
  obtain ⟨hArity, hLater⟩ :=
    (plain_code_never_fails hReached hNumber hAt hPlain hCompiled.read).2 hResult
  have hOne : [(4 : Float)].length = a.args := hArity.symm
  obtain ⟨xs, s₃, -, hEvaluate, hLength, -⟩ := (hLater .refl hj).2.2 .mute hOne
  exact ⟨hReached, _, hAt, hPlain, p, w₁, index, a, xs, s₃, hCompiled.read, hResult, hEvaluate,
    hLength⟩

end MolangCompiler
