import MolangCompiler.Proofs.Loading
import MolangCompiler.Proofs.Safety
import MolangCompiler.Proofs.Stages

/-!
# How deep the text of a routine nests

A choice puts its branches one level further to the right, and an operation puts at most two
brackets around its operands, because what would have to stand before an operand is set aside into
lines of its own.  So a tree of depth `d` becomes lines that stand at most `d` levels further to the
right and whose brackets nest at most `2 * d + 1` deep (`Expr.loadable_body`).

On an instance without host functions the limits of the loader are all that can keep a source from
being compiled.  They are reached: a quotient nests to the left, and so do the brackets around its
parts.
-/

namespace MolangCompiler

open Code

open MolangCompiler.Expr Step

/-! ## What keeps a source from being compiled -/

theorem Expr.ReadIn.filled {args : Nat} {k : Callable} {s : Scope} {e : Expr} (hHost : ¬ k.host)
    (h : e.ReadIn args k s) : e.EachNode Filled :=
  h.eachNode fun hRegular => Regular.filled hRegular (delivers_of_no_host hHost hRegular)

theorem Step.Shallow.inLimits {d : Nat} {steps : List Step} (h : Shallow d steps)
    (hDepth : d ≤ 98) : ∀ line ∈ listing 1 steps, Routine.InLimits line := by
  intro line hLine
  obtain ⟨hLevel, hNesting⟩ := h 1 line hLine
  unfold Routine.InLimits Routine.maxLevel Routine.maxNesting
  omega

namespace Workshop

/-- **Without host functions and without a limit**, compiling what was read ends as loading its
lines does. -/
theorem compile_of_read (home : Nat) {r : Request} {w w₁ : Workshop} {p : Expr × Nat}
    (hSound : w.inst.space.Sound) (hObeys : w.inst.Obeys .plain) (hUnlimited : w.books.Unlimited)
    (hContext : r.context.length ≤ maxContextValues) (hRead : read r w = .ok p w₁) :
    ∃ d body, Routine.write (routineName w₁.inst.nextRoutine) p.1 r.context.length p.2
        (Routine.draft r.context.length p.2) = .ok () d ∧
      d.listing.lines = (0, .define (routineName w₁.inst.nextRoutine) r.context.length) ::
        listing 1 body ∧
      body ≠ [] ∧ Loadable p.1.depth body ∧
      (∀ routine, Routine.load d.listing.lines = .ok routine →
        ∃ a w', compile home r w = .ok a w' ∧ a.text = d.text ∧ a.routine = routine) ∧
      ∀ problem, Routine.load d.listing.lines = .error problem →
        ∃ w', compile home r w = .error (.loading r.source problem) w' := by
  obtain ⟨s, -, hScope, -, hTree⟩ := read_obeys (k := .plain) hSound hObeys hRead
  have hWF := ReadIn.compilable_of_no_host (k := .plain) id hScope hTree
  have hWrite :=
    Routine.write_outline hWF.writable (routineName w₁.inst.nextRoutine) r.context.length p.2
  have hBooks : w₁.books.Unlimited :=
    ((read_books Books.unlimited_bookkeeping r w).of_ok hUnlimited hRead).1
  obtain ⟨room, hEnsure, hRoom⟩ := ScratchRoom.ensure_unlimited
    ⟨w₁.books, w₁.inst.scratch⟩ hBooks (p.1.body p.2 (Layout.start r.context.length
      (r.context.length + 1 + p.2) 0)).2.extent
  have hPaid := compile_of_paid home hContext hRead hWrite hEnsure
    (Tenant.chargeOwner_unlimited (t := ⟨room.books, w₁.inst.owner, w₁.inst.space⟩) hRoom _)
  refine ⟨_, _, hWrite, rfl, List.cons_ne_nil _ _, loadable_body (hTree.filled id) _ _,
    fun routine hLoad => ?_, fun problem hLoad => ?_⟩
  · rw [hLoad] at hPaid
    exact ⟨_, _, hPaid, rfl, rfl⟩
  · rw [hLoad] at hPaid
    exact ⟨_, hPaid⟩

/-- **A tree that is not deep** can be compiled if bytes are not limited. -/
theorem compile_of_shallow (home : Nat) {r : Request} {w w₁ : Workshop} {p : Expr × Nat}
    {slots : Nat} (hContext : r.context.length ≤ maxContextValues) (hRead : read r w = .ok p w₁)
    (hUnlimited : w₁.books.Unlimited) (hWF : p.1.Compilable ⟨r.context.length, p.2, slots⟩)
    (hFilled : p.1.EachNode Filled) (hDepth : p.1.depth ≤ 98) :
    ∃ a w', compile home r w = .ok a w' := by
  let l := Layout.start r.context.length (r.context.length + 1 + p.2) 0
  obtain ⟨room, hEnsure, hRoom⟩ :=
    ScratchRoom.ensure_unlimited ⟨w₁.books, w₁.inst.scratch⟩ hUnlimited (p.1.body p.2 l).2.extent
  have hBody := loadable_body hFilled p.2 l
  have hLoad := Routine.load_of_within (List.cons_ne_nil _ _) (hBody.block 1)
    (routineName w₁.inst.nextRoutine) r.context.length (hBody.shallow.inLimits hDepth)
  exact ⟨_, _, compile_eq_ok.mpr ⟨hContext, _, _, _, _, _, _, hRead,
    Routine.write_outline hWF.writable _ _ _,
    hEnsure, Tenant.chargeOwner_unlimited hRoom _, hLoad, rfl, rfl⟩⟩

end Workshop

open Routine (InLimits OfDepth) in
/-- **Depth is all that keeps a source from being compiled.**  On an instance that offers only the
default queries and constants and whose bytes are not limited, a source that can be read with at
most as many context values as there may be can be written, and it is compiled if and only if no
line of its text stands at level 100 or beyond and no line nests more than 200 brackets; otherwise
just that is what the failure says.  A tree of depth 98 is never too deep. -/
theorem plain_source_compiles_unless_too_deep {s : Session} (hReached : s.Reached) {number : Nat}
    {i : Instance} (hAt : s.instance? number = some i) (hPlain : ∀ q ∈ i.queries, q.2.Plain)
    (hUnlimited : (s.workshop number).books.Unlimited) {r : Request} {p : Expr × Nat} {w : Workshop}
    (hContext : r.context.length ≤ maxContextValues)
    (hRead : Workshop.read r (s.workshop number) = .ok p w) :
    ∃ d, Routine.write (routineName w.inst.nextRoutine) p.1 r.context.length p.2
        (Routine.draft r.context.length p.2) = .ok () d ∧
      ((∀ line ∈ d.listing.lines, line.1 < 100 ∧ line.2.nesting ≤ 200) →
        ∃ a w', Workshop.compile number r (s.workshop number) = .ok a w' ∧ a.text = d.text) ∧
      ((∃ line ∈ d.listing.lines, 100 ≤ line.1 ∨ 200 < line.2.nesting) →
        ∃ problem w', Workshop.compile number r (s.workshop number) =
          .error (.loading r.source problem) w' ∧
          (problem = .indentation ∨ problem = .nesting)) ∧
      (p.1.depth ≤ 98 → ∀ line ∈ d.listing.lines, line.1 < 100 ∧ line.2.nesting ≤ 200) := by
  have hInst : (s.workshop number).inst = i := Session.workshop_inst hAt
  have hObeys : i.Obeys .plain := fun q hq => (hPlain q hq).obeys
  obtain ⟨d, body, hWrite, hLines, hSome, hLoadable, hOk, hError⟩ :=
    Workshop.compile_of_read number (hInst ▸ hReached.atRest.sound.spaces hAt)
      (hInst ▸ hObeys) hUnlimited hContext hRead
  have hHeader : InLimits (0, .define (routineName w.inst.nextRoutine) r.context.length) :=
    ⟨Nat.zero_lt_succ _, Nat.succ_le_succ (Nat.zero_le _)⟩
  rw [hLines] at hOk hError
  refine ⟨d, hWrite, fun hWithin => ?_, fun ⟨line, hLine, hDeep⟩ => ?_, fun hDepth => ?_⟩
  · rw [hLines, List.forall_mem_cons] at hWithin
    obtain ⟨a, w', hCompile, hText, -⟩ :=
      hOk _ (Routine.load_of_within hSome (hLoadable.block 1) _ _ hWithin.2)
    exact ⟨a, w', hCompile, hText⟩
  · have hOutside : ¬ InLimits line := by
      unfold InLimits Routine.maxLevel Routine.maxNesting
      omega
    rw [hLines] at hLine
    obtain ⟨problem, hLoad, hOf⟩ := Routine.load_of_not_within hSome (hLoadable.block 1)
      (routineName w.inst.nextRoutine) r.context.length fun hAll =>
        hOutside (List.forall_mem_cons.mpr ⟨hHeader, hAll⟩ line hLine)
    obtain ⟨w', hCompile⟩ := hError problem hLoad
    exact ⟨problem, w', hCompile, hOf⟩
  · rw [hLines]
    exact List.forall_mem_cons.mpr ⟨hHeader, hLoadable.shallow.inLimits hDepth⟩

/-- A choice between two vectors on the instance with the default queries is read, and compiled. -/
theorem root_or_circle_is_compiled :
    defaultSession.Reached ∧ (∃ i, defaultSession.instance? 0 = some i ∧
      ∀ q ∈ i.queries, q.2.Plain) ∧ (defaultSession.workshop 0).books.Unlimited ∧
      rootOrCircle.context.length ≤ maxContextValues ∧ ∃ p w,
        Workshop.read rootOrCircle (defaultSession.workshop 0) = .ok p w ∧ p.1.depth ≤ 98 ∧
        ∃ a w', Workshop.compile 0 rootOrCircle (defaultSession.workshop 0) = .ok a w' := by
  have hReached : defaultSession.Reached := Session.reached_obeyAll "a" _ _
  have hAt : defaultSession.instance? 0 = some (Instance.fresh Query.defaults [] false) := rfl
  have hPlain : ∀ q ∈ (Instance.fresh Query.defaults [] false).queries, q.2.Plain :=
    fun q hq => .inl (Query.mem_table hq)
  have hUnlimited : (defaultSession.workshop 0).books.Unlimited := fun _ hLedger => nomatch hLedger
  have hContext : rootOrCircle.context.length ≤ maxContextValues := by decide
  have hRead : Outcome.passes (fun p _ => p.1.depth ≤ 98)
      (Workshop.read rootOrCircle (defaultSession.workshop 0)) = true := by decide +kernel
  obtain ⟨p, w, hOk, hRead⟩ := Outcome.of_passes hRead
  have hDepth : p.1.depth ≤ 98 := of_decide_eq_true hRead
  obtain ⟨d, -, hCompiles, -, hWithin⟩ :=
    plain_source_compiles_unless_too_deep hReached hAt hPlain hUnlimited hContext hOk
  obtain ⟨a, w', hCompile, -⟩ := hCompiles (hWithin hDepth)
  exact ⟨hReached, ⟨_, hAt, hPlain⟩, hUnlimited, hContext, p, w, hOk, hDepth, a, w', hCompile⟩

/-- A quotient of 102 ones, without context values or constants. -/
def longQuotient : Request := ⟨String.intercalate "/" (List.replicate 102 "1"), [], []⟩

/-- **A long quotient is read but not loaded**: each of its divisions puts two more brackets around
what stands to the left of it. -/
theorem long_quotient_is_not_loaded :
    (∃ p w, Workshop.read longQuotient (defaultSession.workshop 0) = .ok p w) ∧
      ∃ w, Workshop.compile 0 longQuotient (defaultSession.workshop 0) =
        .error (.loading longQuotient.source .nesting) w := by
  have hRead : (Outcome.result? (Workshop.read longQuotient (defaultSession.workshop 0))).isSome =
      true := by decide +kernel
  have hCompile : Outcome.failure? (Workshop.compile 0 longQuotient (defaultSession.workshop 0)) =
      some (.loading longQuotient.source .nesting) := by decide +kernel
  obtain ⟨p, hResult⟩ := Option.isSome_iff_exists.mp hRead
  exact ⟨⟨p, Outcome.ok_of_result? hResult⟩, Outcome.error_of_failure? hCompile⟩

end MolangCompiler
