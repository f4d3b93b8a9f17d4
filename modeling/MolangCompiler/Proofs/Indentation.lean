import MolangCompiler.Proofs.Loading
import MolangCompiler.Proofs.Written

/-!
# Written text is properly nested

`Block` is a grammar of text that is nested by indentation, without any tree behind it.  The lines
of a routine are such a text: lines that were inserted after the fact stand at the level of the
block they were inserted into, so there is just one tree of steps that the lines can be read as.
-/

namespace MolangCompiler

/-- What is written, together with all that is inserted there later, is a block at the level at
which writing began. -/
def Writing.Nests {α : Type} (act : Writing α) : Prop :=
  ∀ d : Draft, ∃ a d' lines, act d = .ok a d' ∧
    d'.listing = ⟨d.listing.lines ++ lines, d.listing.level⟩ ∧ Block d.listing.level lines

/-- The lines of a routine. -/
def Routine.rendering (r : Routine) : List (Nat × Line) :=
  (0, .define r.name r.params) :: Step.listing 1 r.body

theorem Writes.nests {α : Type} {act : Writing α} {a : Layout → α} {steps : Layout → List Step}
    {next : Layout → Layout} (h : ∀ l, Writes act l (a l) (steps l) (next l))
    {depth : Nat} (hLoad : ∀ l, Step.Loadable depth (steps l)) : act.Nests :=
  fun d => ⟨_, _, _, h d.layout d rfl, rfl, (hLoad d.layout).block d.listing.level⟩

/-- A well-formed tree stores values if all its constants, variables and vectors do. -/
theorem Expr.WellFormed.filled {b : Bounds} {e : Expr} (h : e.WellFormed b)
    (hOccupied : e.Each Occupied) : e.Each Filled :=
  Each.imp₂ (fun _ hNode hOccupied => hNode.1.filled hOccupied hNode.2) e h hOccupied

theorem Expr.Compilable.filled {b : Bounds} {e : Expr} (h : e.Compilable b)
    (hOccupied : e.EachNode Occupied) : e.EachNode Filled :=
  h.eachNode.imp₂ (fun _ hNode hOccupied => hNode.1.filled hOccupied hNode.2) hOccupied

/-- **Written text is properly nested.**  The lines of a routine are the rendering of one routine
only, the lines below its header form a block, and the indentation rises just behind headers, by
one. Whatever is written for an expression inside it is a block of its own level. -/
theorem written_text_is_nested {b : Bounds} :
    (∀ e : Expr, e.Compilable b → e.EachNode Expr.Occupied → ∀ (name : String) (args temps : Nat),
      ∃ (r : Routine) (d : Draft),
        Routine.write name e args temps (Routine.draft args temps) = .ok () d ∧
        d.listing.lines = r.rendering ∧
        (∃ body, d.listing.lines = (0, .define name args) :: body ∧ body ≠ [] ∧ Block 1 body) ∧
        List.IsChain Line.Indents d.listing.lines ∧
        Routine.ofLines? d.listing.lines = some r ∧
        ∀ r' : Routine, r'.rendering = d.listing.lines → r' = r) ∧
    ∀ e : Expr, e.WellFormed b → (e.width = 1 → e.emission.scalar.Nests) ∧
      (e.Each Expr.Occupied → ∀ slot, (e.emission.into slot).Nests) := by
  refine ⟨fun e h hOccupied name args temps => ?_,
    fun e h => ⟨fun hWidth => ?_, fun hOccupied slot => ?_⟩⟩
  · let r := Routine.outline name e args temps
    have hBlock : Block 1 (Step.listing 1 r.body) :=
      (Expr.loadable_body (h.filled hOccupied) temps _).block 1
    have hSome : Step.listing 1 r.body ≠ [] := Step.listing_ne_nil (List.cons_ne_nil _ _)
    have hRead : Routine.ofLines? r.rendering = some r := Routine.ofLines?_define name args r.body
    refine ⟨r, _, Routine.write_outline h.writable name args temps, rfl, ⟨_, rfl, hSome, hBlock⟩,
      ?_, hRead, fun r' hSame => ?_⟩
    · exact Routine.indents_define (List.cons_ne_nil _ _) hBlock name args
    · have hRead' := Routine.ofLines?_define r'.name r'.params r'.body
      change Routine.ofLines? r'.rendering = some r' at hRead'
      rw [hSame] at hRead'
      exact Option.some.inj (hRead'.symm.trans hRead)
  · exact Writes.nests (Expr.writes_part e h.fits hWidth) fun l => (Expr.loadable_part e l).steps
  · exact Writes.nests (Expr.writes_region e h.fits slot)
      (Expr.loadable_region e (h.filled hOccupied) slot)

/-- A sum whose first operand is set aside in front of a choice. -/
theorem call_before_choice_is_nested :
    ∃ (r : Routine) (d : Draft),
      Routine.write "f" (.binary .add (.hostCall "random" [] 1)
        (.ternary (.localRead 0 "c.x") (.constant [1]) (.constant [2]))) 1 0 (Routine.draft 1 0) =
        .ok () d ∧ List.IsChain Line.Indents d.listing.lines ∧
      ∀ r' : Routine, r'.rendering = d.listing.lines → r' = r := by
  have hWF :
      (Expr.binary .add (.hostCall "random" [] 1) (.ternary (.localRead 0 "c.x") (.constant [1])
      (.constant [2]))).Compilable ⟨1, 0, 0⟩ := by
    simp [Expr.Compilable, Expr.WellFormed, Expr.Each, Expr.EachOf, Expr.Fits, Expr.Delivers,
      Expr.width, Bounds.Names, Bounds.firstFresh]
  have hOccupied : (Expr.binary .add (.hostCall "random" [] 1) (.ternary (.localRead 0 "c.x")
      (.constant [1]) (.constant [2]))).EachNode Expr.Occupied := by
    simp [Expr.EachNode, Expr.Each, Expr.EachOf, Expr.Occupied]
  obtain ⟨r, d, hWrite, -, -, hChain, -, hOnly⟩ := written_text_is_nested.1 _ hWF hOccupied "f" 1 0
  exact ⟨r, d, hWrite, hChain, hOnly⟩

end MolangCompiler
