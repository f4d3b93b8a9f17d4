import MolangCompiler.Proofs.Checked
import MolangCompiler.Proofs.Lines
import MolangCompiler.Proofs.Loading

/-!
# What compiling leaves behind

Compiling may make variables, lengthen the shared scratch buffer and use up a name, whether it
succeeds or not.  The artifact that results suits the instance: its routine is checked against
limits that the store and the buffer meet.  Both only grow from then on, so it suits the instance
for good.
-/

namespace MolangCompiler

/-- An instance to which variables and room in its buffer were added. -/
structure Instance.Extends (i i' : Instance) : Prop where
  space : i.space.Extends i'.space
  buffer : i.scratch.buffer.toList <+: i'.scratch.buffer.toList
  depth : i'.depth = i.depth
  queries : i'.queries = i.queries

namespace Instance.Extends

theorem refl (i : Instance) : i.Extends i := ⟨.refl _, List.prefix_refl _, rfl, rfl⟩

theorem trans {i₁ i₂ i₃ : Instance} (h : i₁.Extends i₂) (h' : i₂.Extends i₃) : i₁.Extends i₃ where
  space := h.space.trans h'.space
  buffer := h.buffer.trans h'.buffer
  depth := h'.depth.trans h.depth
  queries := h'.queries.trans h.queries

end Instance.Extends

/-- How an instance changes: variables and room are added, values of variables may be set, and while
evaluations are running the shared buffer keeps its numbers. -/
structure Instance.Grows (i i' : Instance) : Prop where
  space : i.space.Grows i'.space
  buffer : i.scratch.buffer.size ≤ i'.scratch.buffer.size
  kept : 0 < i.depth → i.scratch.buffer.toList <+: i'.scratch.buffer.toList
  depth : i'.depth = i.depth
  queries : i'.queries = i.queries

variable {i' : Instance} {k : Callable}

namespace Instance.Grows

theorem refl (i : Instance) : i.Grows i :=
  ⟨.refl _, Nat.le_refl _, fun _ => List.prefix_refl _, rfl, rfl⟩

theorem trans {i₁ i₂ i₃ : Instance} (h : i₁.Grows i₂) (h' : i₂.Grows i₃) : i₁.Grows i₃ where
  space := h.space.trans h'.space
  buffer := Nat.le_trans h.buffer h'.buffer
  kept hDepth := (h.kept hDepth).trans (h'.kept (by rw [h.depth]; exact hDepth))
  depth := h'.depth.trans h.depth
  queries := h'.queries.trans h.queries

theorem of_extended {i : Instance} (hSpace : i.space.Grows i'.space)
    (hBuffer : i.scratch.buffer.toList <+: i'.scratch.buffer.toList) (hDepth : i'.depth = i.depth)
    (hQueries : i'.queries = i.queries) : i.Grows i' :=
  ⟨hSpace, by simpa using hBuffer.length_le, fun _ => hBuffer, hDepth, hQueries⟩

end Instance.Grows

variable {i : Instance}

theorem Instance.Extends.grows (h : i.Extends i') : i.Grows i' :=
  .of_extended h.space.grows h.buffer h.depth h.queries

/-- The queries of an instance are no templates and expand to calls that may be made. -/
def Instance.Obeys (k : Callable) (i : Instance) : Prop := ∀ q ∈ i.queries, q.2.Obeys k

/-- An instance without templates among its queries. -/
def Instance.Templateless (i : Instance) : Prop :=
  ∀ q ∈ i.queries, q.2.Direct

def Query.isTemplate : Query → Bool
  | .template .. => true
  | _ => false

theorem Instance.templateless_of_all (h : i.queries.all (!·.2.isTemplate) = true) :
    i.Templateless := by
  intro q hq arity report tree hTemplate
  have hPlain := List.all_eq_true.mp h q hq
  rw [hTemplate] at hPlain
  cases hPlain

theorem Instance.Templateless.obeys (h : i.Templateless) : i.Obeys .any := by
  intro q hq
  cases hQuery : q.2 with
  | helper name arity => exact fun _ _ => trivial
  | constant | host => trivial
  | clamp => exact ⟨trivial, trivial⟩
  | lerp => trivial
  | template arity report tree => exact absurd hQuery (h q hq arity report tree)

private theorem mem_putPair {α : Type} {p : String × α} {pairs : List (String × α)} {key : String}
    {value : α} (h : p ∈ putPair pairs key value) : p = (key, value) ∨ p ∈ pairs := by
  unfold putPair at h
  split at h
  · obtain ⟨u, hu, rfl⟩ := List.mem_map.mp h
    split
    · exact .inl rfl
    · exact .inr hu
  · exact (List.mem_append.mp h).symm.imp List.mem_singleton.mp id

private theorem mem_merged {α : Type} {p : String × α} {pairs : List (String × α)}
    (h : p ∈ merged pairs) : p ∈ pairs := by
  have hFold (rest done : List (String × α)) (hDone : ∀ q ∈ done, q ∈ pairs)
      (hRest : ∀ q ∈ rest, q ∈ pairs) :
      ∀ q ∈ rest.foldl (fun acc p => putPair acc p.1 p.2) done, q ∈ pairs := by
    induction rest generalizing done with
    | nil => exact hDone
    | cons r rest ih =>
      refine ih _ (fun q hq => ?_) fun q hq => hRest q (List.mem_cons_of_mem r hq)
      rcases mem_putPair hq with rfl | hOld
      · exact hRest r List.mem_cons_self
      · exact hDone q hOld
  exact hFold pairs [] (List.forall_mem_nil _) (fun q hq => hq) p h

theorem Query.mem_table {q : String × Query} {queries : List (String × Query)}
    (h : q ∈ table queries) : ∃ key, (key, q.2) ∈ queries := by
  obtain ⟨p, hp, rfl⟩ := List.mem_map.mp (mem_merged h)
  exact ⟨p.1, mem_merged hp⟩

/-- The routine of an artifact is checked strictly, against limits that an instance meets. -/
def Artifact.Exact (k : Callable) (a : Artifact) (i : Instance) : Prop :=
  ∃ room slots, a.routine.Checked (.strict k room slots a.returns) (.start a.args) ∧
    slots ≤ i.space.cursor ∧ room ≤ i.scratch.buffer.size

/-- An artifact suits an instance: its routine is checked against limits that the instance meets,
and strictly if the instance has no templates. -/
structure Artifact.Suits (a : Artifact) (i : Instance) : Prop where
  loose : ∃ room slots, a.routine.Checked (.loose room slots a.returns) .all ∧
    slots ≤ i.space.cursor ∧ room ≤ i.scratch.buffer.size
  exact : ∀ k, i.Obeys k → a.Exact k i

theorem Artifact.Suits.mono {a : Artifact} (h : a.Suits i)
    (hCursor : i.space.cursor ≤ i'.space.cursor)
    (hBuffer : i.scratch.buffer.size ≤ i'.scratch.buffer.size) (hQueries : i'.queries = i.queries) :
    a.Suits i' where
  loose := by
    obtain ⟨room, slots, hChecked, hSlots, hRoom⟩ := h.loose
    exact ⟨room, slots, hChecked, Nat.le_trans hSlots hCursor, Nat.le_trans hRoom hBuffer⟩
  exact k hObeys := by
    unfold Instance.Obeys at hObeys
    rw [hQueries] at hObeys
    obtain ⟨room, slots, hChecked, hSlots, hRoom⟩ := h.exact k hObeys
    exact ⟨room, slots, hChecked, Nat.le_trans hSlots hCursor, Nat.le_trans hRoom hBuffer⟩

namespace Workshop

/-- Sound instances to which variables and room are added. -/
def making : Course Workshop where
  ok w := w.inst.space.Sound
  le w w' := w.inst.Extends w'.inst
  refl w := .refl w.inst
  trans h h' := h.trans h'

def course : Course Workshop where
  ok w := w.inst.space.Sound
  le w w' := w.inst.Grows w'.inst
  refl w := .refl w.inst
  trans h h' := h.trans h'

variable {α : Type} {w : Workshop}

theorem keeps_of_making {act : Act Workshop α} {p : α → Workshop → Prop}
    (h : Keeps making p act w) : Keeps course p act w :=
  h.weaken (fun _ => Iff.rfl) fun _ _ hLe => hLe.grows

theorem onTenant_makes {act : Act Tenant α} {p : α → Tenant → Prop}
    (h : Keeps Tenant.making p act w.tenant) :
    Keeps making (fun a w' => p a w'.tenant) (onTenant act) w := by
  intro hOk
  refine onPart_ends (.mono (h hOk) ?_ ?_)
  · exact fun a t hEnd => ⟨hEnd.1, ⟨hEnd.2.1, List.prefix_refl _, rfl, rfl⟩, hEnd.2.2⟩
  · exact fun t hEnd => ⟨hEnd.1, ⟨hEnd.2, List.prefix_refl _, rfl, rfl⟩⟩

theorem onTenant_keeps {act : Act Tenant α} {p : α → Tenant → Prop}
    (h : Keeps Tenant.course p act w.tenant) :
    Keeps course (fun a w' => p a w'.tenant) (onTenant act) w := by
  intro hOk
  refine onPart_ends (.mono (h hOk) ?_ ?_)
  · exact fun a t hEnd =>
      ⟨hEnd.1, .of_extended hEnd.2.1 (List.prefix_refl _) rfl rfl, hEnd.2.2⟩
  · exact fun t hEnd => ⟨hEnd.1, .of_extended hEnd.2 (List.prefix_refl _) rfl rfl⟩

theorem onScratch_keeps {act : Act ScratchRoom α} {p : α → ScratchRoom → Prop}
    (h : Keeps ScratchRoom.course p act ⟨w.books, w.inst.scratch⟩) :
    Keeps making (fun a w' => p a ⟨w'.books, w'.inst.scratch⟩) (onScratch act) w := by
  intro hOk
  refine onPart_ends (.mono (h trivial) ?_ ?_)
  · exact fun a r hEnd => ⟨hOk, ⟨.refl _, hEnd.2.1, rfl, rfl⟩, hEnd.2.2⟩
  · exact fun r hEnd => ⟨hOk, ⟨.refl _, hEnd.2, rfl, rfl⟩⟩

theorem note_keeps (n : Note) (w : Workshop) :
    Keeps making (fun _ w' => w'.inst = w.inst) (note n) w :=
  .modify (fun hOk => hOk) (fun _ => .refl _) fun _ => rfl

/-- **Reading a source** on an instance makes a tree with the properties that obey the rules. -/
theorem read_keeps (r : Request) (w : Workshop) {wide : Int → Prop} {P : Scope → Expr → Prop}
    {Q : Scope → Stmt → Prop} {W : Scope → Expr → Prop}
    (rules : TreeRules (w.dictionary r) wide P Q W) :
    Keeps making (fun p w' => ∃ s : Scope, s.tenant.space = w'.inst.space ∧
        s.Sound (r.context.length + 1) wide ∧ s.locals = p.2 ∧ W s p.1) (read r) w := by
  intro hOk
  have hStart : (Scope.start w.tenant).Sound (r.context.length + 1) wide :=
    ⟨hOk, List.forall_mem_nil _, fun _ hw => absurd hw (Option.some_ne_none _).symm⟩
  refine read_ends (.mono (Dictionary.readSource_holds rules rfl _ hStart) ?_ ?_)
  · intro e s hEnd
    exact ⟨hEnd.1.space, ⟨hEnd.2.1.space, List.prefix_refl _, rfl, rfl⟩, s, rfl, hEnd.1, rfl,
      hEnd.2.2⟩
  · intro s hEnd
    exact ⟨hEnd.1.space, ⟨hEnd.2.space, List.prefix_refl _, rfl, rfl⟩⟩

theorem nextName_keeps (w : Workshop) : Stays making nextName w := by
  refine .get_bind (.bind (p := fun _ _ => True) (.modify ?_ ?_ ?_) fun _ _ _ _ _ => .pure trivial)
  · exact fun hOk => hOk
  · exact fun _ => ⟨.refl _, List.prefix_refl _, rfl, rfl⟩
  · exact fun _ => trivial

theorem write_keeps (r : Request) (name : String) (e : Expr) (temps : Nat) (w : Workshop) :
    Keeps making (fun d _ => Routine.write name e r.context.length temps
      (Routine.draft r.context.length temps) = .ok () d) (write r name e temps) w := by
  unfold write
  cases hWrite : Routine.write name e r.context.length temps
      (Routine.draft r.context.length temps) with
  | ok _ d => exact .pure rfl
  | error problem d => exact .throw

end Workshop

/-- What is known of an artifact that a request has just led to: which tree was read and written,
which routine was loaded, and that there is room for it. -/
structure Compiled (home : Nat) (r : Request) (w : Workshop) (a : Artifact) (w' : Workshop)
    (p : Expr × Nat) (w₁ : Workshop) (d : Draft) : Prop where
  read : Workshop.read r w = .ok p w₁
  write : ∃ name, Routine.write name p.1 r.context.length p.2
    (Routine.draft r.context.length p.2) = .ok () d
  load : Routine.load d.listing.lines = .ok a.routine
  home : a.home = home
  args : a.args = r.context.length
  returns : a.returns = p.1.width.toNat
  added : w₁.inst.Extends w'.inst
  room : d.layout.extent.toNat ≤ w'.inst.scratch.buffer.size

/-- **Compiling** only adds to an instance, and makes room for what it compiles. -/
theorem Workshop.compile_keeps (home : Nat) (r : Request) (w : Workshop) :
    Keeps making (fun a w' => ∃ p w₁ d, Compiled home r w a w' p w₁ d) (compile home r) w := by
  unfold compile
  split
  · exact .throw
  refine .bind (read_keeps r w (w.dictionary r).placed_rules).ran fun p w₁ _ _ hRead => ?_
  refine .bind (nextName_keeps w₁) fun name w₂ _ hName _ => ?_
  refine .bind (write_keeps r name p.1 p.2 w₂) fun d w₃ _ hWrite hDraft => ?_
  extract_lets text
  refine .bind (onScratch_keeps (ScratchRoom.ensure_keeps d.layout.extent _))
    fun _ w₄ _ hEnsure hRoom => ?_
  refine .bind (onTenant_makes (p := fun _ _ => True) ?_) fun _ w₅ _ hPaid _ => ?_
  · refine Tenant.keeps_of_space ?_
    exact .mono (Tenant.chargeOwner_space _ _) (fun _ _ h => ⟨h, trivial⟩) fun _ h => h
  have hExtends : w₁.inst.Extends w₅.inst := hName.trans (hWrite.trans (hEnsure.trans hPaid))
  have hLong : d.layout.extent.toNat ≤ w₅.inst.scratch.buffer.size :=
    Nat.le_trans hRoom hPaid.grows.buffer
  cases hLoad : Routine.load d.listing.lines with
  | error problem => exact .throw
  | ok routine =>
    -- the rest is notes
    have hDone (w₆ : Workshop) (hSame : w₆.inst = w₅.inst) : ∃ q w₁ d, Compiled home r w
        ⟨home, name, r.context.length, p.1.width.toNat, text, routine⟩ w₆ q w₁ d := by
      refine ⟨p, w₁, d, hRead.1, ⟨name, hDraft⟩, hLoad, rfl, rfl, rfl, ?_, ?_⟩
      · rw [hSame]
        exact hExtends
      · rw [hSame]
        exact hLong
    refine .bind (note_keeps _ w₅) fun _ w₆ _ _ hSame => .get_bind ?_
    split
    · refine .bind (note_keeps _ w₆) fun _ w₇ _ _ hSame' => ?_
      refine .bind (note_keeps _ w₇) fun _ w₈ _ _ hSame'' => .pure ?_
      exact hDone w₈ (hSame''.trans (hSame'.trans hSame))
    · refine .bind (note_keeps _ w₆) fun _ w₇ _ _ hSame' => .pure ?_
      exact hDone w₇ (hSame'.trans hSame)

theorem Workshop.read_obeys {r : Request} {w w₁ : Workshop} {p : Expr × Nat}
    (hSound : w.inst.space.Sound) (hQueries : w.inst.Obeys k) (hRead : read r w = .ok p w₁) :
    ∃ s : Scope, s.tenant.space = w₁.inst.space ∧
      s.Sound (r.context.length + 1) (fun width => k.host ∨ 1 ≤ width) ∧ s.locals = p.2 ∧
      p.1.ReadIn r.context.length k s :=
  ((read_keeps r w (Dictionary.regular_rules rfl hQueries)).of_ok hSound hRead).2.2

/-- What is read, and then written and loaded, is well formed. -/
theorem Expr.ReadIn.compilable_of_write {name : String} {e : Expr} {args slots temps : Nat}
    {s : Scope} {d : Draft} {r : Routine} (h : e.ReadIn args k s) (hPlaced : e.Placed slots)
    (hWrite : Routine.write name e args temps (Routine.draft args temps) = .ok () d)
    (hLoad : Routine.load d.listing.lines = .ok r) : e.Compilable (s.bounds args) := by
  obtain ⟨hRoomy, hWidth, -⟩ := Routine.write_eq_ok 0 hPlaced hWrite
  have hWritable := h.writable hRoomy hWidth
  cases (Routine.write_outline hWritable name args temps).symm.trans hWrite
  exact h.compilable_of_load hWritable hLoad

/-- **Without host functions writing never fails**: what can be read can be written. -/
theorem Workshop.write_of_read {r : Request} {w w₁ : Workshop} {p : Expr × Nat} (hHost : ¬ k.host)
    (hSound : w.inst.space.Sound) (hQueries : w.inst.Obeys k) (hRead : read r w = .ok p w₁)
    (name : String) (w₂ : Workshop) : ∃ d, write r name p.1 p.2 w₂ = .ok d w₂ := by
  obtain ⟨s, -, hScope, -, hTree⟩ := read_obeys hSound hQueries hRead
  have hWF := Expr.ReadIn.compilable_of_no_host hHost hScope hTree
  unfold write
  rw [Routine.write_outline hWF.writable name r.context.length p.2]
  exact ⟨_, rfl⟩

namespace Compiled

variable {home : Nat} {r : Request} {w w' w₁ : Workshop} {a : Artifact} {p : Expr × Nat} {d : Draft}

theorem outlined (h : Compiled home r w a w' p w₁ d) {b : Bounds} (hWF : p.1.Compilable b) :
    (∃ name, a.routine = Routine.outline name p.1 a.args p.2) ∧
      d.layout = (p.1.body p.2 (Layout.start a.args (a.args + 1 + p.2) 0)).2 := by
  obtain ⟨name, hWrite⟩ := h.write
  have hRead := Routine.ofLines?_of_load h.load
  -- the lines that were loaded are those of the outline
  have hSame := hWrite.symm.trans (Routine.write_outline hWF.writable name r.context.length p.2)
  rw [h.args]
  cases hSame
  exact ⟨⟨name, Option.some.inj (hRead.symm.trans (Routine.ofLines?_outline name p.1 _ p.2))⟩, rfl⟩

section

variable (h : Compiled home r w a w' p w₁ d) (hSound : w.inst.space.Sound)
include h hSound

theorem compilable (hQueries : w.inst.Obeys k) :
    p.1.Compilable ⟨a.args, p.2, w₁.inst.space.cursor⟩ ∧ p.1.EachNode (Expr.Calls k) := by
  obtain ⟨-, -, s', -, -, -, hPlaced⟩ :=
    (Workshop.read_keeps r w (w.dictionary r).placed_rules).of_ok hSound h.read
  obtain ⟨s, hSpace, -, hLocals, hTree⟩ := Workshop.read_obeys hSound hQueries h.read
  obtain ⟨name, hWrite⟩ := h.write
  have hWF := hTree.compilable_of_write hPlaced hWrite h.load
  unfold Scope.bounds at hWF
  rw [hLocals, hSpace, ← h.args] at hWF
  exact ⟨hWF, hTree.calls⟩

/-- **Without templates the routine is checked strictly**: it keeps to its room in the scratch
buffer, and reads no local and no slot before it is set. -/
theorem checked (hQueries : w.inst.Obeys k) :
    a.routine.Checked (.strict k d.layout.extent.toNat w₁.inst.space.cursor a.returns)
      (.start a.args) := by
  obtain ⟨hWF, hCalls⟩ := h.compilable hSound hQueries
  obtain ⟨⟨name, hRoutine⟩, hLayout⟩ := h.outlined hWF
  rw [hRoutine, hLayout, h.returns]
  exact Routine.checked_outline hWF.writable (Nat.le_refl _) hCalls name

/-- **Whatever is compiled suits its instance.** -/
theorem suits : a.Suits w'.inst := by
  obtain ⟨-, hRead, s, hSpace, -, -, hPlaced⟩ :=
    (Workshop.read_keeps r w (w.dictionary r).placed_rules).of_ok hSound h.read
  obtain ⟨name, hWrite⟩ := h.write
  refine ⟨⟨d.layout.extent.toNat, s.tenant.space.cursor, ?_, ?_, h.room⟩, fun k hObeys => ?_⟩
  · rw [h.returns]
    exact Routine.checked_of_load hPlaced hWrite h.load
  · rw [hSpace]
    exact h.added.space.cursor
  · have hQueries : w'.inst.queries = w.inst.queries := h.added.queries.trans hRead.queries
    unfold Instance.Obeys at hObeys
    rw [hQueries] at hObeys
    exact ⟨_, _, h.checked hSound hObeys, h.added.space.cursor, h.room⟩

end

end Compiled

end MolangCompiler
