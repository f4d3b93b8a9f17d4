import MolangCompiler.Proofs.Blocks
import MolangCompiler.Proofs.WellFormed
import MolangCompiler.Routine.Emission

/-!
# The outline of a routine

A routine is written line by line, and some lines are inserted behind lines that were written
earlier.  Its outline is the same routine as a tree of steps, without marks and insertions:
`Expr.part` is what an expression becomes as a scalar, and `Expr.region` what it becomes as a
region.  Writing produces just the lines of the outline, so all that is proved about routines is
proved about outlines.
-/

namespace MolangCompiler

open MolangCompiler.Expr

/-! ## Parts of an operation -/

/-- A scalar while its operation is being put together. -/
structure Part where
  /-- Whether its value is known beforehand. -/
  constant : Bool
  /-- Steps that prepare it. -/
  steps : List Step
  code : Code

namespace Part

/-- The steps that lead to the values of parts. -/
def stepsOf (parts : List Part) : List Step := parts.flatMap (·.steps)

/-- What the values of parts are read from. -/
def codesOf (parts : List Part) : List Code := parts.map (·.code)

/-- Sets aside, from right to left, every part that is not constant and that steps of later parts
follow. -/
def setAside : List Part → Layout → List Part × Layout
  | [], l => ([], l)
  | p :: rest, l =>
    let later := setAside rest l
    if !p.constant && !(stepsOf rest).isEmpty then
      let fresh := later.2.reserveLocals 1
      (⟨p.constant, p.steps ++ [.act (.setLocal fresh.1 p.code)], .readLocal fresh.1⟩ :: later.1,
        fresh.2)
    else (p :: later.1, later.2)

theorem length_setAside (ps : List Part) (l : Layout) : (setAside ps l).1.length = ps.length := by
  induction ps with
  | nil => rfl
  | cons p rest ih =>
    simp only [setAside]
    split <;> exact congrArg (· + 1) ih

end Part

def Code.ofOperands (op : BinaryOp) : List Code → Code
  | [left, right] => .binary op left right
  | _ => .literal 0

mutual

def Expr.part : Expr → Layout → Part × Layout
  | .constant xs, l => (⟨true, [], .literal (xs.headD 0)⟩, l)
  | .localRead index _, l => (⟨false, [], .readLocal index⟩, l)
  | .variableRead v, l => (⟨false, [], .readVariable v.offset⟩, l)
  | .negate operand, l =>
    let p := operand.part l
    (⟨false, p.1.steps, .negate p.1.code⟩, p.2)
  | .not operand, l =>
    let p := operand.part l
    (⟨false, p.1.steps, .not p.1.code⟩, p.2)
  | .binary op left right, l =>
    let p := left.part l
    let q := right.part p.2
    let both := Part.setAside [p.1, q.1] q.2
    (⟨left.isConstant && right.isConstant, Part.stepsOf both.1,
      Code.ofOperands op (Part.codesOf both.1)⟩, both.2)
  | .logical op left right, l =>
    let fresh := l.reserveLocals 1
    let p := left.part fresh.2
    let q := right.part p.2
    (⟨false, p.1.steps ++ [.choose (op.openTest p.1.code)
        (q.1.steps ++ [.act (.setTruth fresh.1 q.1.code)])
        [.act (.setLocal fresh.1 (.literal op.settled))]],
      .readLocal fresh.1⟩, q.2)
  | .ternary condition yes no, l =>
    let fresh := l.reserveLocals 1
    let p := condition.part fresh.2
    let q := yes.part p.2
    let r := no.part q.2
    (⟨false, p.1.steps ++ [.choose (.holds p.1.code)
        (q.1.steps ++ [.act (.setLocal fresh.1 q.1.code)])
        (r.1.steps ++ [.act (.setLocal fresh.1 r.1.code)])],
      .readLocal fresh.1⟩, r.2)
  | .vector elements, l =>
    let ps := parts elements l
    match ps.1 with
    | [p] => (⟨allConstant elements, p.steps, p.code⟩, ps.2)
    | _ => (⟨allConstant elements, [], .literal 0⟩, l)
  | .helperCall helper args, l =>
    let ps := parts args l
    let all := Part.setAside ps.1 ps.2
    (⟨allConstant args, Part.stepsOf all.1, .helper helper (Part.codesOf all.1)⟩, all.2)
  | .hostCall function args _, l =>
    let bound := l.bind function "fn"
    let ps := parts args bound.2
    let all := Part.setAside ps.1 ps.2
    (⟨false, Part.stepsOf all.1, .call ⟨bound.1, function⟩ (Part.codesOf all.1)⟩, all.2)
  | .bind index value body, l =>
    let p := value.part l
    let q := body.part p.2
    (⟨false, p.1.steps ++ .act (.setLocal index p.1.code) :: q.1.steps, q.1.code⟩, q.2)
  | .sequence _ _, l => (⟨false, [], .literal 0⟩, l)

/-- What the expressions of a list become as scalars, from left to right. -/
def Expr.parts : List Expr → Layout → List Part × Layout
  | [], l => ([], l)
  | e :: rest, l =>
    let p := e.part l
    let ps := parts rest p.2
    (p.1 :: ps.1, ps.2)

end

theorem Expr.length_parts (es : List Expr) : ∀ l : Layout, (parts es l).1.length = es.length := by
  induction es with
  | nil => exact fun _ => rfl
  | cons e rest ih => exact fun l => congrArg (· + 1) (ih (e.part l).2)

/-! ## Regions -/

def Part.stored (slot : Int) (p : Part × Layout) : List Step × Layout :=
  (p.1.steps ++ [.act (.setSlot slot p.1.code)], p.2)

def literalSteps (slot : Int) (xs : List Float) : List Step :=
  xs.zipIdx.map fun (x, i) => .act (.setSlot (slot + i) (.literal x))

mutual

/-- What an expression becomes as a region that starts at a slot. -/
def Expr.region : Expr → Int → Layout → List Step × Layout
  | .constant xs, slot, l => (literalSteps slot xs, l)
  | .variableRead v, slot, l =>
    if v.size = 1 then Part.stored slot ((variableRead v).part l)
    else ([.act (.load slot v.offset v.size)], l)
  | .ternary condition yes no, slot, l =>
    if yes.width = 1 then Part.stored slot ((ternary condition yes no).part l)
    else
      let p := condition.part l
      let a := yes.region slot p.2
      let b := no.region slot a.2
      (p.1.steps ++ [.choose (.holds p.1.code) a.1 b.1], b.2)
  | .vector elements, slot, l => regions elements slot l
  | .hostCall function args width, slot, l =>
    if width = 1 then Part.stored slot ((hostCall function args width).part l)
    else
      let bound := l.bind function "fn"
      let ps := parts args bound.2
      let all := Part.setAside ps.1 ps.2
      (Part.stepsOf all.1 ++
        [.act (.setSlots slot width.toNat ⟨bound.1, function⟩ (Part.codesOf all.1))], all.2)
  | .bind index value body, slot, l =>
    let p := value.part l
    let a := body.region slot p.2
    (p.1.steps ++ .act (.setLocal index p.1.code) :: a.1, a.2)
  | .sequence _ _, _, l => ([], l)
  | e, slot, l => Part.stored slot (e.part l)

/-- What the expressions of a list become as regions, one slot for each. -/
def Expr.regions : List Expr → Int → Layout → List Step × Layout
  | [], _, l => ([], l)
  | e :: rest, slot, l =>
    let a := e.region slot l
    let b := regions rest (slot + 1) a.2
    (a.1 ++ b.1, b.2)

end

/-- An expression whose only value is stored as a scalar, if it has but one. -/
def Expr.Simple : Expr → Prop
  | .constant _ | .vector _ | .bind .. | .sequence .. => False
  | _ => True

theorem Expr.region_of_simple {e : Expr} (h : e.Simple) (hWidth : e.width = 1) (slot : Int)
    (l : Layout) : e.region slot l = Part.stored slot (e.part l) := by
  cases e with
  | constant | vector | bind | sequence => exact absurd h id
  | variableRead v => exact if_pos (Int.ofNat.inj hWidth)
  | ternary | hostCall => exact if_pos hWidth
  | _ => rfl

section

variable {P : Expr → Prop} (simple : ∀ e, e.Simple → e.width = 1 → P e)
  (constant : ∀ xs, P (.constant xs)) (load : ∀ v, v.size ≠ 1 → P (.variableRead v))
  (choice : ∀ cond yes no, yes.width ≠ 1 → P yes → P no → P (.ternary cond yes no))
  (vector : ∀ es, (∀ e ∈ es, P e) → P (.vector es))
  (call : ∀ f args width, width ≠ 1 → P (.hostCall f args width))
  (bind : ∀ index value body, P body → P (.bind index value body))
  (sequence : ∀ stmts width, P (.sequence stmts width))

include simple constant load choice vector call bind sequence

/-- **Induction along regions**: what is stored as a scalar is one case. -/
@[elab_as_elim]
theorem Expr.region_induction : ∀ e, P e
  | .constant xs => constant xs
  | .variableRead v => by
    by_cases hSize : v.size = 1
    · exact simple _ trivial (congrArg Int.ofNat hSize)
    · exact load v hSize
  | .ternary cond yes no => by
    by_cases hWidth : yes.width = 1
    · exact simple _ trivial hWidth
    · exact choice cond yes no hWidth (region_induction yes) (region_induction no)
  | .vector es => vector es fun e _ => region_induction e
  | .hostCall f args width => by
    by_cases hWidth : width = 1
    · exact simple _ trivial hWidth
    · exact call f args width hWidth
  | .bind index value body => bind index value body (region_induction body)
  | .sequence stmts width => sequence stmts width
  | .localRead .. | .negate _ | .not _ | .binary .. | .logical .. | .helperCall .. =>
    simple _ trivial rfl

end

/-! ## What happens to the layout -/

/-- Writing an expression or a statement may hand out locals, name functions and reach further
slots for a while; everything else of the layout stays as it was. -/
structure Layout.Grows (l l' : Layout) : Prop where
  scratchLocal : l'.scratchLocal = l.scratchLocal
  nextLocal : l.nextLocal ≤ l'.nextLocal
  nextSlot : l'.nextSlot = l.nextSlot
  extent : l.extent ≤ l'.extent
  resultRegion : l'.resultRegion = l.resultRegion

namespace Layout.Grows

theorem refl (l : Layout) : l.Grows l := ⟨rfl, Nat.le_refl _, rfl, Int.le_refl _, rfl⟩

theorem trans {l₁ l₂ l₃ : Layout} (h : l₁.Grows l₂) (h' : l₂.Grows l₃) : l₁.Grows l₃ where
  scratchLocal := h'.scratchLocal.trans h.scratchLocal
  nextLocal := Nat.le_trans h.nextLocal h'.nextLocal
  nextSlot := h'.nextSlot.trans h.nextSlot
  extent := Int.le_trans h.extent h'.extent
  resultRegion := h'.resultRegion.trans h.resultRegion

theorem reserveLocals (count : Nat) (l : Layout) : l.Grows (l.reserveLocals count).2 :=
  ⟨rfl, Nat.le_add_right _ _, rfl, Int.le_refl _, rfl⟩

theorem bind (f hint : String) (l : Layout) : l.Grows (l.bind f hint).2 := by
  simp only [Layout.bind]
  split
  · exact refl l
  · exact ⟨rfl, Nat.le_refl _, rfl, Int.le_refl _, rfl⟩

theorem setAside (ps : List Part) (l : Layout) : l.Grows (Part.setAside ps l).2 := by
  induction ps with
  | nil => exact refl l
  | cons p rest ih =>
    simp only [Part.setAside]
    split
    · exact ih.trans (reserveLocals 1 _)
    · exact ih

end Layout.Grows

mutual

theorem Expr.grows_part : ∀ (e : Expr) (l : Layout), l.Grows (e.part l).2
  | .constant _, l | .localRead _ _, l | .variableRead _, l => .refl l
  | .negate operand, l | .not operand, l => grows_part operand l
  | .binary _ left right, l =>
    ((grows_part left l).trans (grows_part right _)).trans (.setAside _ _)
  | .logical _ left right, l =>
    ((Layout.Grows.reserveLocals 1 l).trans (grows_part left _)).trans (grows_part right _)
  | .ternary cond yes no, l =>
    (((Layout.Grows.reserveLocals 1 l).trans (grows_part cond _)).trans
      (grows_part yes _)).trans (grows_part no _)
  | .vector elements, l => by
    simp only [part]
    split
    · exact grows_parts elements l
    · exact .refl l
  | .helperCall _ args, l => (grows_parts args l).trans (.setAside _ _)
  | .hostCall f args _, l =>
    ((Layout.Grows.bind f "fn" l).trans (grows_parts args _)).trans (.setAside _ _)
  | .bind _ value body, l => (grows_part value l).trans (grows_part body _)
  | .sequence _ _, l => .refl l

theorem Expr.grows_parts : ∀ (es : List Expr) (l : Layout), l.Grows (parts es l).2
  | [], l => .refl l
  | e :: rest, l => (grows_part e l).trans (grows_parts rest _)

end

theorem Expr.grows_regions {es : List Expr} (slot : Int) (l : Layout)
    (h : ∀ e ∈ es, ∀ slot (l : Layout), l.Grows (e.region slot l).2) :
    l.Grows (regions es slot l).2 := by
  induction es generalizing slot l with
  | nil => exact .refl l
  | cons e rest ih =>
    obtain ⟨hFirst, hRest⟩ := List.forall_mem_cons.mp h
    exact (hFirst slot l).trans (ih (slot + 1) _ hRest)

theorem Expr.grows_region (e : Expr) (slot : Int) (l : Layout) : l.Grows (e.region slot l).2 := by
  induction e using region_induction generalizing slot l with
  | simple e h hWidth =>
    rw [region_of_simple h hWidth]
    exact grows_part e l
  | constant | sequence => exact .refl l
  | load v hSize =>
    rw [region, if_neg hSize]
    exact .refl l
  | choice cond yes no hWidth ihYes ihNo =>
    rw [region, if_neg hWidth]
    exact ((grows_part cond l).trans (ihYes slot _)).trans (ihNo slot _)
  | vector es ih => exact grows_regions slot l ih
  | call f args width hWidth =>
    rw [region, if_neg hWidth]
    exact ((Layout.Grows.bind f "fn" l).trans (grows_parts args _)).trans (.setAside _ _)
  | bind index value body ih => exact (grows_part value l).trans (ih slot _)

/-! ## Statements and whole routines -/

/-- A layout that has handed out a region behind the others. -/
def Layout.opened (width : Int) (l : Layout) : Layout :=
  { l with nextSlot := l.nextSlot + width, extent := max l.extent (l.nextSlot + width) }

/-- A layout that has taken back the regions from a slot on. -/
def Layout.closed (base : Int) (l : Layout) : Layout := { l with nextSlot := base }

/-- What a statement becomes in a routine whose result starts at slot `output`. -/
def Stmt.outline (output : Int) : Stmt → Layout → List Step × Layout
  | .discard e, l =>
    if e.isConstant then ([], l)
    else
      let a := e.region l.nextSlot (l.opened e.width)
      (a.1, a.2.closed l.nextSlot)
  | .assignLocal index e, l =>
    let p := e.part l
    (p.1.steps ++ [.act (.setLocal index p.1.code)], p.2)
  | .assignVariable v e, l =>
    if v.size = 1 then
      let p := e.part l
      (p.1.steps ++ [.act (.setVariable v.offset p.1.code)], p.2)
    else
      let a := e.region l.nextSlot (l.opened v.size)
      (a.1 ++ [.act (.store v.offset v.size l.nextSlot)], a.2.closed l.nextSlot)
  | .ret e, l =>
    let a := e.region output l
    (a.1 ++ [.act .finish], a.2)

theorem Layout.Grows.opened_closed {l l' : Layout} {width : Int} (h : (l.opened width).Grows l') :
    l.Grows (l'.closed l.nextSlot) where
  scratchLocal := h.scratchLocal
  nextLocal := h.nextLocal
  nextSlot := rfl
  extent := Int.le_trans (Int.le_max_left _ _) h.extent
  resultRegion := h.resultRegion

theorem Stmt.grows_outline (output : Int) :
    ∀ (s : Stmt) (l : Layout), l.Grows (s.outline output l).2
  | .discard e, l => by
    simp only [outline]
    split
    · exact .refl l
    · exact (grows_region e _ _).opened_closed
  | .assignLocal _ e, l => grows_part e l
  | .assignVariable v e, l => by
    simp only [outline]
    split
    · exact grows_part e l
    · exact (grows_region e _ _).opened_closed
  | .ret e, l => grows_region e output l

def Stmt.outlines (output : Int) : List Stmt → Layout → List Step × Layout
  | [], l => ([], l)
  | s :: rest, l =>
    let a := s.outline output l
    let b := outlines output rest a.2
    (a.1 ++ b.1, b.2)

theorem Stmt.grows_outlines (output : Int) :
    ∀ (stmts : List Stmt) (l : Layout), l.Grows (outlines output stmts l).2
  | [], l => .refl l
  | s :: rest, l => (grows_outline output s l).trans (grows_outlines output rest _)

def zeroSteps (slot : Int) (count : Nat) : List Step :=
  (List.range count).map fun (i : Nat) => .act (.setSlot (slot + i) (.literal 0))

/-- What a source becomes as a region that starts at a slot. -/
def Expr.rootRegion : Expr → Int → Layout → List Step × Layout
  | .sequence statements width, slot, l =>
    let a := Stmt.outlines slot statements { l with resultRegion := some slot }
    (a.1 ++ zeroSteps slot width.toNat, a.2)
  | e, slot, l => e.region slot l

theorem Expr.rootRegion_eq {b : Bounds} {e : Expr} (h : e.Each (Fits b)) (slot : Int)
    (l : Layout) : e.rootRegion slot l = e.region slot l := by
  cases e with
  | sequence => exact absurd h id
  | _ => rfl

def tempSteps (scratchLocal temps : Nat) : List Step :=
  (List.range temps).map fun i => .act (.setLocal (scratchLocal + 1 + i) (.literal 0))

/-- The body of a routine before the scratch buffer is asked for. -/
def Expr.mainSteps (e : Expr) (l : Layout) : List Step × Layout :=
  let a := e.rootRegion l.nextSlot (l.opened e.width)
  (a.1 ++ [.act .finish], a.2)

theorem Expr.scratchLocal_mainSteps (e : Expr) (l : Layout) :
    (e.mainSteps l).2.scratchLocal = l.scratchLocal := by
  cases e with
  | sequence stmts width => exact (Stmt.grows_outlines _ stmts _).scratchLocal
  | _ => exact (grows_region _ _ _).scratchLocal

theorem Expr.width_le_extent (e : Expr) (l : Layout) :
    l.nextSlot + e.width ≤ (e.mainSteps l).2.extent := by
  have hOpened : l.nextSlot + e.width ≤ (l.opened e.width).extent := Int.le_max_right _ _
  refine Int.le_trans hOpened ?_
  cases e with
  | sequence stmts width => exact (Stmt.grows_outlines _ stmts _).extent
  | _ => exact (grows_region _ _ _).extent

def Expr.body (e : Expr) (temps : Nat) (l : Layout) : List Step × Layout :=
  let a := e.mainSteps l
  (.act (.acquire a.2.extent) :: (tempSteps a.2.scratchLocal temps ++ a.1), a.2)

/-- The routine of a source with the given number of arguments and temps. -/
def Routine.outline (name : String) (e : Expr) (args temps : Nat) : Routine :=
  ⟨name, args, (e.body temps (Layout.start args (args + 1 + temps) 0)).1⟩

end MolangCompiler
