import Mathlib.Data.List.Chain
import MolangCompiler.Proofs.Outline
import MolangCompiler.Proofs.Regular

/-!
# What the loader objects to

The loader looks at each line together with the line before it.  In the lines of an outline every
header is followed by a deeper line and no other line is, unless a block of the outline is empty,
which it is not if every expression stores at least one value.  So only two of the problems that the
loader knows are left: a line may stand too far to the right, and its brackets may nest too deep.
-/

namespace MolangCompiler

open Code MolangCompiler.Expr Step

/-! ## Lines that follow each other -/

variable {before : Nat × Line} {e : Expr}

namespace Routine

/-- A line is deeper than the line before it just if that one is a header. -/
def Admits (before : Nat × Line) (level : Nat) : Prop :=
  (header? before.2).isSome ↔ before.1 < level

/-- A line that may stand behind another, whatever its depth. -/
def Follows (before line : Nat × Line) : Prop :=
  Admits before line.1 ∧ hasNoTarget line.2 = false

def InLimits (line : Nat × Line) : Prop := line.1 < maxLevel ∧ line.2.nesting ≤ maxNesting

def OfDepth (problem : LoadProblem) : Prop := problem = .indentation ∨ problem = .nesting

/-- Where a line may stand, its depth is the only problem that it can have. -/
theorem lineProblem?_of_follows {m : Nat} {line : Nat × Line} (h : Follows before line) :
    lineProblem? m before line =
      if maxLevel ≤ line.1 then some .indentation
      else if maxNesting < line.2.nesting then some .nesting
      else none := by
  obtain ⟨hAdmits, hTarget⟩ := h
  unfold lineProblem?
  rw [hTarget]
  cases hHeader : header? before.2 with
  | some word =>
    have hDeeper : ¬ line.1 ≤ before.1 := Nat.not_le.mpr (hAdmits.mp (by rw [hHeader]; rfl))
    simp [hDeeper]
  | none =>
    have hSame : ¬ before.1 < line.1 := by
      intro hLt
      have hSome := hAdmits.mpr hLt
      rw [hHeader] at hSome
      cases hSome
    simp [hSame]

/-- **A chain of lines** has a problem just if one of them is too deep. -/
theorem firstProblem?_of_chain {lines : List (Nat × Line)}
    (h : List.IsChain Follows (before :: lines)) (m : Nat) :
    (firstProblem? m before lines = none ↔ ∀ line ∈ lines, InLimits line) ∧
      ∀ problem, firstProblem? m before lines = some problem → OfDepth problem := by
  induction lines generalizing before m with
  | nil => exact ⟨by simp [firstProblem?], fun _ hProblem => nomatch hProblem⟩
  | cons line rest ih =>
    obtain ⟨hFirst, hRest⟩ := List.isChain_cons_cons.mp h
    obtain ⟨hNone, hSome⟩ := ih hRest (m + 1)
    unfold firstProblem?
    rw [lineProblem?_of_follows hFirst, List.forall_mem_cons]
    by_cases hLevel : maxLevel ≤ line.1
    · rw [if_pos hLevel]
      refine ⟨⟨(nomatch ·), fun hAll => ?_⟩, fun problem hProblem => ?_⟩
      · exact absurd hAll.1.1 (Nat.not_lt.mpr hLevel)
      · cases hProblem
        exact .inl rfl
    · rw [if_neg hLevel]
      by_cases hNesting : maxNesting < line.2.nesting
      · rw [if_pos hNesting]
        refine ⟨⟨(nomatch ·), fun hAll => ?_⟩, fun problem hProblem => ?_⟩
        · exact absurd hAll.1.2 (Nat.not_le.mpr hNesting)
        · cases hProblem
          exact .inr rfl
      · rw [if_neg hNesting]
        have hLine : InLimits line := ⟨Nat.not_le.mp hLevel, Nat.not_lt.mp hNesting⟩
        exact ⟨hNone.trans ⟨fun hAll => ⟨hLine, hAll⟩, fun hAll => hAll.2⟩, hSome⟩

end Routine

theorem Step.listing_ne_nil {level : Nat} {steps : List Step} (h : steps ≠ []) :
    listing level steps ≠ [] :=
  fun hNone => h (length_listing_eq_zero.mp (List.length_eq_zero_iff.mpr hNone))

/-! ## Blocks of lines -/

/-- The lines of a block at a level.  An `if` has a block one level deeper, directly behind it comes
its `else` with another one, and neither block is empty. -/
inductive Block : Nat → List (Nat × Line) → Prop where
  | nil {level : Nat} : Block level []
  | act {level : Nat} {rest : List (Nat × Line)} {action : Action} :
      Routine.hasNoTarget (.act action) = false → Block level rest →
      Block level ((level, .act action) :: rest)
  | choose {level : Nat} {yes no rest : List (Nat × Line)} (test : Test) :
      yes ≠ [] → Block (level + 1) yes → no ≠ [] → Block (level + 1) no → Block level rest →
      Block level ((level, .onlyIf test) :: (yes ++ (level, .otherwise) :: (no ++ rest)))

/-- A line stands one level deeper than a header before it, and not deeper than any other line. -/
def Line.Indents (before line : Nat × Line) : Prop :=
  if (Routine.header? before.2).isSome then line.1 = before.1 + 1 else line.1 ≤ before.1

namespace Block

variable {level : Nat} {xs ys : List (Nat × Line)}

theorem append (hx : Block level xs) (hy : Block level ys) : Block level (xs ++ ys) := by
  induction hx with
  | nil => exact hy
  | act hTarget _ ih => exact .act hTarget (ih hy)
  | choose test hSome hYes hSome' hNo _ _ _ ih =>
    have hBoth := choose test hSome hYes hSome' hNo (ih hy)
    simpa using hBoth

theorem hasNoTarget_eq_false (h : Block level xs) :
    ∀ line ∈ xs, Routine.hasNoTarget line.2 = false := by
  induction h with
  | nil => simp
  | act hTarget _ ih => exact List.forall_mem_cons.mpr ⟨hTarget, ih⟩
  | choose test _ _ _ _ _ ihYes ihNo ih =>
    refine List.forall_mem_cons.mpr ⟨rfl, List.forall_mem_append.mpr ⟨ihYes, ?_⟩⟩
    exact List.forall_mem_cons.mpr ⟨rfl, List.forall_mem_append.mpr ⟨ihNo, ih⟩⟩

theorem indents_of_plain {line : Nat × Line} (hPlain : Routine.header? before.2 = none)
    (hLevel : line.1 ≤ before.1) : Line.Indents before line := by
  unfold Line.Indents
  rw [hPlain]
  exact hLevel

/-- **Indentation in a block**, behind a line that opens it or stands in it, and in front of text
that may follow a block. -/
theorem chain (h : Block level xs) (hBefore : ∀ line, Line.Indents before (level, line))
    (hSome : xs = [] → Routine.header? before.2 = none ∧ level ≤ before.1)
    (hRest : ∀ last : Nat × Line, Routine.header? last.2 = none → level ≤ last.1 →
      List.IsChain Line.Indents (last :: ys)) :
    List.IsChain Line.Indents (before :: (xs ++ ys)) := by
  induction h generalizing before ys with
  | nil => exact hRest before (hSome rfl).1 (hSome rfl).2
  | act _ _ ih =>
    refine List.isChain_cons_cons.mpr ⟨hBefore _, ih (fun _ => Nat.le_refl _) (fun _ => ?_) hRest⟩
    exact ⟨rfl, Nat.le_refl _⟩
  | choose test hYes _ hNo _ _ ihYes ihNo ih =>
    rw [List.cons_append, List.append_assoc, List.cons_append, List.append_assoc]
    refine List.isChain_cons_cons.mpr
      ⟨hBefore _, ihYes (fun _ => rfl) (fun hNone => absurd hNone hYes)
        fun last hPlain hLevel => ?_⟩
    have hElse := Nat.le_of_succ_le hLevel
    refine List.isChain_cons_cons.mpr ⟨indents_of_plain hPlain hElse,
      ihNo (fun _ => rfl) (fun hNone => absurd hNone hNo) fun last hPlain hLevel => ?_⟩
    have hBehind := Nat.le_of_succ_le hLevel
    exact ih (fun _ => indents_of_plain hPlain hBehind) (fun _ => ⟨hPlain, hBehind⟩) hRest

end Block

namespace Routine

theorem follows_of_indents {line : Nat × Line} (h : Line.Indents before line)
    (hTarget : hasNoTarget line.2 = false) : Follows before line := by
  refine ⟨?_, hTarget⟩
  unfold Line.Indents at h
  unfold Admits
  split at h
  next hHeader => exact ⟨fun _ => h ▸ Nat.lt_succ_self _, fun _ => hHeader⟩
  next hPlain => exact ⟨fun hHeader => absurd hHeader hPlain,
    fun hLt => absurd hLt (Nat.not_lt.mpr h)⟩

variable {body : List Step} (hSome : body ≠ []) (hBlock : Block 1 (listing 1 body)) (name : String)
  (params : Nat)

include hSome hBlock

theorem indents_define :
    List.IsChain Line.Indents ((0, .define name params) :: listing 1 body) := by
  rw [← List.append_nil (listing 1 body)]
  exact hBlock.chain (fun _ => rfl) (fun hNone => absurd hNone (listing_ne_nil hSome))
    fun last _ _ => .singleton last

theorem chain_define : List.IsChain Follows ((0, .define name params) :: listing 1 body) := by
  refine List.IsChain.imp_of_mem_tail_imp (fun before line _ hLine h => ?_)
    (indents_define hSome hBlock name params)
  exact follows_of_indents h (hBlock.hasNoTarget_eq_false line hLine)

/-- **A block is loaded** if no line is too deep. -/
theorem load_of_within (h : ∀ line ∈ listing 1 body, InLimits line) :
    load ((0, .define name params) :: listing 1 body) = .ok ⟨name, params, body⟩ := by
  have hNone := (firstProblem?_of_chain (chain_define hSome hBlock name params) 1).1.mpr h
  unfold load
  dsimp only
  rw [hNone, ofLines?_define]

/-- **A line that is too deep** is all that keeps a block from being loaded. -/
theorem load_of_not_within (h : ¬ ∀ line ∈ listing 1 body, InLimits line) :
    ∃ problem, load ((0, .define name params) :: listing 1 body) = .error problem ∧
      OfDepth problem := by
  obtain ⟨hNone, hDepth⟩ := firstProblem?_of_chain (chain_define hSome hBlock name params) 1
  cases hProblem : firstProblem? 1 (0, .define name params) (listing 1 body) with
  | none => exact absurd (hNone.mp hProblem) h
  | some problem =>
    refine ⟨problem, ?_, hDepth problem hProblem⟩
    unfold load
    dsimp only
    rw [hProblem]

end Routine

/-! ## The depth of a tree -/

mutual

/-- How many operations of an expression lie within each other. -/
def Expr.depth : Expr → Nat
  | .constant _ | .localRead _ _ | .variableRead _ => 0
  | .negate operand | .not operand => operand.depth + 1
  | .binary _ left right | .logical _ left right => max left.depth right.depth + 1
  | .ternary condition yes no => max condition.depth (max yes.depth no.depth) + 1
  | .vector elements => Expr.depthOf elements
  | .helperCall _ args | .hostCall _ args _ => Expr.depthOf args + 1
  | .bind _ value body => max value.depth body.depth
  | .sequence statements _ => Stmt.depthOf statements

def Expr.depthOf : List Expr → Nat
  | [] => 0
  | e :: rest => max e.depth (Expr.depthOf rest)

def Stmt.depth : Stmt → Nat
  | .discard e | .assignLocal _ e | .assignVariable _ e | .ret e => e.depth

def Stmt.depthOf : List Stmt → Nat
  | [] => 0
  | s :: rest => max s.depth (Stmt.depthOf rest)

end

/-! ## Shallow steps -/

/-- Code whose brackets nest no deeper than a tree of the given depth needs. -/
def Code.Shallow (depth : Nat) (c : Code) : Prop := c.nesting ≤ 2 * depth + 1

/-- Steps whose lines stand no further to the right, and whose brackets nest no deeper, than a tree
of the given depth needs. -/
def Step.Shallow (depth : Nat) (steps : List Step) : Prop :=
  ∀ level, ∀ line ∈ listing level steps, line.1 ≤ level + depth ∧ line.2.nesting ≤ 2 * depth + 1

variable {d : Nat}

theorem Code.Shallow.mono {c : Code} {d' : Nat} (h : c.Shallow d) (hLe : d ≤ d') :
    c.Shallow d' := by
  unfold Shallow at *
  omega

theorem Code.Shallow.bracketed {c : Code} (h : c.Shallow d) : c.nesting + 1 ≤ 2 * (d + 1) + 1 := by
  unfold Shallow at h
  omega

theorem Code.shallow_literal (x : Float) (d : Nat) : (literal x).Shallow d := by
  unfold Shallow nesting
  dsimp only
  split <;> omega

theorem Code.shallow_readLocal (index d : Nat) : (readLocal index).Shallow d := Nat.zero_le _

theorem Code.listNesting_le {cs : List Code} (h : ∀ c ∈ cs, c.Shallow d) :
    listNesting cs ≤ 2 * d + 1 := by
  induction cs with
  | nil => exact Nat.zero_le _
  | cons c rest ih =>
    obtain ⟨hFirst, hRest⟩ := List.forall_mem_cons.mp h
    exact Nat.max_le.mpr ⟨hFirst, ih hRest⟩

theorem Code.shallow_ofOperands (op : BinaryOp) {cs : List Code} (h : ∀ c ∈ cs, c.Shallow d) :
    (ofOperands op cs).Shallow (d + 1) := by
  unfold ofOperands
  split
  · rename_i left right
    have hLeft : left.nesting ≤ 2 * d + 1 := h left (by simp)
    have hRight : right.nesting ≤ 2 * d + 1 := h right (by simp)
    unfold Shallow nesting
    split <;> omega
  · exact shallow_literal 0 (d + 1)

/-- Shallow steps whose lines are a block, which can be loaded unless they are too deep. -/
structure Step.Loadable (depth : Nat) (steps : List Step) : Prop where
  block : ∀ level, Block level (listing level steps)
  shallow : Shallow depth steps

namespace Step.Loadable

variable {d d' : Nat} {xs ys : List Step}

theorem nil (d : Nat) : Loadable d [] := ⟨fun _ => .nil, fun _ _ hMem => nomatch hMem⟩

theorem mono (h : Loadable d xs) (hLe : d ≤ d') : Loadable d' xs := by
  refine ⟨h.block, fun level line hLine => ?_⟩
  obtain ⟨hLevel, hNesting⟩ := h.shallow level line hLine
  omega

theorem append (hx : Loadable d xs) (hy : Loadable d ys) : Loadable d (xs ++ ys) := by
  refine ⟨fun level => ?_, fun level line hLine => ?_⟩
  · rw [listing_append]
    exact (hx.block level).append (hy.block level)
  rw [listing_append] at hLine
  rcases List.mem_append.mp hLine with hLine | hLine
  · exact hx.shallow level line hLine
  · exact hy.shallow level line hLine

theorem act {action : Action} (h : (Line.act action).nesting ≤ 2 * d + 1)
    (hTarget : Routine.hasNoTarget (.act action) = false := by rfl) : Loadable d [.act action] := by
  refine ⟨fun _ => .act hTarget .nil, fun level line hLine => ?_⟩
  cases List.mem_singleton.mp hLine
  exact ⟨Nat.le_add_right _ _, h⟩

theorem cons {action : Action} (h : (Line.act action).nesting ≤ 2 * d + 1) (hx : Loadable d xs)
    (hTarget : Routine.hasNoTarget (.act action) = false := by rfl) :
    Loadable d (.act action :: xs) := append (act h hTarget) hx

theorem of_actions {α : Type} (f : α → Action) (items : List α)
    (h : ∀ x, (Line.act (f x)).nesting ≤ 1) (d : Nat)
    (hTarget : ∀ x, Routine.hasNoTarget (.act (f x)) = false := by exact fun _ => rfl) :
    Loadable d (items.map fun x => .act (f x)) := by
  induction items with
  | nil => exact nil d
  | cons x rest ih => exact cons (Nat.le_trans (h x) (Nat.le_add_left _ _)) ih (hTarget x)

theorem choose {test : Test} (hTest : (Line.onlyIf test).nesting ≤ 2 * d + 1)
    (hx : Loadable d xs) (hy : Loadable d ys) (hYes : xs ≠ [] := by simp)
    (hNo : ys ≠ [] := by simp) : Loadable (d + 1) [.choose test xs ys] := by
  refine ⟨fun level => ?_, fun level line hLine => ?_⟩
  · have hChoice := Block.choose test (listing_ne_nil hYes) (hx.block (level + 1))
      (listing_ne_nil hNo) (hy.block (level + 1)) .nil
    rwa [List.append_nil, ← listing_choose] at hChoice
  rw [listing_choose] at hLine
  rcases List.mem_cons.mp hLine with rfl | hLine
  · dsimp only
    omega
  rcases List.mem_append.mp hLine with hLine | hLine
  · obtain ⟨hLevel, hNesting⟩ := hx.shallow (level + 1) line hLine
    omega
  rcases List.mem_cons.mp hLine with rfl | hLine
  · exact ⟨Nat.le_add_right _ _, Nat.zero_le _⟩
  · obtain ⟨hLevel, hNesting⟩ := hy.shallow (level + 1) line hLine
    omega

end Step.Loadable

/-- A part whose steps are loadable and whose code is shallow. -/
structure Part.Loadable (depth : Nat) (p : Part) : Prop where
  steps : Step.Loadable depth p.steps
  code : p.code.Shallow depth

namespace Part

variable {d : Nat} {ps : List Part}

theorem Loadable.mono {p : Part} {d' : Nat} (h : p.Loadable d) (hLe : d ≤ d') : p.Loadable d' :=
  ⟨h.steps.mono hLe, h.code.mono hLe⟩

theorem loadable_stepsOf (h : ∀ p ∈ ps, p.Loadable d) : Step.Loadable d (stepsOf ps) := by
  induction ps with
  | nil => exact .nil d
  | cons p rest ih =>
    obtain ⟨hFirst, hRest⟩ := List.forall_mem_cons.mp h
    exact hFirst.steps.append (ih hRest)

theorem loadable_codesOf (h : ∀ p ∈ ps, p.Loadable d) : ∀ c ∈ codesOf ps, c.Shallow d := by
  intro c hc
  obtain ⟨p, hp, rfl⟩ := List.mem_map.mp hc
  exact (h p hp).code

theorem loadable_setAside (h : ∀ p ∈ ps, p.Loadable d) (l : Layout) :
    ∀ p ∈ (setAside ps l).1, p.Loadable d := by
  induction ps with
  | nil => exact h
  | cons p rest ih =>
    obtain ⟨hFirst, hRest⟩ := List.forall_mem_cons.mp h
    simp only [setAside]
    split
    · exact List.forall_mem_cons.mpr
        ⟨⟨hFirst.steps.append (.act hFirst.code), shallow_readLocal _ d⟩, ih hRest⟩
    · exact List.forall_mem_cons.mpr ⟨hFirst, ih hRest⟩

theorem loadable_stored {p : Part × Layout} (h : p.1.Loadable d) (slot : Int) :
    Step.Loadable d (stored slot p).1 :=
  h.steps.append (.act (Nat.max_le.mpr ⟨Nat.le_add_left _ _, h.code⟩))

end Part

/-! ## Outlines are blocks, as shallow as their trees -/

theorem LogicalOp.nesting_openTest (op : LogicalOp) (c : Code) :
    (Line.onlyIf (op.openTest c)).nesting = c.nesting := by
  cases op <;> rfl

namespace Expr

mutual

theorem loadable_part : ∀ (e : Expr) (l : Layout), (e.part l).1.Loadable e.depth
  | .constant xs, _ => ⟨.nil _, shallow_literal _ _⟩
  | .localRead _ _, _ => ⟨.nil _, shallow_readLocal _ _⟩
  | .variableRead _, _ => ⟨.nil _, Nat.le_refl 1⟩
  | .negate operand, l | .not operand, l => by
    have hOperand := loadable_part operand l
    exact ⟨hOperand.steps.mono (Nat.le_succ _), hOperand.code.bracketed⟩
  | .binary op left right, l => by
    have hBoth : ∀ p ∈ [(left.part l).1, (right.part (left.part l).2).1],
        p.Loadable (max left.depth right.depth) := by
      intro p hp
      rcases List.mem_pair.mp hp with rfl | rfl
      · exact (loadable_part left l).mono (Nat.le_max_left _ _)
      · exact (loadable_part right _).mono (Nat.le_max_right _ _)
    have hAside := Part.loadable_setAside hBoth (right.part (left.part l).2).2
    exact ⟨(Part.loadable_stepsOf hAside).mono (Nat.le_succ _),
      shallow_ofOperands op (Part.loadable_codesOf hAside)⟩
  | .logical op left right, l => by
    have hLeft := (loadable_part left (l.reserveLocals 1).2).mono
      (Nat.le_max_left left.depth right.depth)
    have hRight := (loadable_part right (left.part (l.reserveLocals 1).2).2).mono
      (Nat.le_max_right left.depth right.depth)
    refine ⟨(hLeft.steps.mono (Nat.le_succ _)).append (.choose ?_ ?_ (.act ?_)),
      shallow_readLocal _ _⟩
    · rw [LogicalOp.nesting_openTest]
      exact hLeft.code
    · exact hRight.steps.append (.act hRight.code)
    · exact shallow_literal _ _
  | .ternary cond yes no, l => by
    let depth := max cond.depth (max yes.depth no.depth)
    have hTest := (loadable_part cond (l.reserveLocals 1).2).mono (show cond.depth ≤ depth by omega)
    have hYes := (loadable_part yes (cond.part (l.reserveLocals 1).2).2).mono
      (show yes.depth ≤ depth by omega)
    have hNo := (loadable_part no (yes.part (cond.part (l.reserveLocals 1).2).2).2).mono
      (show no.depth ≤ depth by omega)
    exact ⟨(hTest.steps.mono (Nat.le_succ _)).append (.choose hTest.code
      (hYes.steps.append (.act hYes.code)) (hNo.steps.append (.act hNo.code))),
      shallow_readLocal _ _⟩
  | .vector elements, l => by
    have hParts := loadable_parts elements l
    simp only [part]
    split
    · rename_i p hOne
      rw [hOne] at hParts
      have hPart := hParts p (List.mem_singleton.mpr rfl)
      exact ⟨hPart.steps, hPart.code⟩
    · exact ⟨.nil _, shallow_literal _ _⟩
  | .helperCall _ args, l => by
    have hAside := Part.loadable_setAside (loadable_parts args l) (parts args l).2
    exact ⟨(Part.loadable_stepsOf hAside).mono (Nat.le_succ _),
      Nat.add_le_add_right (listNesting_le (Part.loadable_codesOf hAside)) 2⟩
  | .hostCall f args _, l => by
    have hAside := Part.loadable_setAside (loadable_parts args (l.bind f "fn").2)
      (parts args (l.bind f "fn").2).2
    exact ⟨(Part.loadable_stepsOf hAside).mono (Nat.le_succ _),
      Nat.add_le_add_right (listNesting_le (Part.loadable_codesOf hAside)) 2⟩
  | .bind _ value body, l => by
    have hValue := (loadable_part value l).mono (Nat.le_max_left value.depth body.depth)
    have hBody := (loadable_part body (value.part l).2).mono
      (Nat.le_max_right value.depth body.depth)
    exact ⟨hValue.steps.append (.cons hValue.code hBody.steps), hBody.code⟩
  | .sequence _ _, _ => ⟨.nil _, shallow_literal _ _⟩

theorem loadable_parts : ∀ (es : List Expr) (l : Layout),
    ∀ p ∈ (parts es l).1, p.Loadable (depthOf es)
  | [], _ => fun _ hp => nomatch hp
  | e :: rest, l => by
    have hRest := loadable_parts rest (e.part l).2
    refine List.forall_mem_cons.mpr ⟨?_, fun p hp => ?_⟩
    · exact (loadable_part e l).mono (Nat.le_max_left _ _)
    · exact (hRest p hp).mono (Nat.le_max_right _ _)

end

theorem region_ne_nil (e : Expr) (h : e.Each Filled) (slot : Int) (l : Layout) :
    (e.region slot l).1 ≠ [] := by
  induction e using region_induction generalizing slot l with
  | simple e hSimple hWidth =>
    rw [region_of_simple hSimple hWidth]
    simp [Part.stored]
  | constant xs =>
    have hSome : xs ≠ [] := h
    simp [region, literalSteps, hSome]
  | load v hSize => simp [region, hSize]
  | choice cond yes no hWidth => simp [region, hWidth]
  | vector es ih =>
    cases es with
    | nil => exact absurd rfl h.1
    | cons e rest =>
      exact List.append_ne_nil_of_left_ne_nil (ih e List.mem_cons_self h.2.1 slot l) _
  | call function args width hWidth => simp [region, hWidth]
  | bind => simp [region]
  | sequence stmts width => exact absurd h id

theorem loadable_regions {es : List Expr}
    (h : ∀ e ∈ es, ∀ slot l, Loadable e.depth (e.region slot l).1) (slot : Int) (l : Layout) :
    Loadable (depthOf es) (regions es slot l).1 := by
  induction es generalizing slot l with
  | nil => exact .nil _
  | cons e rest ih =>
    obtain ⟨hFirst, hRest⟩ := List.forall_mem_cons.mp h
    exact ((hFirst slot l).mono (Nat.le_max_left _ _)).append
      ((ih hRest (slot + 1) _).mono (Nat.le_max_right _ _))

/-- **The region of a tree that stores values** is loadable. -/
theorem loadable_region (e : Expr) (h : e.Each Filled) (slot : Int) (l : Layout) :
    Step.Loadable e.depth (e.region slot l).1 := by
  induction e using region_induction generalizing slot l with
  | simple e hSimple hWidth =>
    rw [region_of_simple hSimple hWidth]
    exact Part.loadable_stored (loadable_part e l) slot
  | constant xs =>
    exact .of_actions (fun p : Float × Nat => .setSlot (slot + p.2) (.literal p.1)) xs.zipIdx
      (fun p => Nat.max_le.mpr ⟨Nat.le_refl 1, shallow_literal p.1 0⟩) _
  | load v hSize =>
    rw [region, if_neg hSize]
    exact .act (Nat.le_add_left _ _)
  | choice cond yes no hWidth ihYes ihNo =>
    rw [region, if_neg hWidth]
    let depth := max cond.depth (max yes.depth no.depth)
    have hTest := (loadable_part cond l).mono (show cond.depth ≤ depth by omega)
    have hYes := (ihYes h.2.2.1 slot (cond.part l).2).mono (show yes.depth ≤ depth by omega)
    have hNo := (ihNo h.2.2.2 slot (yes.region slot (cond.part l).2).2).mono
      (show no.depth ≤ depth by omega)
    exact (hTest.steps.mono (Nat.le_succ _)).append (.choose hTest.code hYes hNo
      (region_ne_nil yes h.2.2.1 slot _) (region_ne_nil no h.2.2.2 slot _))
  | vector es ih =>
    exact loadable_regions (fun e he => ih e he ((eachOf_iff es).mp h.2 e he)) slot l
  | call f args width hWidth =>
    rw [region, if_neg hWidth]
    have hAside := Part.loadable_setAside (loadable_parts args (l.bind f "fn").2)
      (parts args (l.bind f "fn").2).2
    have hCodes := listNesting_le (Part.loadable_codesOf hAside)
    refine ((Part.loadable_stepsOf hAside).mono (Nat.le_succ _)).append (.act ?_ ?_)
    · show listNesting _ + 1 ≤ 2 * (depthOf args + 1) + 1
      omega
    · have hPositive : 1 ≤ width := h.1
      obtain ⟨n, hn⟩ : ∃ n, width.toNat = n + 1 := ⟨width.toNat - 1, by omega⟩
      show Routine.hasNoTarget (.act (.setSlots slot width.toNat _ _)) = false
      rw [hn]
      rfl
  | bind index value body ih =>
    have hValue := (loadable_part value l).mono (Nat.le_max_left value.depth body.depth)
    have hBody := (ih h.2.2 slot (value.part l).2).mono (Nat.le_max_right value.depth body.depth)
    exact hValue.steps.append (.cons hValue.code hBody)
  | sequence => exact .nil _

end Expr

theorem Stmt.loadable_outline {s : Stmt} (h : s.expr.Each Filled) (output : Int) (l : Layout) :
    Loadable s.depth (s.outline output l).1 := by
  cases s with
  | discard e =>
    simp only [outline]
    split
    · exact .nil _
    · exact loadable_region e h _ _
  | assignLocal index e =>
    have hPart := loadable_part e l
    exact hPart.steps.append (.act hPart.code)
  | assignVariable v e =>
    simp only [outline]
    split
    · have hPart := loadable_part e l
      exact hPart.steps.append (.act (Nat.max_le.mpr ⟨Nat.le_add_left _ _, hPart.code⟩))
    · exact (loadable_region e h _ _).append (.act (Nat.le_add_left _ _))
  | ret e => exact (loadable_region e h _ _).append (.act (Nat.zero_le _))

theorem Stmt.loadable_outlines (output : Int) {stmts : List Stmt}
    (h : ∀ s ∈ stmts, s.expr.Each Filled) (l : Layout) :
    Loadable (depthOf stmts) (outlines output stmts l).1 := by
  induction stmts generalizing l with
  | nil => exact .nil _
  | cons s rest ih =>
    obtain ⟨hFirst, hRest⟩ := List.forall_mem_cons.mp h
    exact ((loadable_outline hFirst output l).mono (Nat.le_max_left _ _)).append
      ((ih hRest _).mono (Nat.le_max_right _ _))

theorem Expr.loadable_rootRegion (h : e.EachNode Filled) (slot : Int) (l : Layout) :
    Loadable e.depth (e.rootRegion slot l).1 := by
  cases e with
  | sequence stmts width =>
    exact (Stmt.loadable_outlines slot h _).append
      (.of_actions (fun i : Nat => .setSlot (slot + i) (.literal 0)) _
        (fun _ => Nat.max_le.mpr ⟨Nat.le_refl 1, shallow_literal 0 0⟩) _)
  | _ => exact loadable_region _ h slot l

/-- **A routine is a block that nests as deep as its tree**, if that stores values. -/
theorem Expr.loadable_body (h : e.EachNode Filled) (temps : Nat) (l : Layout) :
    Loadable e.depth (e.body temps l).1 :=
  .cons (Nat.le_add_left _ _) (.append
    (.of_actions (fun i : Nat => .setLocal ((e.mainSteps l).2.scratchLocal + 1 + i) (.literal 0)) _
      (fun _ => shallow_literal 0 0) _)
    ((loadable_rootRegion h _ _).append (.act (Nat.zero_le _))))

/-! ## What loading tells of a tree -/

/-- Steps whose lines all have their targets. -/
def Step.Targeted (level : Nat) (steps : List Step) : Prop :=
  ∀ line ∈ listing level steps, Routine.hasNoTarget line.2 = false

variable {level : Nat} {b : Bounds}

theorem Step.targeted_append {xs ys : List Step} :
    Targeted level (xs ++ ys) ↔ Targeted level xs ∧ Targeted level ys := by
  rw [Targeted, listing_append, List.forall_mem_append]
  rfl

/-- A host call in vain leaves a line without a target. -/
theorem Expr.delivers_of_region (e : Expr) (h : e.Each (Fits b)) (slot : Int) (l : Layout)
    (hTargets : Targeted level (e.region slot l).1) : e.Each Delivers := by
  induction e using region_induction generalizing slot l level with
  | simple e hSimple hWidth => exact delivers_of_width e h hWidth
  | constant | load => trivial
  | choice cond yes no hWidth ihYes ihNo =>
    rw [region, if_neg hWidth] at hTargets
    have hChoice := (targeted_append.mp hTargets).2
    rw [Targeted, listing_choose, List.forall_mem_cons, List.forall_mem_append,
      List.forall_mem_cons] at hChoice
    exact ⟨trivial, delivers_of_width cond h.2.1 h.1.1, ihYes h.2.2.1 slot _ hChoice.2.1,
      ihNo h.2.2.2 slot _ hChoice.2.2.2⟩
  | vector es => exact ⟨trivial, delivers_of_widths es h.2 h.1⟩
  | call f args width hWidth =>
    rw [region, if_neg hWidth] at hTargets
    have hTarget := (targeted_append.mp hTargets).2 _ List.mem_cons_self
    refine ⟨?_, delivers_of_widths args h.2 h.1⟩
    show 1 ≤ width
    by_contra hNone
    rw [show width.toNat = 0 by omega] at hTarget
    cases hTarget
  | bind index value body ih =>
    obtain ⟨-, hBody⟩ := targeted_append.mp hTargets
    exact ⟨trivial, delivers_of_width value h.2.1 h.1.2,
      ih h.2.2 slot _ ((@targeted_append _ [_] _).mp hBody).2⟩
  | sequence => exact absurd h id

theorem Stmt.delivers_of_outlines {width : Int} {least : Nat} (output : Int) {stmts : List Stmt}
    (h : ∀ s ∈ stmts, s.Writable b width least) (l : Layout)
    (hTargets : Targeted level (outlines output stmts l).1) :
    ∀ s ∈ stmts, s.expr.Each Delivers := by
  induction stmts generalizing l with
  | nil => exact List.forall_mem_nil _
  | cons s rest ih =>
    obtain ⟨⟨hSuits, hFits⟩, hRest⟩ := List.forall_mem_cons.mp h
    obtain ⟨hFirst, hOthers⟩ := targeted_append.mp hTargets
    refine List.forall_mem_cons.mpr ⟨?_, ih hRest _ hOthers⟩
    cases s with
    | discard e =>
      rw [outline] at hFirst
      split at hFirst
      · rename_i hConstant
        cases e with
        | constant => trivial
        | vector es => exact ⟨trivial, delivers_of_widths es hFits.2 hFits.1⟩
        | binary | helperCall => exact delivers_of_width _ hFits rfl
        | _ => cases hConstant
      · exact delivers_of_region e hFits _ _ hFirst
    | assignLocal _ e => exact delivers_of_width e hFits hSuits
    | assignVariable v e =>
      rw [outline] at hFirst
      split at hFirst
      · rename_i hOne
        exact delivers_of_width e hFits (hSuits.2.trans (congrArg Int.ofNat hOne))
      · exact delivers_of_region e hFits _ _ (targeted_append.mp hFirst).1
    | ret e => exact delivers_of_region e hFits _ _ (targeted_append.mp hFirst).1

theorem Routine.targeted_of_load {name : String} {params : Nat} {body : List Step} {r : Routine}
    (h : load ((0, .define name params) :: listing 1 body) = .ok r) : Targeted 1 body := by
  have hRest (lines : List (Nat × Line)) : ∀ (m : Nat) (before : Nat × Line),
      firstProblem? m before lines = none → ∀ p ∈ lines, hasNoTarget p.2 = false := by
    induction lines with
    | nil => exact fun _ _ _ => List.forall_mem_nil _
    | cons line rest ih =>
      intro m before hNone
      obtain ⟨hLine, hLater⟩ := Option.or_eq_none_iff.mp hNone
      refine List.forall_mem_cons.mpr ⟨Bool.not_eq_true _ ▸ fun hTarget => ?_, ih _ line hLater⟩
      unfold lineProblem? at hLine
      rw [hTarget] at hLine
      grind
  unfold load at h
  dsimp only at h
  split at h
  · cases h
  · rename_i hNone
    exact hRest _ 1 _ hNone

/-- **A source that is loaded is well formed**: none of its host calls is in vain. -/
theorem Expr.ReadIn.compilable_of_load {k : Callable} {args params temps : Nat} {s : Scope}
    {name : String} {r : Routine} (h : e.ReadIn args k s) (hWrite : e.Writable (s.bounds args) 0)
    (hLoad : Routine.load ((0, .define name params) ::
      listing 1 (Routine.outline name e params temps).body) = .ok r) :
    e.Compilable (s.bounds args) := by
  refine h.compilable ?_ hWrite.width_nonneg
  have hBody := Routine.targeted_of_load hLoad
  have hMain := (targeted_append.mp ((@targeted_append _ [_] _).mp hBody).2).2
  have hRoot := (targeted_append.mp hMain).1
  rcases hWrite.cases with ⟨stmts, width, rfl⟩ | hFits
  · exact Stmt.delivers_of_outlines _ hWrite.2 _ (targeted_append.mp hRoot).1
  · rw [rootRegion_eq hFits] at hRoot
    have hDelivers := delivers_of_region e hFits _ _ hRoot
    cases e with
    | sequence => exact absurd hFits id
    | _ => exact hDelivers

end MolangCompiler
