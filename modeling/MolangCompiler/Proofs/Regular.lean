import Mathlib.Data.List.Basic
import MolangCompiler.Proofs.Reading
import MolangCompiler.Proofs.WellFormed

/-!
# Sources become well-formed trees

A tree that was read without templates is well formed, with one exception: a host function may be
said to return no values at all, and only the loader objects to a call of it.  `Expr.Regular` is
what reading guarantees of every node; together with `Expr.Delivers` it makes a tree well formed.

`Callable` says which calls a tree may contain: a routine that cannot fail must give every helper as
many numbers as it takes and must not call the host, while for the other results any call will do.
-/

namespace MolangCompiler

open MolangCompiler.Expr

/-! ## Regular nodes -/

/-- Which helpers may be called, with how many arguments, and whether host functions may be. -/
structure Callable where
  helper : Helper → Nat → Prop
  host : Prop

namespace Callable

/-- All calls. -/
def any : Callable := ⟨fun _ _ => True, True⟩

/-- Calls of helpers with as many arguments as they take. -/
def plain : Callable := ⟨fun h count => count = h.arity, False⟩

end Callable

def Expr.Calls (k : Callable) : Expr → Prop
  | .helperCall helper args => k.helper helper args.length
  | .hostCall .. => k.host
  | _ => True

/-- A node that does not stand for no values at all. -/
def Expr.Occupied : Expr → Prop
  | .constant xs => xs ≠ []
  | .variableRead v => 1 ≤ v.size
  | .vector elements => elements ≠ []
  | _ => True

def Expr.Regular (b : Bounds) (k : Callable) (e : Expr) : Prop :=
  e.Fits b ∧ e.Occupied ∧ e.Calls k

variable {b : Bounds} {e : Expr} {k : Callable} {args : Nat} {s : Scope}

theorem Bounds.Names.mono {b' : Bounds} {index : Nat} (h : b.Names index) (hArgs : b'.args = b.args)
    (hTemps : b.temps ≤ b'.temps) : b'.Names index := by
  unfold Names firstFresh at *
  omega

theorem Expr.Fits.mono {b' : Bounds} (h : e.Fits b) (hArgs : b'.args = b.args)
    (hTemps : b.temps ≤ b'.temps) (hSlots : b.slots ≤ b'.slots) : e.Fits b' := by
  cases e with
  | localRead index name => exact .mono h hArgs hTemps
  | variableRead v => exact Nat.le_trans h hSlots
  | bind index value body => exact ⟨.mono h.1 hArgs hTemps, h.2⟩
  | _ => exact h

/-- A node that has a value of its own, or leaves its values to its parts, and is no sequence. -/
def Expr.Filled : Expr → Prop
  | .constant xs => xs ≠ []
  | .variableRead v => 1 ≤ v.size
  | .vector elements => elements ≠ []
  | .hostCall _ _ width => 1 ≤ width
  | .sequence .. => False
  | _ => True

theorem Expr.one_le_width : ∀ e : Expr, e.Each Filled → 1 ≤ e.width
  | .constant xs, h => by
    have hSome : xs ≠ [] := h
    have hLength := List.length_pos_iff.mpr hSome
    show (1 : Int) ≤ xs.length
    omega
  | .variableRead v, h => by
    have hSize : 1 ≤ v.size := h
    show (1 : Int) ≤ v.size
    omega
  | .localRead _ _, _ | .negate _, _ | .not _, _ | .binary _ _ _, _ | .logical _ _ _, _
  | .helperCall _ _, _ => Int.le_refl 1
  | .ternary _ yes _, h => one_le_width yes h.2.2.1
  | .vector es, h => by
    have hSome : es ≠ [] := h.1
    have hLength := List.length_pos_iff.mpr hSome
    show (1 : Int) ≤ es.length
    omega
  | .hostCall _ _ _, h => h.1
  | .bind _ _ body, h => one_le_width body h.2.2
  | .sequence _ _, h => absurd h id

theorem Expr.Fits.filled (hFits : e.Fits b) (hOccupied : e.Occupied) (hDelivers : e.Delivers) :
    e.Filled := by
  cases e with
  | constant | variableRead | vector => exact hOccupied
  | hostCall => exact hDelivers
  | sequence => exact hFits
  | _ => trivial

theorem Expr.Regular.filled (h : e.Each (Regular b k)) (hDelivers : e.Each Delivers) :
    e.Each Filled :=
  Each.imp₂ (fun _ hRegular hDelivers => hRegular.1.filled hRegular.2.1 hDelivers) e h hDelivers

theorem Expr.width_pos (e : Expr) (h : e.Each (Regular b k)) (hDelivers : e.Each Delivers) :
    1 ≤ e.width := one_le_width e (Regular.filled h hDelivers)

theorem Expr.delivers_of_no_host (hHost : ¬ k.host) (h : e.Each (Regular b k)) :
    e.Each Delivers := by
  refine .mono (fun e he => ?_) e h
  cases e with
  | hostCall function args width => exact absurd he.2.2 hHost
  | _ => trivial

/-! ## Trees in a scope -/

/-- The bounds of a tree that is read in a scope, with the given number of context values. -/
def Scope.bounds (args : Nat) (s : Scope) : Bounds := ⟨args, s.locals, s.tenant.space.cursor⟩

/-- A tree whose nodes are regular in a scope. -/
def Expr.RegularIn (args : Nat) (k : Callable) (s : Scope) (e : Expr) : Prop :=
  e.Each (Regular (s.bounds args) k)

def Stmt.FitsIn (args : Nat) (s : Scope) : Stmt → Prop
  | .discard _ => True
  | .assignLocal index e => (s.bounds args).Names index ∧ e.width = 1
  | .assignVariable v e => v.stop ≤ (s.bounds args).slots ∧ e.width = v.size
  | .ret e => s.returnWidth = some e.width

def Stmt.RegularIn (args : Nat) (k : Callable) (s : Scope) (t : Stmt) : Prop :=
  t.expr.RegularIn args k s ∧ t.FitsIn args s

/-- A source that is read in a scope: an expression, or a sequence of statements. -/
def Expr.ReadIn (args : Nat) (k : Callable) (s : Scope) (e : Expr) : Prop :=
  e.RegularIn args k s ∨ ∃ statements, e = .sequence statements s.resultWidth ∧
    ∀ t ∈ statements, t.RegularIn args k s

theorem Expr.RegularIn.mono {s' : Scope} (hLe : s.Extends s') (h : e.RegularIn args k s) :
    e.RegularIn args k s' :=
  Each.mono (fun _ he => ⟨he.1.mono rfl hLe.locals hLe.space.cursor, he.2⟩) e h

theorem Stmt.RegularIn.mono {s' : Scope} {t : Stmt} (hLe : s.Extends s')
    (h : t.RegularIn args k s) : t.RegularIn args k s' := by
  refine ⟨h.1.mono hLe, ?_⟩
  have hFits := h.2
  cases t with
  | discard e => trivial
  | assignLocal index e => exact ⟨.mono hFits.1 rfl hLe.locals, hFits.2⟩
  | assignVariable v e => exact ⟨Nat.le_trans hFits.1 hLe.space.cursor, hFits.2⟩
  | ret e => exact hLe.width e.width hFits

/-- **A source that is read is well formed** if it has a number of values and none of its host
calls is in vain. -/
theorem Expr.ReadIn.compilable (h : e.ReadIn args k s) (hDelivers : e.EachNode Delivers)
    (hWidth : 0 ≤ e.width) :
    e.Compilable (s.bounds args) := by
  have hWF {e : Expr} (h : e.RegularIn args k s) (hDelivers : e.Each Delivers) :
      e.WellFormed (s.bounds args) :=
    Each.imp₂ (fun _ hRegular hDelivers => ⟨hRegular.1, hDelivers⟩) e h hDelivers
  rcases h with hRegular | ⟨stmts, rfl, hAll⟩
  · cases e with
    | sequence stmts width => exact absurd hRegular.1 id
    | _ => exact hWF hRegular hDelivers
  · refine ⟨hWidth, fun t ht => ?_⟩
    obtain ⟨hRegular, hFits⟩ := hAll t ht
    refine ⟨?_, hWF hRegular (hDelivers t ht)⟩
    cases t with
    | discard e => trivial
    | assignLocal | assignVariable => exact hFits
    | ret e =>
      -- the width of a return is that of the sequence unless it is zero
      have hPos := width_pos e hRegular (hDelivers _ ht)
      have hReturn : s.returnWidth = some e.width := hFits
      unfold Scope.resultWidth
      rw [hReturn]
      show e.width = if e.width = 0 then 1 else e.width
      rw [if_neg (by omega)]

/-- **A source that is read can be written** if there is room for what it discards. -/
theorem Expr.ReadIn.writable (h : e.ReadIn args k s) (hRoomy : e.Roomy) (hWidth : 0 ≤ e.width) :
    e.Writable (s.bounds args) 0 := by
  have hFits {e : Expr} (h : e.RegularIn args k s) : e.Each (Fits (s.bounds args)) :=
    Each.mono (fun _ he => he.1) e h
  rcases h with hRegular | ⟨stmts, rfl, hAll⟩
  · cases e with
    | sequence => exact absurd hRegular.1 id
    | _ => exact ⟨hFits hRegular, hWidth⟩
  · refine ⟨hWidth, fun t ht => ⟨?_, hFits (hAll t ht).1⟩⟩
    have hSuits := (hAll t ht).2
    cases t with
    | discard => exact hRoomy _ ht
    | assignLocal => exact hSuits.2
    | assignVariable => exact hSuits
    | ret e =>
      have hReturn : s.returnWidth = some e.width := hSuits
      have hSame : s.resultWidth = if e.width = 0 then 1 else e.width := by
        rw [Scope.resultWidth, hReturn]
      have hResult : 0 ≤ s.resultWidth := hWidth
      show ((0 : Nat) : Int) ≤ e.width ∧ e.width ≤ s.resultWidth
      rw [hSame] at hResult ⊢
      split at hResult <;> omega

theorem Expr.ReadIn.eachNode {P : Expr → Prop} (h : e.ReadIn args k s)
    (hEach : ∀ {e : Expr}, e.RegularIn args k s → e.Each P) : e.EachNode P := by
  rcases h with hRegular | ⟨stmts, rfl, hAll⟩
  · cases e with
    | sequence stmts width => exact absurd hRegular.1 id
    | _ => exact hEach hRegular
  · exact fun t ht => hEach (hAll t ht).1

/-- A source that is read calls only what may be called. -/
theorem Expr.ReadIn.calls (h : e.ReadIn args k s) : e.EachNode (Calls k) :=
  h.eachNode fun hRegular => .mono (fun _ he => he.2.2) _ hRegular

/-- **A source without host calls is well formed** as soon as it is read. -/
theorem Expr.ReadIn.compilable_of_no_host {first : Nat} (hHost : ¬ k.host)
    (hSound : s.Sound first fun w => k.host ∨ 1 ≤ w) (h : e.ReadIn args k s) :
    e.Compilable (s.bounds args) := by
  refine h.compilable (h.eachNode (delivers_of_no_host hHost)) ?_
  rcases h with hRegular | ⟨stmts, rfl, hAll⟩
  · have hPos := width_pos e hRegular (delivers_of_no_host hHost hRegular)
    omega
  · unfold Scope.resultWidth
    cases hWidth : s.returnWidth with
    | none => exact Int.zero_le_ofNat 1
    | some width =>
      have hWide := (hSound.width width hWidth).resolve_left hHost
      show 0 ≤ if width = 0 then 1 else width
      rw [if_neg (by omega)]
      omega

/-! ## Queries -/

/-- A query that is no template and expands to calls that may be made. -/
def Query.Obeys (k : Callable) : Query → Prop
  | .helper name arity => ∀ h, Helper.ofName? name = some h → k.helper h arity
  | .constant _ => True
  | .host .. => k.host
  | .clamp => k.helper .max 2 ∧ k.helper .min 2
  | .lerp => True
  | .template .. => False

namespace Expr.RegularIn

variable {args : Nat} {k : Callable} {s : Scope}

theorem binary {l r : Expr} (op : BinaryOp) (hL : l.RegularIn args k s) (hR : r.RegularIn args k s)
    (hLeft : l.width = 1) (hRight : r.width = 1) : (binary op l r).RegularIn args k s :=
  ⟨⟨⟨hLeft, hRight⟩, trivial, trivial⟩, hL, hR⟩

variable {es : List Expr}

theorem helperCall {h : Helper} (hAll : ∀ e ∈ es, e.RegularIn args k s)
    (hSingle : ∀ e ∈ es, e.width = 1) (hCall : k.helper h es.length) :
    (helperCall h es).RegularIn args k s :=
  ⟨⟨hSingle, trivial, hCall⟩, (eachOf_iff es).mpr hAll⟩

theorem clamp (hLength : es.length = 3) (hAll : ∀ e ∈ es, e.RegularIn args k s)
    (hSingle : ∀ e ∈ es, e.width = 1) (hMax : k.helper .max 2) (hMin : k.helper .min 2) :
    (Query.clampExpr es).RegularIn args k s := by
  obtain ⟨value, low, high, rfl⟩ := List.length_eq_three.mp hLength
  simp only [List.forall_mem_cons] at hAll hSingle
  refine helperCall ?_ ?_ hMin
  · simp only [List.forall_mem_cons]
    refine ⟨helperCall ?_ ?_ hMax, hAll.2.2⟩
    · simp only [List.forall_mem_cons]
      exact ⟨hAll.1, hAll.2.1, List.forall_mem_nil _⟩
    · simp only [List.forall_mem_cons]
      exact ⟨hSingle.1, hSingle.2.1, List.forall_mem_nil _⟩
  · simp only [List.forall_mem_cons]
    exact ⟨rfl, hSingle.2.2⟩

theorem lerp {index : Nat} (hLength : es.length = 3) (hAll : ∀ e ∈ es, e.RegularIn args k s)
    (hSingle : ∀ e ∈ es, e.width = 1) (hIndex : (s.bounds args).Names index) :
    (Query.lerpExpr index es).RegularIn args k s := by
  obtain ⟨a, b, t, rfl⟩ := List.length_eq_three.mp hLength
  simp only [List.forall_mem_cons] at hAll hSingle
  have hKept : (localRead index "").RegularIn args k s := ⟨hIndex, trivial, trivial⟩
  refine ⟨⟨⟨hIndex, hSingle.1⟩, trivial, trivial⟩, hAll.1, binary .add hKept ?_ rfl rfl⟩
  exact binary .mul (binary .sub hAll.2.1 hKept hSingle.2.1 rfl) hAll.2.2.1 rfl hSingle.2.2.1

end Expr.RegularIn

theorem Scope.names_of_fresh {index : Nat} (hLow : args + 1 ≤ index)
    (hHigh : index < args + 1 + s.locals) : (s.bounds args).Names index := by
  unfold Bounds.Names Bounds.firstFresh bounds
  dsimp only
  omega

/-- **What a query expands to** is regular if its arguments are. -/
theorem Query.expand_keeps {wide : Int → Prop} {query : Query} (hObeys : query.Obeys k)
    {st : Setting} (hFirst : st.firstLocal = args + 1) (actor : List (String × Float))
    {es : List Expr} (start stop : Nat) {q : Scope → Stmt → Prop}
    (hAll : ∀ e ∈ es, e.RegularIn args k s) :
    Keeps (Scope.course (args + 1) wide) (fun node s' => node.Holds (RegularIn args k s') (q s'))
      (query.expand st actor es start stop) s := by
  have hPlain : query.Direct := by
    rintro arity report tree rfl
    exact hObeys
  refine .mono (expand_expands hPlain hFirst actor) ?_
  rintro _ s' _ hLe ⟨e, rfl, hSingle, hExpands⟩
  have hLater : ∀ e ∈ es, e.RegularIn args k s' := fun e he => (hAll e he).mono hLe
  cases hExpands with
  | helper hName => exact RegularIn.helperCall hLater hSingle (hObeys _ hName)
  | constant hSome => exact ⟨trivial, hSome, trivial⟩
  | host => exact ⟨⟨hSingle, trivial, hObeys⟩, (eachOf_iff es).mpr hLater⟩
  | clamp => exact RegularIn.clamp rfl hLater hSingle hObeys.1 hObeys.2
  | lerp =>
    refine RegularIn.lerp rfl hLater hSingle (Scope.names_of_fresh (Nat.le_add_right _ _) ?_)
    exact Nat.lt_succ_self _

namespace Dictionary

variable {dict : Dictionary} {args : Nat} {k : Callable}

/-- **Trees that are read are regular.** -/
theorem regular_rules (hFirst : dict.setting.firstLocal = args + 1)
    (hQueries : ∀ p ∈ dict.queries, p.2.Obeys k) :
    TreeRules dict (fun w => k.host ∨ 1 ≤ w) (RegularIn args k) (Stmt.RegularIn args k)
      (ReadIn args k) where
  mono := .mono
  monoStmt := .mono
  whole := .inl
  width {s e} h := by
    by_cases hHost : k.host
    · exact .inl hHost
    · exact .inr (width_pos e h (delivers_of_no_host hHost h))
  constant s xs hSome := ⟨trivial, hSome, trivial⟩
  temp {s index} name hLow hHigh := by
    rw [hFirst] at hLow hHigh
    exact ⟨Scope.names_of_fresh hLow hHigh, trivial, trivial⟩
  context s index name hIndex := by
    refine ⟨?_, trivial, trivial⟩
    show index ≠ args ∧ index < args + 1 + s.locals
    omega
  variableRead hSound hMem := ⟨hSound.stop_le hMem, (hSound.sized _ hMem).1, trivial⟩
  negate hE hWidth := ⟨⟨hWidth, trivial, trivial⟩, hE⟩
  not hE hWidth := ⟨⟨hWidth, trivial, trivial⟩, hE⟩
  binary op hL hR hLeft hRight := .binary op hL hR hLeft hRight
  logical op hL hR hLeft hRight := ⟨⟨⟨hLeft, hRight⟩, trivial, trivial⟩, hL, hR⟩
  ternary hCondition hYes hNo hOne hSame :=
    ⟨⟨⟨hOne, hSame⟩, trivial, trivial⟩, hCondition, hYes, hNo⟩
  vector hSome hAll hSingle := ⟨⟨hSingle, hSome, trivial⟩, (eachOf_iff _).mpr hAll⟩
  call start stop hMem hArgs := by
    rw [hFirst]
    exact Query.expand_keeps (hQueries _ hMem) hFirst dict.actor start stop hArgs
  discard hE := ⟨hE, trivial⟩
  assignLocal hE hWidth hLow hHigh := by
    rw [hFirst] at hLow hHigh
    exact ⟨hE, Scope.names_of_fresh hLow hHigh, hWidth⟩
  assignVariable hE hSound hMem hWidth := ⟨hE, hSound.stop_le hMem, hWidth⟩
  ret hE hWidth := ⟨hE, hWidth⟩
  sequence hAll := .inr ⟨_, rfl, hAll⟩

end Dictionary

end MolangCompiler
