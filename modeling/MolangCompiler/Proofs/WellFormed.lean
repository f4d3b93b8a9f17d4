import MolangCompiler.Expr

/-!
# Well-formed trees

A tree is well formed if its parts fit together: where a single value is needed there is one, the
branches of a choice are equally wide, locals and variables lie within given bounds, and statement
sequences occur only at the root.  Each condition is stated of one node (`Expr.Fits`) and then
required of all nodes (`Expr.Each`).
-/

namespace MolangCompiler

mutual

/-- A condition holds of every node of an expression.  The statements of a sequence are not
looked into. -/
def Expr.Each (p : Expr → Prop) : Expr → Prop
  | .constant xs => p (.constant xs)
  | .localRead index name => p (.localRead index name)
  | .variableRead v => p (.variableRead v)
  | .negate operand => p (.negate operand) ∧ operand.Each p
  | .not operand => p (.not operand) ∧ operand.Each p
  | .binary op left right => p (.binary op left right) ∧ left.Each p ∧ right.Each p
  | .logical op left right => p (.logical op left right) ∧ left.Each p ∧ right.Each p
  | .ternary condition yes no =>
    p (.ternary condition yes no) ∧ condition.Each p ∧ yes.Each p ∧ no.Each p
  | .vector elements => p (.vector elements) ∧ EachOf p elements
  | .helperCall helper args => p (.helperCall helper args) ∧ EachOf p args
  | .hostCall function args width => p (.hostCall function args width) ∧ EachOf p args
  | .bind index value body => p (.bind index value body) ∧ value.Each p ∧ body.Each p
  | .sequence statements width => p (.sequence statements width)

/-- A condition holds of every node of the expressions of a list. -/
def Expr.EachOf (p : Expr → Prop) : List Expr → Prop
  | [] => True
  | e :: rest => e.Each p ∧ EachOf p rest

end

mutual

/-- What two conditions imply at a node, they imply at every node. -/
theorem Expr.Each.imp₂ {p q r : Expr → Prop} (h : ∀ e, p e → q e → r e) :
    ∀ e : Expr, e.Each p → e.Each q → e.Each r
  | .constant _, hp, hq | .localRead _ _, hp, hq | .variableRead _, hp, hq
  | .sequence _ _, hp, hq => h _ hp hq
  | .negate a, hp, hq | .not a, hp, hq => ⟨h _ hp.1 hq.1, Expr.Each.imp₂ h a hp.2 hq.2⟩
  | .binary _ a b, hp, hq | .logical _ a b, hp, hq | .bind _ a b, hp, hq =>
    ⟨h _ hp.1 hq.1, Expr.Each.imp₂ h a hp.2.1 hq.2.1, Expr.Each.imp₂ h b hp.2.2 hq.2.2⟩
  | .ternary a b c, hp, hq =>
    ⟨h _ hp.1 hq.1, Expr.Each.imp₂ h a hp.2.1 hq.2.1, Expr.Each.imp₂ h b hp.2.2.1 hq.2.2.1,
      Expr.Each.imp₂ h c hp.2.2.2 hq.2.2.2⟩
  | .vector es, hp, hq | .helperCall _ es, hp, hq | .hostCall _ es _, hp, hq =>
    ⟨h _ hp.1 hq.1, EachOf.imp₂ h es hp.2 hq.2⟩

theorem Expr.EachOf.imp₂ {p q r : Expr → Prop} (h : ∀ e, p e → q e → r e) :
    ∀ es : List Expr, EachOf p es → EachOf q es → EachOf r es
  | [], _, _ => trivial
  | e :: rest, hp, hq => ⟨Each.imp₂ h e hp.1 hq.1, Expr.EachOf.imp₂ h rest hp.2 hq.2⟩

end

theorem Expr.Each.mono {p q : Expr → Prop} (h : ∀ e, p e → q e) (e : Expr) (he : e.Each p) :
    e.Each q := imp₂ (fun e hp _ => h e hp) e he he

theorem Expr.eachOf_iff {p : Expr → Prop} (es : List Expr) : EachOf p es ↔ ∀ e ∈ es, e.Each p := by
  induction es with
  | nil => simp [EachOf]
  | cons e rest ih => simp [EachOf, ih]

/-! ## Conditions on nodes -/

/-- How many arguments and temps the routine of a tree has, and how many slots the variables of
the tree take up. -/
structure Bounds where
  args : Nat
  temps : Nat
  slots : Nat

namespace Bounds

/-- The first local behind arguments and temps. -/
def firstFresh (b : Bounds) : Nat := b.args + 1 + b.temps

/-- The locals that a tree may name: arguments and temps, but not the local between them, which
holds the scratch buffer. -/
def Names (b : Bounds) (index : Nat) : Prop := index ≠ b.args ∧ index < b.firstFresh

end Bounds

/-- A node names locals and slots within bounds, and has operands of the right widths. -/
def Expr.Fits (b : Bounds) : Expr → Prop
  | .constant _ => True
  | .localRead index _ => b.Names index
  | .variableRead v => v.stop ≤ b.slots
  | .negate operand | .not operand => operand.width = 1
  | .binary _ left right | .logical _ left right => left.width = 1 ∧ right.width = 1
  | .ternary condition yes no => condition.width = 1 ∧ yes.width = no.width
  | .vector args | .helperCall _ args | .hostCall _ args _ => ∀ e ∈ args, e.width = 1
  | .bind index value _ => b.Names index ∧ value.width = 1
  | .sequence .. => False

/-- A host function that is called returns at least one value. -/
def Expr.Delivers : Expr → Prop
  | .hostCall _ _ width => 1 ≤ width
  | _ => True

/-- A tree whose nodes fit bounds and deliver values. -/
def Expr.WellFormed (b : Bounds) (e : Expr) : Prop := e.Each fun e => e.Fits b ∧ e.Delivers

variable {b : Bounds} {e : Expr}

theorem Expr.WellFormed.fits (h : e.WellFormed b) : e.Each (Fits b) :=
  Each.mono (fun _ he => he.1) e h

theorem Expr.EachOf.fits {es : List Expr} (h : EachOf (fun e => e.Fits b ∧ e.Delivers) es) :
    EachOf (Fits b) es :=
  EachOf.imp₂ (fun _ he _ => he.1) es h h

/-- A vector is a scalar only if it has exactly one element. -/
theorem Expr.width_vector_nil : (vector []).width ≠ 1 := Int.zero_ne_one

theorem Expr.width_vector_cons_cons {e' : Expr} {rest : List Expr} :
    (vector (e :: e' :: rest)).width ≠ 1 := by
  show ((e :: e' :: rest).length : Int) ≠ 1
  rw [List.length_cons, List.length_cons]
  omega

/-- The expression of a statement. -/
def Stmt.expr : Stmt → Expr
  | .discard e => e
  | .assignLocal _ e => e
  | .assignVariable _ e => e
  | .ret e => e

/-- A statement fits together with its expression, in a sequence that produces `width` values. -/
def Stmt.Fits (b : Bounds) (width : Int) : Stmt → Prop
  | .discard _ => True
  | .assignLocal index e => b.Names index ∧ e.width = 1
  | .assignVariable v e => v.stop ≤ b.slots ∧ e.width = v.size
  | .ret e => e.width = width

/-- A well-formed statement of a sequence that produces `width` values. -/
def Stmt.WellFormed (b : Bounds) (width : Int) (s : Stmt) : Prop :=
  s.Fits b width ∧ s.expr.WellFormed b

/-- A well-formed source: an expression, or a sequence of statements. -/
def Expr.Compilable (b : Bounds) : Expr → Prop
  | .sequence statements width => 0 ≤ width ∧ ∀ s ∈ statements, s.WellFormed b width
  | e => e.WellFormed b

theorem Expr.Compilable.cases (h : e.Compilable b) :
    (∃ stmts width, e = .sequence stmts width) ∨ e.WellFormed b := by
  cases e with
  | sequence stmts width => exact .inl ⟨stmts, width, rfl⟩
  | _ => exact .inr h

/-- A property of the nodes of a tree, or of those of its statements. -/
def Expr.EachNode (p : Expr → Prop) : Expr → Prop
  | .sequence statements _ => ∀ s ∈ statements, s.expr.Each p
  | e => e.Each p

theorem Expr.EachNode.imp₂ {p q r : Expr → Prop} (h : ∀ e, p e → q e → r e) (hp : e.EachNode p)
    (hq : e.EachNode q) : e.EachNode r := by
  cases e with
  | sequence => exact fun s hs => .imp₂ h _ (hp s hs) (hq s hs)
  | _ => exact .imp₂ h _ hp hq

theorem Expr.EachNode.mono {p q : Expr → Prop} (h : ∀ e, p e → q e) (hp : e.EachNode p) :
    e.EachNode q := hp.imp₂ (fun e hp _ => h e hp) hp

theorem Expr.Compilable.eachNode (h : e.Compilable b) :
    e.EachNode fun e => e.Fits b ∧ e.Delivers := by
  cases e with
  | sequence => exact fun s hs => (h.2 s hs).2
  | _ => exact h

/-! ## What can be written -/

/-- A statement that discards a number of values, if it discards any. -/
def Stmt.Roomy : Stmt → Prop
  | .discard e => e.isConstant = true ∨ 0 ≤ e.width
  | _ => True

/-- Each statement of a source does. -/
def Expr.Roomy : Expr → Prop
  | .sequence stmts _ => ∀ s ∈ stmts, s.Roomy
  | _ => True

/-- A statement that fits, in a sequence that produces `width` values, and has `least` values at
least where it returns. -/
def Stmt.Suits (b : Bounds) (width : Int) (least : Nat) : Stmt → Prop
  | .discard e => e.isConstant = true ∨ 0 ≤ e.width
  | .assignLocal _ e => e.width = 1
  | .assignVariable v e => v.stop ≤ b.slots ∧ e.width = v.size
  | .ret e => least ≤ e.width ∧ e.width ≤ width

def Stmt.Writable (b : Bounds) (width : Int) (least : Nat) (s : Stmt) : Prop :=
  s.Suits b width least ∧ s.expr.Each (Expr.Fits b)

/-- A source that can be written, though its host calls may yield nothing. -/
def Expr.Writable (b : Bounds) (least : Nat) : Expr → Prop
  | .sequence statements width => 0 ≤ width ∧ ∀ s ∈ statements, s.Writable b width least
  | e => e.Each (Fits b) ∧ 0 ≤ e.width

theorem Expr.Writable.cases {least : Nat} (h : e.Writable b least) :
    (∃ stmts width, e = .sequence stmts width) ∨ e.Each (Fits b) := by
  cases e with
  | sequence stmts width => exact .inl ⟨stmts, width, rfl⟩
  | _ => exact .inr h.1

theorem Expr.Writable.width_nonneg {least : Nat} (h : e.Writable b least) : 0 ≤ e.width := by
  cases e with
  | sequence => exact h.1
  | _ => exact h.2

/-- A helper that is applied to constants is given as many as it takes. -/
def Expr.ConstantsApply : Expr → Prop
  | .helperCall helper args => allConstant args = true → args.length = helper.arity
  | _ => True

/-- A well-formed expression never has a negative number of values. -/
theorem Expr.WellFormed.width_nonneg : ∀ e : Expr, e.WellFormed b → 0 ≤ e.width
  | .constant _, _ | .variableRead _, _ | .vector _, _ => Int.natCast_nonneg _
  | .localRead _ _, _ | .negate _, _ | .not _, _ | .binary _ _ _, _ | .logical _ _ _, _
  | .helperCall _ _, _ => (by decide : (0 : Int) ≤ 1)
  | .ternary _ yes _, h => width_nonneg yes h.2.2.1
  | .hostCall _ _ width, h => by
    have hWidth : 1 ≤ width := h.1.2
    show 0 ≤ width
    omega
  | .bind _ _ body, h => width_nonneg body h.2.2
  | .sequence _ _, h => absurd h.1 id

theorem Stmt.WellFormed.writable {width : Int} {s : Stmt} (h : s.WellFormed b width) :
    s.Writable b width width.toNat := by
  have hNonneg := Expr.WellFormed.width_nonneg s.expr h.2
  refine ⟨?_, h.2.fits⟩
  have hFits := h.1
  cases s with
  | discard e => exact .inr hNonneg
  | assignLocal => exact hFits.2
  | assignVariable => exact hFits
  | ret e =>
    subst hFits
    exact ⟨Int.le_of_eq (Int.toNat_of_nonneg hNonneg), Int.le_refl _⟩

theorem Expr.Compilable.writable (h : e.Compilable b) : e.Writable b e.width.toNat := by
  cases e with
  | sequence => exact ⟨h.1, fun s hs => (h.2 s hs).writable⟩
  | _ => exact ⟨WellFormed.fits h, WellFormed.width_nonneg _ h⟩

mutual

/-- The host calls of a scalar yield something. -/
theorem Expr.delivers_of_width : ∀ e : Expr, e.Each (Fits b) → e.width = 1 → e.Each Delivers
  | .constant _, _, _ | .localRead _ _, _, _ | .variableRead _, _, _ => trivial
  | .negate a, h, _ | .not a, h, _ => ⟨trivial, delivers_of_width a h.2 h.1⟩
  | .binary _ l r, h, _ | .logical _ l r, h, _ =>
    ⟨trivial, delivers_of_width l h.2.1 h.1.1, delivers_of_width r h.2.2 h.1.2⟩
  | .ternary c y n, h, hWidth => ⟨trivial, delivers_of_width c h.2.1 h.1.1,
    delivers_of_width y h.2.2.1 hWidth, delivers_of_width n h.2.2.2 (h.1.2.symm.trans hWidth)⟩
  | .vector es, h, _ | .helperCall _ es, h, _ => ⟨trivial, delivers_of_widths es h.2 h.1⟩
  | .hostCall _ es _, h, hWidth => ⟨Int.le_of_eq hWidth.symm, delivers_of_widths es h.2 h.1⟩
  | .bind _ v e, h, hWidth =>
    ⟨trivial, delivers_of_width v h.2.1 h.1.2, delivers_of_width e h.2.2 hWidth⟩
  | .sequence _ _, h, _ => absurd h id

theorem Expr.delivers_of_widths : ∀ es : List Expr, EachOf (Fits b) es →
    (∀ e ∈ es, e.width = 1) → EachOf Delivers es
  | [], _, _ => trivial
  | e :: rest, h, hWidth => ⟨delivers_of_width e h.1 (hWidth e List.mem_cons_self),
    delivers_of_widths rest h.2 fun e' he' => hWidth e' (List.mem_cons_of_mem e he')⟩

end

theorem Expr.Compilable.width_nonneg (h : e.Compilable b) : 0 ≤ e.width :=
  h.writable.width_nonneg

end MolangCompiler
