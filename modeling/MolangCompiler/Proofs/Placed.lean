import MolangCompiler.Proofs.Reading

/-!
# Variables of a tree have their place

Templates can put together trees of any shape.  One thing holds of every tree all the same: its
variables lie before the cursor, because a template obtains its variables like a source does.
-/

namespace MolangCompiler

open Expanding Expansion Template

/-! ## References of trees -/

/-- What a tree does with a variable. -/
inductive Reference where
  | read (v : Variable)
  | assign (v : Variable) (width : Int)

namespace Reference

/-- The variable that is referred to. -/
def target : Reference → Variable
  | read v => v
  | assign v _ => v

/-- What it is referred to for. -/
def usage : Reference → Usage
  | read _ => .alone
  | assign _ _ => .assigned

/-- How many values the variable gets if the reference makes it. -/
def width : Reference → Int
  | read _ => 1
  | assign _ width => width

end Reference

mutual

/-- The references of an expression, in the order in which its constructs end. -/
def Expr.references : Expr → List Reference
  | .constant _ | .localRead .. => []
  | .variableRead v => [.read v]
  | .negate e | .not e => e.references
  | .binary _ left right | .logical _ left right => left.references ++ right.references
  | .ternary condition yes no => condition.references ++ yes.references ++ no.references
  | .vector es | .helperCall _ es | .hostCall _ es _ => Expr.referencesOf es
  | .bind _ value body => value.references ++ body.references
  | .sequence statements _ => Stmt.referencesOf statements

def Expr.referencesOf : List Expr → List Reference
  | [] => []
  | e :: rest => e.references ++ Expr.referencesOf rest

/-- The references of a statement.  A value is there before it is assigned. -/
def Stmt.references : Stmt → List Reference
  | .discard value | .assignLocal _ value | .ret value => value.references
  | .assignVariable v value => value.references ++ [.assign v value.width]

def Stmt.referencesOf : List Stmt → List Reference
  | [] => []
  | t :: rest => t.references ++ Stmt.referencesOf rest

end

/-- All variables that are referred to lie in the first `slots` slots of the store. -/
def Reference.Placed (slots : Nat) (A : List Reference) : Prop := ∀ a ∈ A, a.target.stop ≤ slots

abbrev Expr.Placed (slots : Nat) (e : Expr) : Prop := Reference.Placed slots e.references

abbrev Stmt.Placed (slots : Nat) (t : Stmt) : Prop := Reference.Placed slots t.references

namespace Reference

variable {n n' : Nat}

theorem Placed.nil : Placed n [] := List.forall_mem_nil _

theorem Placed.mono (hLe : n ≤ n') {A : List Reference} (h : Placed n A) : Placed n' A :=
  fun a ha => Nat.le_trans (h a ha) hLe

theorem placed_append {A B : List Reference} : Placed n (A ++ B) ↔ Placed n A ∧ Placed n B :=
  List.forall_mem_append

theorem placed_singleton {a : Reference} : Placed n [a] ↔ a.target.stop ≤ n :=
  List.forall_mem_singleton

theorem placed_exprs (es : List Expr) : Placed n (Expr.referencesOf es) ↔ ∀ e ∈ es, e.Placed n := by
  induction es with
  | nil => simp [Expr.referencesOf, Placed]
  | cons e rest ih => simp [Expr.referencesOf, placed_append, ih]

theorem placed_stmts (ts : List Stmt) : Placed n (Stmt.referencesOf ts) ↔ ∀ t ∈ ts, t.Placed n := by
  induction ts with
  | nil => simp [Stmt.referencesOf, Placed]
  | cons t rest ih => simp [Stmt.referencesOf, placed_append, ih]

end Reference

open Reference

/-! ## Trees in a scope -/

/-- All variables of an expression have their place in a scope. -/
def Expr.PlacedIn (s : Scope) (e : Expr) : Prop := e.Placed s.tenant.space.cursor

/-- All variables of a statement have their place in a scope. -/
def Stmt.PlacedIn (s : Scope) (t : Stmt) : Prop := t.Placed s.tenant.space.cursor

/-- All variables of what a template builds have their place in a scope. -/
def Node.PlacedIn (s : Scope) (node : Node) : Prop := node.Holds (Expr.PlacedIn s) (Stmt.PlacedIn s)

variable {s s' : Scope}

theorem Expr.PlacedIn.mono {e : Expr} (hLe : s.Extends s') (h : e.PlacedIn s) :
    e.PlacedIn s' := Placed.mono hLe.space.cursor h

theorem Stmt.PlacedIn.mono {t : Stmt} (hLe : s.Extends s') (h : t.PlacedIn s) :
    t.PlacedIn s' := Placed.mono hLe.space.cursor h

variable {node : Node} {α : Type}

theorem Node.PlacedIn.mono (hLe : s.Extends s') (h : node.PlacedIn s) : node.PlacedIn s' := by
  cases node with
  | expr e => exact .mono hLe h
  | stmt t => exact .mono hLe h
  | foreign kind => trivial

/-! ## Templates -/

def Expansion.course (first : Nat) (wide : Int → Prop) : Course Expansion where
  ok x := x.scope.Sound first wide
  le x x' := x.scope.Extends x'.scope
  refl x := (Scope.course first wide).refl x.scope
  trans h h' := (Scope.course first wide).trans h h'

namespace Expanding

variable {first : Nat} {wide : Int → Prop} {x : Expansion}

theorem onScope_keeps {act : Reading α} {p : α → Scope → Prop}
    (h : Keeps (Scope.course first wide) p act x.scope) :
    Keeps (course first wide) (fun a x' => p a x'.scope) (onScope act) x :=
  fun hOk => onPart_ends (.mono (h hOk) (fun _ _ hEnd => hEnd) fun _ hEnd => hEnd)

theorem expr_keeps (h : node.PlacedIn x.scope) :
    Keeps (course first wide) (fun e x' => e.PlacedIn x'.scope) (expr node) x := by
  cases node with
  | expr e => exact .pure h
  | stmt | foreign => exact .throw

theorem stmt_keeps (h : node.PlacedIn x.scope) :
    Keeps (course first wide) (fun t x' => t.PlacedIn x'.scope) (stmt node) x := by
  cases node with
  | stmt t => exact .pure h
  | expr | foreign => exact .throw

theorem mapM_keeps {f : Node → Expanding α} {p : α → Scope → Prop}
    (hMono : ∀ {a : α} {s s' : Scope}, s.Extends s' → p a s → p a s')
    (hf : ∀ {node : Node} {x : Expansion}, node.PlacedIn x.scope →
      Keeps (course first wide) (fun a x' => p a x'.scope) (f node) x) (nodes : List Node) :
    ∀ {x : Expansion}, (∀ node ∈ nodes, node.PlacedIn x.scope) →
    Keeps (course first wide) (fun as x' => ∀ a ∈ as, p a x'.scope) (nodes.mapM f) x := by
  induction nodes with
  | nil =>
    intro x _
    exact .pure (List.forall_mem_nil _)
  | cons node rest ih =>
    intro x hNodes
    rw [List.mapM_cons]
    refine .bind (hf (hNodes node List.mem_cons_self)) fun a x₁ _ hLe₁ hA => ?_
    refine .bind (ih fun n hn => (hNodes n (List.mem_cons_of_mem node hn)).mono hLe₁) ?_
    intro others x₂ _ hLe₂ hOthers
    exact .pure (List.forall_mem_cons.mpr ⟨hMono hLe₂ hA, hOthers⟩)

theorem localOf_keeps {fill : Filling} (ref : LocalRef) :
    Stays (course first wide) (localOf fill ref) x := by
  cases ref with
  | index i => exact .pure trivial
  | label text =>
    refine .get_bind ?_
    split
    · exact .pure trivial
    · refine .bind (onScope_keeps Reading.freshLocal_stays) fun index x' _ _ _ => ?_
      refine .bind (p := fun _ _ => True) (.modify ?_ ?_ fun _ => trivial) fun _ _ _ _ _ => ?_
      · exact fun hOk => hOk
      · exact fun _ => (Scope.course first wide).refl x'.scope
      · exact .pure trivial

theorem constant_keeps (vs : List Float) :
    Keeps (course first wide) (fun e x' => e.PlacedIn x'.scope)
      (onScope (Reading.ofTree (Expr.constantOf vs))) x := by
  refine onScope_keeps (p := fun (e : Expr) s => e.PlacedIn s) ?_
  cases hConstant : Expr.constantOf vs with
  | error problem => exact .throw
  | ok e =>
    obtain ⟨xs, -, rfl⟩ := Expr.constantOf_eq_ok hConstant
    exact .pure .nil

end Expanding

section

variable {first : Nat} {wide : Int → Prop} {fill : Filling}

theorem Template.operand_keeps {t : Template} {x : Expansion} {p : α → Expansion → Prop}
    {rest : Expr → Expanding α}
    (hBuild : Keeps (course first wide) (fun node x' => node.PlacedIn x'.scope)
      (t.build fill) x) (hRest : ∀ e x', x.scope.Extends x'.scope → e.PlacedIn x'.scope →
      Keeps (course first wide) p (rest e) x') :
    Keeps (course first wide) p (do rest (← expr (← t.build fill))) x := by
  refine .bind hBuild fun node x₁ _ hLe₁ hNode => ?_
  refine .bind (expr_keeps hNode) fun e x₂ _ hLe₂ hE => ?_
  exact hRest e x₂ ((Scope.course first wide).trans hLe₁ hLe₂) hE

theorem Template.operands_keep {ts : List Template} {x : Expansion} {p : α → Expansion → Prop}
    {rest : List Expr → Expanding α}
    (hBuild : Keeps (course first wide) (fun nodes x' => ∀ node ∈ nodes,
      node.PlacedIn x'.scope) (buildAll fill ts) x)
    (hRest : ∀ es x', Placed x'.scope.tenant.space.cursor (Expr.referencesOf es) →
      Keeps (course first wide) p (rest es) x') :
    Keeps (course first wide) p (do rest (← (← buildAll fill ts).mapM expr)) x := by
  refine .bind hBuild fun nodes x₁ _ _ hNodes => ?_
  refine .bind (mapM_keeps (p := fun e s => e.PlacedIn s) Expr.PlacedIn.mono
    expr_keeps nodes hNodes) fun es x₂ _ _ hEs => ?_
  exact hRest es x₂ ((placed_exprs es).mpr hEs)

mutual

/-- **What a template builds** has its variables in the store. -/
theorem Template.build_keeps (hFirst : fill.setting.firstLocal = first) :
    ∀ (t : Template) {x : Expansion}, (∀ e ∈ fill.args, e.PlacedIn x.scope) →
    Keeps (course first wide) (fun node x' => node.PlacedIn x'.scope) (t.build fill) x
  | .constant vs, x, _ => by
    exact .bind (constant_keeps vs) fun e x' _ _ hE => .pure hE
  | .localRead ref name, x, _ => by
    exact .bind (localOf_keeps ref) fun _ _ _ _ _ => .pure .nil
  | .variableRead name size, x, _ => by
    refine .bind (onScope_keeps (Reading.obtainVariable_keeps name size)) ?_
    intro v x' hOk _ hV
    exact .pure (placed_singleton.mpr (hOk.space.stop_le hV.1))
  | .negate value, x, hArgs | .not value, x, hArgs | .discard value, x, hArgs
  | .ret value, x, hArgs => by
    unfold build
    exact operand_keeps (build_keeps hFirst value hArgs) fun e x' _ hE => .pure hE
  | .binary symbol left right, x, hArgs | .logical symbol left right, x, hArgs => by
    unfold build
    refine operand_keeps (build_keeps hFirst left hArgs) fun l x₁ hLe₁ hL => ?_
    refine operand_keeps (build_keeps hFirst right
      fun e he => (hArgs e he).mono hLe₁) fun r x₂ hLe₂ hR => ?_
    split
    · exact .pure (placed_append.mpr ⟨hL.mono hLe₂, hR⟩)
    · exact .throw
  | .ternary cond yes no, x, hArgs => by
    unfold build
    refine operand_keeps (build_keeps hFirst cond hArgs) fun c x₁ hLe₁ hC => ?_
    refine operand_keeps (build_keeps hFirst yes
      fun e he => (hArgs e he).mono hLe₁) fun y x₂ hLe₂ hY => ?_
    refine operand_keeps (build_keeps hFirst no
      fun e he => ((hArgs e he).mono hLe₁).mono hLe₂) fun n x₃ hLe₃ hN => .pure ?_
    exact placed_append.mpr ⟨placed_append.mpr ⟨(hC.mono hLe₂).mono hLe₃, hY.mono hLe₃⟩, hN⟩
  | .vector args, x, hArgs | .hostCall _ args _, x, hArgs => by
    unfold build
    exact operands_keep (buildAll_keeps hFirst args hArgs) fun es x' hEs => .pure hEs
  | .helperCall name args, x, hArgs => by
    unfold build
    refine operands_keep (buildAll_keeps hFirst args hArgs) fun es x' hEs => ?_
    split
    · exact .pure hEs
    · exact .throw
  | .bind ref value body, x, hArgs => by
    unfold build
    refine .bind (localOf_keeps ref) fun index x₀ _ hLe₀ _ => ?_
    refine operand_keeps (build_keeps hFirst value
      fun e he => (hArgs e he).mono hLe₀) fun v x₁ hLe₁ hV => ?_
    refine operand_keeps (build_keeps hFirst body
      fun e he => ((hArgs e he).mono hLe₀).mono hLe₁) fun b x₂ hLe₂ hB => .pure ?_
    exact placed_append.mpr ⟨hV.mono hLe₂, hB⟩
  | .sequence stmts width, x, hArgs => by
    unfold build
    refine .bind (buildAll_keeps hFirst stmts hArgs) fun nodes x₁ _ _ hNodes => ?_
    refine .bind (mapM_keeps (p := fun t s => t.PlacedIn s) Stmt.PlacedIn.mono
      stmt_keeps nodes hNodes) fun ts x₂ _ _ hTs => .pure ?_
    exact (placed_stmts ts).mpr hTs
  | .assignLocal ref value, x, hArgs => by
    unfold build
    refine .bind (localOf_keeps ref) fun index x₀ _ hLe₀ _ => ?_
    exact operand_keeps (build_keeps hFirst value
      fun e he => (hArgs e he).mono hLe₀) fun e x' _ hE => .pure hE
  | .assignVariable name size value, x, hArgs => by
    unfold build
    refine .bind (onScope_keeps (Reading.obtainVariable_keeps name size)) ?_
    intro v x₀ hOk hLe₀ hV
    refine operand_keeps (build_keeps hFirst value
      fun e he => (hArgs e he).mono hLe₀) fun e x₁ hLe₁ hE => .pure ?_
    exact placed_append.mpr ⟨hE, placed_singleton.mpr
      (Nat.le_trans (hOk.space.stop_le hV.1) hLe₁.space.cursor)⟩
  | .argument i, x, hArgs => by
    unfold build
    split
    · rename_i e rest hDrop
      refine .pure (hArgs e (List.mem_of_mem_drop (i := i) ?_))
      rw [hDrop]
      exact List.mem_cons_self
    · exact .throw
  | .temp name, x, _ => by
    unfold build
    have hTemp : Stays (Scope.course first wide) (Reading.tempLocal fill.setting name) x.scope := by
      refine .of_concludes (Dictionary.tempLocal_concludes _ name) (fun hOk _ _ hLends => ?_)
        fun _ _ (hFalse : False) => hFalse.elim
      rw [hFirst] at hLends
      exact ⟨(hLends.grows hOk).1, (hLends.grows hOk).2.1, trivial⟩
    exact .bind (onScope_keeps hTemp) fun _ _ _ _ _ => .pure .nil
  | .actor key, x, _ => by
    unfold build
    split
    · exact .bind (constant_keeps _) fun e x' _ _ hE => .pure hE
    · exact .throw
  | .foreign kind, x, _ => by
    unfold build
    exact .pure trivial

theorem Template.buildAll_keeps (hFirst : fill.setting.firstLocal = first) :
    ∀ (ts : List Template) {x : Expansion}, (∀ e ∈ fill.args, e.PlacedIn x.scope) →
    Keeps (course first wide) (fun nodes x' => ∀ node ∈ nodes, node.PlacedIn x'.scope)
      (buildAll fill ts) x
  | [], x, _ => by
    exact .pure (List.forall_mem_nil _)
  | t :: rest, x, hArgs => by
    refine .bind (build_keeps hFirst t hArgs) fun node x₁ _ hLe₁ hNode => ?_
    refine .bind (buildAll_keeps hFirst rest fun e he => (hArgs e he).mono hLe₁) ?_
    intro nodes x₂ _ hLe₂ hNodes
    exact .pure (List.forall_mem_cons.mpr ⟨hNode.mono hLe₂, hNodes⟩)

end

end

/-! ## Queries and sources -/

/-- **A query that is no template** expands to a tree with the references of its arguments, in
order. -/
theorem Query.Expands.references_eq {query : Query} {first : Nat} {args : List Expr} {e : Expr}
    (h : query.Expands first s args e s') : e.references = Expr.referencesOf args := by
  cases h with
  | helper | host => rw [Expr.references]
  | constant => rw [Expr.references, Expr.referencesOf]
  | clamp => simp [clampExpr, Expr.references, Expr.referencesOf]
  | lerp => simp [lerpExpr, Expr.references, Expr.referencesOf]

/-- **What a query expands to** has its variables in the store. -/
theorem Query.expand_placed {first : Nat} {wide : Int → Prop} (query : Query) {st : Setting}
    (hFirst : st.firstLocal = first) (actor : List (String × Float)) {es : List Expr}
    (start stop : Nat) (hAll : ∀ e ∈ es, e.PlacedIn s) :
    Keeps (Scope.course first wide) (fun node s' => node.Holds (Expr.PlacedIn s')
      (Stmt.PlacedIn s')) (query.expand st actor es start stop) s := by
  have hOther (hPlain : query.Direct) :
      Keeps (Scope.course first wide)
        (fun node s' => node.Holds (Expr.PlacedIn s') (Stmt.PlacedIn s'))
        (query.expand st actor es start stop) s := by
    refine .mono (expand_expands hPlain hFirst actor) ?_
    rintro _ s' _ hLe ⟨e, rfl, -, hExpands⟩
    have hArgs := (placed_exprs es).mpr fun e he => (hAll e he).mono hLe
    show Placed _ e.references
    rwa [hExpands.references_eq]
  cases query with
  | helper | constant | host | clamp | lerp => exact hOther nofun
  | template arity report tree =>
    have hTree (s' : Scope) (hLe : s.Extends s') :
        Keeps (Scope.course first wide)
          (fun node s' => node.Holds (Expr.PlacedIn s') (Stmt.PlacedIn s'))
          (tree.expand ⟨st, es, actor⟩) s' := by
      intro hOk
      have hBuild : Ends _ _ (tree.build ⟨st, es, actor⟩ ⟨s', []⟩) :=
        Template.build_keeps hFirst tree (fun e he => (hAll e he).mono hLe) hOk
      unfold Template.expand
      generalize tree.build ⟨st, es, actor⟩ ⟨s', []⟩ = out at hBuild ⊢
      cases hBuild with
      | ok hEnd => exact .ok hEnd
      | error hEnd => exact .error hEnd
    cases arity with
    | none =>
      cases report with
      | none => exact hTree s ((Scope.course first wide).refl s)
      | some text => exact .throw
    | some n =>
      have hCheck : Stays (Scope.course first wide) (checkArguments st es n start stop) s := by
        refine .of_concludes (checkArguments_concludes Setting.allows_any n) ?_ fun _ _ hFailed =>
          hFailed.1
        rintro hOk _ _ ⟨rfl, -⟩
        exact ⟨hOk, .refl _, trivial⟩
      refine .bind hCheck fun _ s' _ hLe _ => ?_
      cases report with
      | none => exact hTree s' hLe
      | some text => exact .throw

/-- **Trees that are read** have their variables in the store, whatever queries there are. -/
theorem Dictionary.placed_rules (dict : Dictionary) :
    TreeRules dict (fun _ => True) Expr.PlacedIn Stmt.PlacedIn Expr.PlacedIn where
  mono := .mono
  monoStmt := .mono
  whole h := h
  width _ := trivial
  constant _ _ _ := .nil
  temp _ _ _ := .nil
  context _ _ _ _ := .nil
  variableRead hSound hMem := placed_singleton.mpr (hSound.stop_le hMem)
  negate hE _ := hE
  not hE _ := hE
  binary _ hL hR _ _ := placed_append.mpr ⟨hL, hR⟩
  logical _ hL hR _ _ := placed_append.mpr ⟨hL, hR⟩
  ternary hCondition hYes hNo _ _ :=
    placed_append.mpr ⟨placed_append.mpr ⟨hCondition, hYes⟩, hNo⟩
  vector _ hAll _ := (placed_exprs _).mpr hAll
  call start stop _ hArgs := Query.expand_placed _ rfl dict.actor start stop hArgs
  discard hE := hE
  assignLocal hE _ _ _ := hE
  assignVariable hE hSound hMem _ :=
    placed_append.mpr ⟨hE, placed_singleton.mpr (hSound.stop_le hMem)⟩
  ret hE _ := hE
  sequence hAll := (placed_stmts _).mpr hAll

end MolangCompiler
