import MolangCompiler.Proofs.Comparison

/-!
# Comparing readings by their variables

A dictionary reaches the variables of an instance in two ways only: it looks one up by its name, or
it obtains one, which may be made then.  So a comparison that covers these two operations covers the
reading of every source (`Dictionary.readSource_obtains`).
-/

namespace MolangCompiler

open Expanding Template

/-- A comparison in which finding and obtaining a variable correspond to themselves. -/
structure Comparison.Obtains (c : Comparison Scope Scope) : Prop where
  aside : c.CoversAside
  find (name : String) : c.Like (Reading.findVariable name) (Reading.findVariable name)
  obtains (name : String) (size : Int) :
    c.Like (Reading.obtainVariable name size) (Reading.obtainVariable name size)

/-! ## Templates -/

/-- The scope of an expansion, with the locals of its labels beside it. -/
def Expansion.parts : Comparison.Parts Expansion Scope (List (String × Nat)) where
  main := scope
  second := labels
  join := Expansion.mk
  join_parts _ := rfl
  main_join _ _ := rfl
  second_join _ _ := rfl

namespace Comparison

abbrev expanding (c : Comparison Scope Scope) : Comparison Expansion Expansion :=
  c.beside Expansion.parts Expansion.parts

variable {c : Comparison Scope Scope} {fill : Filling}

variable {α : Type}

theorem onScope_compared {act act' : Reading α} (h : c.Like act act') :
    c.expanding.Like (onScope act) (onScope act') := beside_onPart h

theorem expr_compared (node : Node) : c.expanding.Like (expr node) (expr node) := by
  cases node with
  | expr e => exact c.expanding.pure trivial
  | stmt | foreign => exact c.expanding.throw _

theorem stmt_compared (node : Node) : c.expanding.Like (stmt node) (stmt node) := by
  cases node with
  | stmt t => exact c.expanding.pure trivial
  | expr | foreign => exact c.expanding.throw _

theorem mapM_compared {f : Node → Expanding α} (hf : ∀ node, c.expanding.Like (f node) (f node))
    (nodes : List Node) : c.expanding.Like (nodes.mapM f) (nodes.mapM f) := by
  induction nodes with
  | nil =>
    exact c.expanding.pure trivial
  | cons node rest ih =>
    rw [List.mapM_cons]
    exact (hf node).bind fun a => ih.bind fun others => c.expanding.pure trivial

/-- A label has the same local in both expansions, since the labels so far are the same. -/
theorem localOf_compared (h : c.CoversAside) (ref : LocalRef) :
    c.expanding.Like (localOf fill ref) (localOf fill ref) := by
  cases ref with
  | index i => exact c.expanding.pure trivial
  | label text =>
    intro labels
    have hLabel : Expansion.parts.expose (localOf fill (.label text)) labels =
        (labels.find? (·.1 == text)).elim (Reading.freshLocal fill.setting >>= fun index =>
          Pure.pure (index, labels ++ [(text, index)])) fun p => Pure.pure (p.2, labels) := by
      funext s
      have hGet : (get : Expanding Expansion) ⟨s, labels⟩ = .ok ⟨s, labels⟩ ⟨s, labels⟩ := rfl
      cases hFind : labels.find? (·.1 == text) with
      | some p =>
        refine Expansion.parts.expose_of_ok (r := ⟨s, labels⟩) ((bind_of_ok hGet).trans ?_)
        rw [hFind]
        rfl
      | none =>
        refine Expansion.parts.expose_of_ok (a := fill.setting.firstLocal + s.locals)
          (r := ⟨{ s with locals := s.locals + 1 },
            labels ++ [(text, fill.setting.firstLocal + s.locals)]⟩) ((bind_of_ok hGet).trans ?_)
        rw [hFind]
        rfl
    rw [hLabel]
    cases labels.find? (·.1 == text) with
    | some => exact c.pure trivial
    | none => exact (h (.freshLocal fill.setting)).bind fun index => c.pure trivial

theorem operand_compared {build : Expanding Node} {rest : Expr → Expanding α}
    (hBuild : c.expanding.Like build build) (hRest : ∀ e, c.expanding.Like (rest e) (rest e)) :
    c.expanding.Like (do rest (← expr (← build))) (do rest (← expr (← build))) :=
  hBuild.bind fun node => (expr_compared node).bind hRest

theorem operands_compared {build : Expanding (List Node)} {rest : List Expr → Expanding α}
    (hBuild : c.expanding.Like build build) (hRest : ∀ es, c.expanding.Like (rest es) (rest es)) :
    c.expanding.Like (do rest (← (← build).mapM expr)) (do rest (← (← build).mapM expr)) :=
  hBuild.bind fun nodes => (mapM_compared expr_compared nodes).bind hRest

end Comparison

open Comparison

variable {c : Comparison Scope Scope}

mutual

/-- **Building a template** corresponds to itself, part by part. -/
theorem Template.build_compared (h : c.Obtains) {fill : Filling} :
    ∀ t : Template, c.expanding.Like (t.build fill) (t.build fill)
  | .constant values => by
    exact (onScope_compared (h.aside (.ofTree _))).bind fun e => c.expanding.pure trivial
  | .localRead ref name => by
    exact (localOf_compared h.aside ref).bind fun index => c.expanding.pure trivial
  | .variableRead name size => by
    exact (onScope_compared (h.obtains name size)).bind fun v => c.expanding.pure trivial
  | .negate value | .not value | .discard value | .ret value => by
    unfold build
    exact operand_compared (build_compared h value) fun e => c.expanding.pure trivial
  | .binary symbol left right | .logical symbol left right => by
    unfold build
    refine operand_compared (build_compared h left) fun l => ?_
    refine operand_compared (build_compared h right) fun r => ?_
    split
    · exact c.expanding.pure trivial
    · exact c.expanding.throw _
  | .ternary condition yes no => by
    unfold build
    refine operand_compared (build_compared h condition) fun q => ?_
    refine operand_compared (build_compared h yes) fun y => ?_
    exact operand_compared (build_compared h no) fun n => c.expanding.pure trivial
  | .vector args | .hostCall _ args _ => by
    unfold build
    exact operands_compared (buildAll_compared h args) fun es => c.expanding.pure trivial
  | .helperCall name args => by
    unfold build
    refine operands_compared (buildAll_compared h args) fun es => ?_
    split
    · exact c.expanding.pure trivial
    · exact c.expanding.throw _
  | .bind ref value body => by
    unfold build
    refine (localOf_compared h.aside ref).bind fun index => ?_
    refine operand_compared (build_compared h value) fun v => ?_
    exact operand_compared (build_compared h body) fun b => c.expanding.pure trivial
  | .sequence statements width => by
    unfold build
    refine (buildAll_compared h statements).bind fun nodes => ?_
    exact (mapM_compared stmt_compared nodes).bind fun ts => c.expanding.pure trivial
  | .assignLocal ref value => by
    unfold build
    refine (localOf_compared h.aside ref).bind fun index => ?_
    exact operand_compared (build_compared h value) fun e => c.expanding.pure trivial
  | .assignVariable name size value => by
    unfold build
    refine (onScope_compared (h.obtains name size)).bind fun v => ?_
    exact operand_compared (build_compared h value) fun e => c.expanding.pure trivial
  | .argument i => by
    unfold build
    split
    · exact c.expanding.pure trivial
    · exact c.expanding.throw _
  | .temp name => by
    unfold build
    exact (onScope_compared (h.aside (.tempLocal _ name))).bind
      fun index => c.expanding.pure trivial
  | .actor key => by
    unfold build
    split
    · exact (onScope_compared (h.aside (.ofTree _))).bind fun e => c.expanding.pure trivial
    · exact c.expanding.throw _
  | .foreign kind => by
    unfold build
    exact c.expanding.pure trivial

theorem Template.buildAll_compared (h : c.Obtains) {fill : Filling} :
    ∀ ts : List Template, c.expanding.Like (buildAll fill ts) (buildAll fill ts)
  | [] => by
    exact c.expanding.pure trivial
  | t :: rest => by
    refine (build_compared h t).bind fun first => ?_
    exact (buildAll_compared h rest).bind fun others => c.expanding.pure trivial

end

theorem Template.expand_compared (h : c.Obtains) (t : Template) (fill : Filling) :
    c.Like (t.expand fill) (t.expand fill) := by
  have hExpand : t.expand fill = Expansion.parts.expose (t.build fill) [] >>= fun r =>
      Pure.pure r.1 := by
    funext s
    unfold expand
    cases hBuild : t.build fill ⟨s, []⟩ with
    | ok node x => rw [bind_of_ok (Expansion.parts.expose_of_ok hBuild)]; rfl
    | error e x => rw [bind_of_error (Expansion.parts.expose_of_error hBuild)]; rfl
  rw [hExpand]
  exact .bind (build_compared h t []) fun r => c.pure trivial

/-- **Every query** expands in the same way. -/
theorem Query.expand_compared (h : c.Obtains) (query : Query) (st : Setting)
    (actor : List (String × Float)) (args : List Expr) (start stop : Nat) :
    c.Like (query.expand st actor args start stop) (query.expand st actor args start stop) := by
  have hOther (hPlain : query.Direct) :
      c.Like (query.expand st actor args start stop) (query.expand st actor args start stop) :=
    h.aside (.expand hPlain st actor args start stop)
  cases query with
  | template arity report tree =>
    have hTree := Template.expand_compared h tree ⟨st, args, actor⟩
    cases arity with
    | some n =>
      have hCheck := h.aside (.checkArguments st args n start stop)
      cases report with
      | some text => exact hCheck.bind fun _ => c.throw _
      | none => exact hCheck.bind fun _ => hTree
    | none =>
      cases report with
      | some text => exact c.throw _
      | none => exact hTree
  | helper | constant | host | clamp | lerp => exact hOther fun _ _ _ hSame => nomatch hSame

/-! ## Dictionaries -/

namespace Dictionary

variable {c : Comparison Scope Scope}

section

variable (h : c.Obtains) (dict : Dictionary) (text : String) (position : Nat)
include h dict text position

theorem call_compared (args : List Expr) :
    c.Like (dict.call text position args) (dict.call text position args) := by
  unfold call
  extract_lets stop canonical
  split
  · exact c.throw _
  · refine (Query.expand_compared h _ _ _ _ _ _).bind fun node => ?_
    cases node with
    | expr e => exact c.pure trivial
    | stmt | foreign => exact c.throw _

theorem name_compared : c.Like (dict.name text position) (dict.name text position) := by
  unfold name
  extract_lets st stop canonical
  split
  split
  · refine (h.find _).bind fun found => ?_
    cases found with
    | some v => exact c.pure trivial
    | none => exact (h.obtains _ _).bind fun v => c.pure trivial
  · split
    · exact (h.aside (.tempLocal _ _)).bind fun index => c.pure trivial
    · split
      · split
        · exact c.pure trivial
        · exact c.throw _
      · split
        · exact c.throw _
        · exact h.aside (.ofTree _)
        · split
          · exact call_compared h dict _ _ _
          · exact c.throw _

theorem assign_compared (value : Expr) :
    c.Like (dict.assign text position value) (dict.assign text position value) := by
  unfold assign
  extract_lets st stop canonical
  split
  split
  · refine (h.find _).bind fun found => ?_
    cases found with
    | some v =>
      dsimp only
      split
      · exact c.bind (p := fun _ => True) (c.throw _) fun _ _ => c.pure trivial
      · exact c.pure trivial
    | none => exact (h.obtains _ _).bind fun v => c.pure trivial
  · split
    · extract_lets rest
      have hRest : c.Like (rest ⟨⟩) (rest ⟨⟩) :=
        (h.aside (.tempLocal _ _)).bind fun index => c.pure trivial
      split
      · exact c.bind (p := fun _ => True) (c.throw _) fun _ _ => hRest
      · exact hRest
    · exact c.throw _

end

/-- **Reading a source** corresponds to itself if finding and obtaining variables do. -/
theorem readSource_obtains (h : c.Obtains) (dict : Dictionary) :
    c.Like dict.readSource dict.readSource := by
  have hDict : dict.Compared c (fun _ => True) dict :=
    ⟨h.aside, rfl, fun _ p => name_compared h dict _ p, fun _ p e => assign_compared h dict _ p e,
      fun _ p args => call_compared h dict _ p args⟩
  refine readSource_compared hDict fun t _ => ?_
  cases t.lexeme <;> trivial

end Dictionary

end MolangCompiler
