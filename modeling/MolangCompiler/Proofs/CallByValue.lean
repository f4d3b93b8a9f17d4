import MolangCompiler.Proofs.Denotation
import MolangCompiler.Proofs.RoundTrip

/-!
# Expansions are called by value

A call of `math.lerp` or `math.clamp` is replaced by a tree that its arguments become part of.  It
still is evaluated like a call of a function: its arguments first, in their order and each of them
once, and then the result from their values.

`math.lerp` keeps its first argument in a local.  The local is handed out after the arguments have
been read, so all locals that they bind lie below it (`Expr.BindsBelow`), and evaluating them leaves
it as it is (`Expr.keepsLocals_value`).
-/

namespace MolangCompiler

open MolangCompiler.Expr

variable {ω : Type} {bound : Nat}

/-! ## Locals that an expression binds -/

def Expr.BindsBelow (bound : Nat) : Expr → Prop
  | .bind index _ _ => index < bound
  | _ => True

private theorem keepsLocals_noSingleValue (e : Expr) :
    KeepsLocals (σ := ω) (α := Float) bound (noSingleValue e) :=
  fun _ _ _ h => nomatch h

mutual

/-- **Evaluating an expression** changes only the locals that it binds. -/
theorem Expr.keepsLocals_value (h : Surroundings ω) :
    ∀ e : Expr, e.Each (BindsBelow bound) → KeepsLocals bound (e.value h)
  | .constant xs, _ => by
    match xs with
    | [_] => exact .pure _
    | [] | _ :: _ :: _ => exact keepsLocals_noSingleValue _
  | .localRead index _, _ => .readLocal index
  | .variableRead _, _ => .ite (.onWorld _) (keepsLocals_noSingleValue _)
  | .negate operand, hE | .not operand, hE =>
    .bind (keepsLocals_value h operand hE.2) fun _ => .pure _
  | .binary _ left right, hE =>
    .bind (keepsLocals_value h left hE.2.1) fun _ =>
      .bind (keepsLocals_value h right hE.2.2) fun _ => .pure _
  | .logical .and left right, hE =>
    .bind (keepsLocals_value h left hE.2.1) fun _ =>
      .ite (.bind (keepsLocals_value h right hE.2.2) fun _ => .pure _) (.pure _)
  | .logical .or left right, hE =>
    .bind (keepsLocals_value h left hE.2.1) fun _ =>
      .ite (.pure _) (.bind (keepsLocals_value h right hE.2.2) fun _ => .pure _)
  | .ternary condition yes no, hE =>
    .bind (keepsLocals_value h condition hE.2.1) fun _ =>
      .ite (keepsLocals_value h yes hE.2.2.1) (keepsLocals_value h no hE.2.2.2)
  | .vector elements, hE => by
    match elements, hE.2 with
    | [e], hE => exact keepsLocals_value h e hE.1
    | [], _ | _ :: _ :: _, _ => exact keepsLocals_noSingleValue _
  | .helperCall helper args, hE =>
    .bind (keepsLocals_valueAll h args hE.2) fun _ => helper.keepsLocals_apply _
  | .hostCall _ args _, hE =>
    .bind (keepsLocals_valueAll h args hE.2) fun _ => .bind (.onWorld _) fun v =>
      v.keepsLocals_single
  | .bind _ value body, hE =>
    .bind (keepsLocals_value h value hE.2.1) fun _ =>
      .bind (.setLocal hE.1 _) fun _ => keepsLocals_value h body hE.2.2
  | .sequence _ _, _ => keepsLocals_noSingleValue _

theorem Expr.keepsLocals_valueAll (h : Surroundings ω) : ∀ es : List Expr,
    EachOf (BindsBelow bound) es → KeepsLocals bound (valueAll h es)
  | [], _ => .pure _
  | e :: rest, hE =>
    .bind (keepsLocals_value h e hE.1) fun _ =>
      .bind (keepsLocals_valueAll h rest hE.2) fun _ => .pure _

end

/-! ## Values of expansions -/

namespace Query

/-- `a + (b - a) * t`, each operation in single precision. -/
def lerped (a b t : Float) : Float := single (a + single (single (b - a) * t))

/-- A number restricted to a range. -/
def clamped (x low high : Float) : Float :=
  single (Helper.smaller (single (Helper.larger x low)) high)

def isLerp : Query → Bool
  | .lerp => true
  | _ => false

variable (h : Surroundings ω) {index : Nat}

theorem value_lerpExpr (a : Expr) {b : Expr} (hB : b.Each (BindsBelow index)) (t : Expr) :
    (lerpExpr index [a, b, t]).value h = (do
      let x ← a.value h
      setLocal index x
      let y ← b.value h
      let z ← t.value h
      return lerped x y z) := by
  simp only [lerpExpr, value, bind_assoc, pure_bind]
  refine congrArg (a.value h >>= ·) (funext fun x => ?_)
  -- the local is read before the second argument is evaluated, and once more behind it
  have hNothing : KeepsLocals (σ := ω) index (pure ()) := .pure ()
  have hFirst := readLocal_after hNothing x fun _ kept => do
      let y ← b.value h
      let k ← readLocal index
      let z ← t.value h
      return BinaryOp.add.apply kept (BinaryOp.mul.apply (BinaryOp.sub.apply y k) z)
  have hSecond := readLocal_after (keepsLocals_value h b hB) x fun y k => do
      let z ← t.value h
      return BinaryOp.add.apply x (BinaryOp.mul.apply (BinaryOp.sub.apply y k) z)
  simp only [pure_bind] at hFirst
  exact hFirst.trans hSecond

theorem value_clampExpr (value low high : Expr) : (clampExpr [value, low, high]).value h = (do
      let x ← value.value h
      let y ← low.value h
      let z ← high.value h
      return clamped x y z) := by
  simp only [clampExpr, Expr.value, Expr.valueAll, bind_assoc, pure_bind]
  rfl

end Query

/-! ## Calls in sources -/

theorem Expr.RegularIn.bindsBelow {args : Nat} {k : Callable} {s : Scope} {e : Expr}
    (h : e.RegularIn args k s) : e.Each (BindsBelow (s.bounds args).firstFresh) := by
  refine .mono (fun e hE => ?_) e h
  cases e with
  | bind => exact hE.1.1.2
  | _ => trivial

namespace Dictionary

variable {dict : Dictionary} {text : String} {s s' : Scope} {es : List Expr}

/-- A call becomes what its query expands to. -/
theorem call_of_found {query : Query}
    (h : Query.find? dict.queries (canonicalName text) = some query)
    {e : Expr} (hExpand : ∀ start stop,
      query.expand dict.setting dict.actor es start stop s = .ok (.expr e) s') (pos : Nat) :
    dict.call text pos es s = .ok e s' := by
  unfold call
  rw [h]
  exact bind_of_ok (hExpand pos _)

end Dictionary

namespace Workshop

variable {w : Workshop}

/-- **Expansions are called by value.**  Take an instance without templates.  In whatever scope a
call of `math.lerp` or `math.clamp` is read, with whatever arguments that could be read there: the
tree that it becomes evaluates them in their order and each of them once, none of them touches the
local that holds the first one, and the value is computed from theirs.  That tree may be an argument
again. All trees that are read are such trees, and artifacts do what their trees mean. -/
theorem expansions_are_called_by_value (hSound : w.inst.space.Sound)
    (hTemplateless : w.inst.Templateless) (r : Request) :
    (∀ {s : Scope} {a b c : Expr} (text : String) (position : Nat),
      (∀ e ∈ [a, b, c], e.RegularIn r.context.length .any s ∧ e.width = 1) →
      (Query.find? w.inst.queries (canonicalName text) = some .lerp →
        ∃ e s', (w.dictionary r).call text position [a, b, c] s = .ok e s' ∧
          e.RegularIn r.context.length .any s' ∧ e.width = 1 ∧
          ∀ {ω : Type} (h : Surroundings ω), e.value h = (do
              let x ← a.value h
              setLocal (s.bounds r.context.length).firstFresh x
              let y ← b.value h
              let z ← c.value h
              return Query.lerped x y z) ∧
            ∀ arg ∈ [a, b, c], KeepsLocals (s.bounds r.context.length).firstFresh (arg.value h)) ∧
      (Query.find? w.inst.queries (canonicalName text) = some .clamp →
        ∃ e s', (w.dictionary r).call text position [a, b, c] s = .ok e s' ∧
          e.RegularIn r.context.length .any s' ∧ e.width = 1 ∧
          ∀ {ω : Type} (h : Surroundings ω), e.value h = (do
            let x ← a.value h
            let y ← b.value h
            let z ← c.value h
            return Query.clamped x y z))) ∧
    ∀ {home : Nat} {a : Artifact} {w' : Workshop}, compile home r w = .ok a w' →
      ∃ e temps s, e.ReadIn r.context.length .any s ∧ (∃ w₁, read r w = .ok (e, temps) w₁) ∧
        ∀ {host : Host} {s : Session} {i : Instance} {args : List Float} (limit : Nat),
          e.EachNode Expr.ConstantsApply → host.Impartial a.home → s.Sound → s.Houses a →
          s.instance? a.home = some i → w'.inst.Grows i → i.depth = 0 → args.length = a.args →
          Agree (fun xs t ys t' => ys = xs ∧ xs.length = a.returns ∧ Session.SameSpace a.home t t')
            (Session.SameSpace a.home)
            (e.evaluate (Session.surroundings a.home
              (Session.callDeed host (Session.hosted host limit) a)) (args.map single) temps
              (s.entered a.home))
            (Session.hosted host (limit + 1) a args s) := by
  refine ⟨fun {s a b c} text position hArgs => ?_, fun hCompile => ?_⟩
  · have hRegular : ∀ e ∈ [a, b, c], e.RegularIn r.context.length .any s :=
      fun e he => (hArgs e he).1
    have hWidth : ∀ e ∈ [a, b, c], e.width = 1 := fun e he => (hArgs e he).2
    have hCheck (start stop : Nat) : Query.checkArguments (w.dictionary r).setting [a, b, c] 3 start
        stop s = .ok () s :=
      Dictionary.checkArguments_ok hWidth
    constructor
    · intro hFound
      let s' : Scope := { s with locals := s.locals + 1 }
      have hIndex : (s'.bounds r.context.length).Names (s.bounds r.context.length).firstFresh :=
        Scope.names_of_fresh (Nat.le_add_right _ _) (Nat.lt_succ_self _)
      refine ⟨_, s', Dictionary.call_of_found hFound
        (fun start stop => bind_of_ok (hCheck start stop))
        position, ?_, rfl, fun h => ⟨?_, fun arg hArg => ?_⟩⟩
      · exact .lerp rfl (fun e he => (hRegular e he).mono (.fresh s)) hWidth hIndex
      · exact Query.value_lerpExpr h a (hRegular b (by simp)).bindsBelow c
      · exact arg.keepsLocals_value h (hRegular arg hArg).bindsBelow
    · intro hFound
      exact ⟨_, s, Dictionary.call_of_found hFound
        (fun start stop => bind_of_ok (hCheck start stop))
        position, .clamp rfl hRegular hWidth trivial trivial, rfl,
        fun h => Query.value_clampExpr h a b c⟩
  · obtain ⟨-, -, p, w₁, d, hCompiled⟩ := (compile_keeps _ r w).of_ok hSound hCompile
    obtain ⟨s, -, -, -, hTree⟩ := read_obeys hSound hTemplateless.obeys hCompiled.read
    obtain ⟨hRenders, -⟩ := hCompiled.renders hSound hTemplateless.obeys
    refine ⟨p.1, p.2, s, hTree, ⟨w₁, hCompiled.read⟩,
      fun limit hApply hImpartial hSession hHoused hAt hGrows hIdle hLength => ?_⟩
    exact Session.hosted_denotes hImpartial limit
      (hRenders.mono hGrows.space.cursor hGrows.buffer) hApply hSession hHoused hAt
      (.inl hIdle) hLength

/-- An instance with the default queries only. -/
def plainWorkshop : Workshop := ⟨(Session.start none).books, .fresh Query.defaults [] false⟩

/-- An interpolation between what the host says and another interpolation. -/
theorem nested_interpolation_is_called_by_value :
    plainWorkshop.inst.space.Sound ∧ plainWorkshop.inst.Templateless ∧
    ∃ e s', (plainWorkshop.dictionary ⟨"", [], []⟩).call "Math.Lerp" 0 [.hostCall "f" [] 1,
        Query.lerpExpr 1 [.constant [1], .constant [2], .constant [3]], .constant [4]]
        ⟨plainWorkshop.tenant, [], 1, none⟩ = .ok e s' ∧ e.RegularIn 0 .any s' ∧ e.width = 1 := by
  have hSound : plainWorkshop.inst.space.Sound := Namespace.sound_empty
  have hTemplateless : plainWorkshop.inst.Templateless :=
    Instance.templateless_of_all (by decide +kernel)
  have hFound : Query.find? plainWorkshop.inst.queries (canonicalName "Math.Lerp") =
      some .lerp := by
    have hKind : (Query.find? plainWorkshop.inst.queries (canonicalName "Math.Lerp")).any
        Query.isLerp = true := by decide +kernel
    cases hQuery : Query.find? plainWorkshop.inst.queries (canonicalName "Math.Lerp") with
    | none =>
      rw [hQuery] at hKind
      cases hKind
    | some query =>
      rw [hQuery] at hKind
      cases query with
      | lerp => rfl
      | _ => cases hKind
  have hArgs : ∀ e ∈ [Expr.hostCall "f" [] 1,
      Query.lerpExpr 1 [.constant [1], .constant [2], .constant [3]], .constant [4]],
      e.RegularIn 0 .any ⟨plainWorkshop.tenant, [], 1, none⟩ ∧ e.width = 1 := by
    simp [Query.lerpExpr, Expr.RegularIn, Expr.Each, Expr.EachOf, Expr.Regular, Expr.Fits,
      Expr.Occupied, Expr.Calls, Callable.any, Expr.width, Bounds.Names, Bounds.firstFresh,
      Scope.bounds]
  obtain ⟨e, s', hCall, hRegular, hWidth, -⟩ :=
    ((expansions_are_called_by_value hSound hTemplateless ⟨"", [], []⟩).1 "Math.Lerp" 0 hArgs).1
    hFound
  exact ⟨hSound, hTemplateless, e, s', hCall, hRegular, hWidth⟩

end Workshop

end MolangCompiler
