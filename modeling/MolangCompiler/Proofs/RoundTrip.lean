import MolangCompiler.Proofs.Printing
import MolangCompiler.Proofs.Recognition

/-!
# Reading what was printed

The tokens of a printed expression are read back as that expression.  What has been read is put
together when the next token is known, so the statement is about the token behind it, and says that
the machine goes on there as it would behind the whole expression (`Dictionary.Finishes`), provided
that the token does not bind more tightly than the expression is held together.

Nor must an expression be torn apart by what stands before it: the innermost open frame demands a
level (`Frame.demand`).
-/

namespace MolangCompiler

open MolangCompiler.Frame

open MolangCompiler.Expr

open Config

/-! ## Runs that change nothing -/

section

variable {σ E S : Type} {acts : Actions (Act σ) E S} {s : σ}

/-- Wherever lexemes stand, reading them leaves the state as it is and leads to a configuration that
is as `P` says. -/
def Config.Passes (acts : Actions (Act σ) E S) (s : σ) (P : Config E S → Prop) :
    List Lexeme → Config E S → Prop
  | [], c => P c
  | l :: rest, c => ∀ p, ∃ b, c.step acts (some l) p s = .ok (.next b) s ∧ Passes acts s P rest b

variable {P Q : Config E S → Prop} {c : Config E S}

theorem Config.Passes.append {u v : List Lexeme} (hu : Passes acts s P u c)
    (hv : ∀ d, P d → Passes acts s Q v d) : Passes acts s Q (u ++ v) c := by
  induction u generalizing c with
  | nil => exact hv c hu
  | cons l u ih =>
    intro p
    obtain ⟨b, hStep, hu⟩ := hu p
    exact ⟨b, hStep, ih hu⟩

theorem Config.Passes.mono {u : List Lexeme} (h : Passes acts s P u c) (hPQ : ∀ d, P d → Q d) :
    Passes acts s Q u c := by
  rw [← List.append_nil u]
  exact h.append hPQ

theorem Config.Passes.drive_accepted {tokens : List Token} {stop : Nat} {e : E}
    (h : Passes acts s (fun d => d.step acts none stop s = .ok (.accepted e) s)
      (tokens.map Token.lexeme) c) (index : Nat) :
    c.drive acts stop index tokens s = .ok (.accepted e) s := by
  induction tokens generalizing c index with
  | nil =>
    have hEnd : c.step acts none stop s = .ok (.accepted e) s := h
    unfold drive
    rw [bind_of_ok hEnd]
    rfl
  | cons t rest ih =>
    obtain ⟨b, hStep, h⟩ := h t.start
    unfold drive
    rw [bind_of_ok hStep]
    exact ih h (index + 1)

end

/-! ## What binds -/

/-- The level up to which a token takes the expression before it as its left operand; nothing is
taken by what ends an expression. -/
def Lexeme.strength : Option Lexeme → Nat
  | some (.operator op) => op.level
  | some .question => 1
  | _ => 0

theorem Operator.level_pos (op : Operator) : 1 ≤ op.level := by
  cases op with
  | binary op | logical op => cases op <;> decide

theorem Operator.level_lt (op : Operator) : op.level < signLevel := by
  cases op with
  | binary op | logical op => cases op <;> decide

theorem Lexeme.strength_le (token : Option Lexeme) : strength token ≤ signLevel := by
  unfold strength
  split
  · exact Nat.le_of_lt (Operator.level_lt _)
  · decide
  · exact Nat.zero_le _

/-- The least level of an expression that the innermost frame leaves whole. -/
def Frame.demand : List (Frame Expr) → Nat
  | .negate _ :: _ | .not _ :: _ => Expr.signLevel
  | .operator _ op _ :: _ => op.level + 1
  | _ => 0

variable {op : Operator} {names : Spelling} {es : List Expr}

namespace Config

variable {acts : Actions (Act Scope) Expr Stmt} {stmts : List Stmt} {head : Head}
  {pos : Nat} {frames : List (Frame Expr)} {e : Expr}

theorem continueWith_operator (h : demand frames ≤ op.level) :
    continueWith acts stmts head (some (.operator op)) pos frames e =
      pure (.next ⟨stmts, head, .operator e op pos :: frames, .operand⟩) := by
  have hLt := op.level_lt
  cases frames with
  | nil => rfl
  | cons frame rest =>
    cases frame with
    | negate | not => exact absurd h (Nat.not_le.mpr hLt)
    | operator left op' p =>
      exact if_pos h
    | _ => rfl

theorem continueWith_question (h : demand frames = 0) :
    continueWith acts stmts head (some .question) pos frames e =
      pure (.next ⟨stmts, head, .question e pos :: frames, .operand⟩) := by
  cases frames with
  | nil => rfl
  | cons frame rest =>
    cases frame with
    | negate | not | operator => cases h
    | _ => rfl

theorem continueWith_endsOperator {token : Option Lexeme} {left : Expr} {p : Nat}
    (h : Lexeme.strength token ≤ op.level) :
    continueWith acts stmts head token pos (.operator left op p :: frames) e =
      acts.operator op p left e >>= continueWith acts stmts head token pos frames := by
  cases token with
  | none => rfl
  | some lexeme =>
    cases lexeme with
    | operator op' =>
      exact if_neg (Nat.not_lt.mpr h)
    | _ => rfl

theorem continueWith_endsTernary {token : Option Lexeme} {cond yes : Expr} {p q : Nat}
    (h : Lexeme.strength token = 0) :
    continueWith acts stmts head token pos (.colon cond yes p q :: frames) e =
      acts.ternary p q cond yes e >>= continueWith acts stmts head token pos frames := by
  cases token with
  | none => rfl
  | some lexeme =>
    cases lexeme with
    | operator op => exact absurd h (Nat.ne_of_gt op.level_pos)
    | question => cases h
    | _ => rfl

end Config

namespace Dictionary

variable (dict : Dictionary) (s : Scope)

/-! ## Reading one expression -/

/-- Behind an expression that has been read: the machine goes on with every token that binds no
more tightly than the given level as it does behind the whole expression. -/
def Finishes (statements : List Stmt) (head : Head) (frames : List (Frame Expr)) (e : Expr)
    (level : Nat) (c : Config Expr Stmt) : Prop :=
  ∀ token position, Lexeme.endsOperand token = true → Lexeme.strength token ≤ level →
    c.step dict.actions token position s =
      Config.continueWith dict.actions statements head token position frames e s

/-- Lexemes are read as an expression inside the given frames. -/
def Takes (frames : List (Frame Expr)) (ls : List Lexeme) (e : Expr) (level : Nat) : Prop :=
  ∀ (statements : List Stmt) (head : Head), Config.Passes dict.actions s
    (dict.Finishes s statements head frames e level) ls ⟨statements, head, frames, .operand⟩

variable {dict s} {frames : List (Frame Expr)} {e : Expr} {level : Nat} {ls : List Lexeme}

theorem Takes.mono {low : Nat} (h : dict.Takes s frames ls e level) (hLe : low ≤ level) :
    dict.Takes s frames ls e low :=
  fun stmts head => (h stmts head).mono fun _ hFinishes token pos hEnds hStrength =>
    hFinishes token pos hEnds (Nat.le_trans hStrength hLe)

variable {stmts : List Stmt} {head : Head} {l r : Expr} {text : String} {extra : Expr → Bool}
  {p : Nat} {args : List Expr}

theorem finishes_of_value {c : Config Expr Stmt} (value : Reading Expr) (hValue : value s = .ok e s)
    (hStep : ∀ token pos, Lexeme.endsOperand token = true →
      c.step dict.actions token pos =
        value >>= continueWith dict.actions stmts head token pos frames) :
    dict.Finishes s stmts head frames e level c := by
  intro token pos hEnds _
  rw [hStep token pos hEnds, bind_of_ok hValue]

/-- An expression in parentheses is whole whatever stands around it. -/
theorem Takes.group (h : dict.Takes s (.group :: frames) ls e 0) :
    dict.Takes s frames (.openParen :: (ls ++ [.closeParen])) e level := by
  refine fun stmts head p => ⟨_, rfl, (h stmts head).append fun d hFinishes q =>
    ⟨⟨stmts, head, frames, .group e⟩, ?_, ?_⟩⟩
  · exact hFinishes _ _ rfl (Nat.zero_le _)
  · exact finishes_of_value (pure e) rfl fun token pos hEnds => if_pos hEnds

theorem takes_number {x : Float} (hx : single x = x) :
    dict.Takes s frames [.number x] (.constant [x]) level := by
  have hValue : dict.actions.number x s = .ok (.constant [x]) s := by
    show EStateM.Result.ok (constant [single x]) s = _
    rw [hx]
  exact fun stmts head p => ⟨_, rfl, finishes_of_value _ hValue fun token pos hEnds => if_pos hEnds⟩

theorem Takes.signed {sign : Lexeme} (frame : Nat → Frame Expr) {result : Expr}
    (h : ∀ p, dict.Takes s (frame p :: frames) ls e signLevel)
    (hPush : ∀ (c : Config Expr Stmt) p, c.beginOperand sign p = .next (c.push (frame p)))
    (hMake : ∀ p stmts head token pos,
      continueWith dict.actions stmts head token pos (frame p :: frames) e s =
        continueWith dict.actions stmts head token pos frames result s) :
    dict.Takes s frames (sign :: ls) result level := by
  refine fun stmts head p => ⟨_, ?_, (h p stmts head).mono fun d hFinishes token pos hEnds _ => ?_⟩
  · show EStateM.Result.ok (beginOperand _ sign p) s = _
    rw [hPush]
    rfl
  · rw [hFinishes token pos hEnds (Lexeme.strength_le token), hMake]

theorem Takes.operator {rs : List Lexeme} (hLeft : dict.Takes s frames ls l op.level)
    (hRight : ∀ p, dict.Takes s (.operator l op p :: frames) rs r (op.level + 1))
    (hDemand : demand frames ≤ op.level) (hMake : ∀ p, dict.actions.operator op p l r s = .ok e s) :
    dict.Takes s frames (ls ++ .operator op :: rs) e op.level := by
  intro stmts head
  refine (hLeft stmts head).append fun c hFinishes p => ⟨_, ?_, (hRight p stmts head).mono
    fun d hFinishes' token pos hEnds hStrength => ?_⟩
  · rw [hFinishes _ _ rfl (Nat.le_refl _), continueWith_operator hDemand]
    rfl
  · rw [hFinishes' token pos hEnds (Nat.le_succ_of_le hStrength),
      continueWith_endsOperator hStrength, bind_of_ok (hMake p)]

theorem Takes.ternary {cond yes no : Expr} {ys ns : List Lexeme}
    (hCondition : dict.Takes s frames ls cond 1)
    (hYes : ∀ p, dict.Takes s (.question cond p :: frames) ys yes 0)
    (hNo : ∀ p q, dict.Takes s (.colon cond yes p q :: frames) ns no 0)
    (hDemand : demand frames = 0)
    (hMake : ∀ p q, dict.actions.ternary p q cond yes no s = .ok e s) :
    dict.Takes s frames (ls ++ .question :: (ys ++ .colon :: ns)) e 0 := by
  intro stmts head
  refine (hCondition stmts head).append fun b hFinishes p => ⟨_, ?_, (hYes p stmts head).append
    fun c hFinishesYes q => ⟨_, ?_, (hNo p q stmts head).mono
      fun d hFinishesNo token pos hEnds hStrength => ?_⟩⟩
  · rw [hFinishes _ _ rfl (Nat.le_refl _), continueWith_question hDemand]
    rfl
  · exact hFinishesYes _ _ rfl (Nat.zero_le _)
  · rw [hFinishesNo token pos hEnds hStrength,
      continueWith_endsTernary (Nat.eq_zero_of_le_zero hStrength), bind_of_ok (hMake p q)]

theorem takes_name (hValue : ∀ p, dict.actions.name text p s = .ok e s) :
    dict.Takes s frames [.name text] e level := by
  refine fun stmts head p => ⟨⟨stmts, head, frames, .name text p⟩, rfl, fun token pos hEnds _ => ?_⟩
  have hProceed : (dict.actions.name text p >>=
        continueWith dict.actions stmts head token pos frames) s =
      continueWith dict.actions stmts head token pos frames e s := bind_of_ok (hValue p)
  -- what cannot follow the first name of a statement cannot follow it as an operand either
  cases token with
  | none =>
    rw [← hProceed]
    cases head <;> cases frames <;> rfl
  | some lexeme =>
    cases lexeme with
    | operator | question | semicolon =>
      rw [← hProceed]
      cases head <;> cases frames <;> rfl
    | closeParen | closeBracket | comma | colon =>
      cases head with
      | plain =>
        cases frames with
        | nil => rfl
        | cons frame rest =>
          rw [← hProceed]
          rfl
      | assign | ret =>
        rw [← hProceed]
        cases frames <;> rfl
    | _ => cases hEnds

/-! ## Lists -/

/-- A frame that collects a list up to a closing token. -/
structure Collects (dict : Dictionary) (close : Lexeme) (frame : List Expr → Frame Expr)
    (finished : List Expr → Focus Expr) : Prop where
  ends : Lexeme.endsOperand (some close) = true
  weak : Lexeme.strength (some close) = 0
  free (done : List Expr) (rest : List (Frame Expr)) : Frame.demand (frame done :: rest) = 0
  comma (statements : List Stmt) (head : Head) (position : Nat) (done : List Expr)
    (rest : List (Frame Expr)) (e : Expr) :
    Config.continueWith dict.actions statements head (some .comma) position (frame done :: rest) e =
      pure (.next ⟨statements, head, frame (done ++ [e]) :: rest, .operand⟩)
  closing (statements : List Stmt) (head : Head) (position : Nat) (done : List Expr)
    (rest : List (Frame Expr)) (e : Expr) :
    Config.continueWith dict.actions statements head (some close) position (frame done :: rest) e =
      pure (.next ⟨statements, head, rest, finished (done ++ [e])⟩)

theorem collects_vector (p : Nat) : Collects dict .closeBracket (.vector p) (.vector p) :=
  ⟨rfl, rfl, fun _ _ => rfl, fun _ _ _ _ _ _ => rfl, fun _ _ _ _ _ _ => rfl⟩

theorem collects_call (name : String) (p : Nat) :
    Collects dict .closeParen (.call name p) (.call name p) :=
  ⟨rfl, rfl, fun _ _ => rfl, fun _ _ _ _ _ _ => rfl, fun _ _ _ _ _ _ => rfl⟩

theorem Collects.passes {close : Lexeme} {frame : List Expr → Frame Expr}
    {finished : List Expr → Focus Expr} (h : Collects dict close frame finished)
    {P : Config Expr Stmt → Prop} (rest : List Expr) (hRest : ∀ x ∈ rest, ∀ frames,
      demand frames = 0 → dict.Takes s frames (x.placed extra 0 (x.lexemes names extra)) x 0) :
    ∀ {done : List Expr} {e : Expr} {c : Config Expr Stmt},
    dict.Finishes s stmts head (frame done :: frames) e 0 c →
    P ⟨stmts, head, frames, finished (done ++ e :: rest)⟩ →
    Passes dict.actions s P (lexemesBehind names extra rest ++ [close]) c := by
  induction rest with
  | nil =>
    refine fun hFinishes hP p => ⟨_, ?_, hP⟩
    rw [hFinishes _ _ h.ends (Nat.le_of_eq h.weak), h.closing]
    rfl
  | cons x rest ih =>
    intro done e c hFinishes hP
    rw [lexemesBehind, List.cons_append, List.append_assoc]
    refine fun p => ⟨_, ?_, (hRest x List.mem_cons_self (frame (done ++ [e]) :: frames)
      (h.free _ _) stmts head).append fun d hNext => ih
        (fun y hy => hRest y (List.mem_cons_of_mem x hy)) hNext ?_⟩
    · rw [hFinishes _ _ rfl (Nat.zero_le _), h.comma]
      rfl
    · rw [List.append_assoc]
      exact hP

theorem Takes.opened {name : String} (h : dict.Takes s (.call name p args :: frames) ls e 0)
    (stmts : List Stmt) (head : Head) : Passes dict.actions s
      (dict.Finishes s stmts head (.call name p args :: frames) e 0) ls
      ⟨stmts, head, .call name p args :: frames, .opened⟩ := by
  cases ls with
  | nil => exact nomatch h stmts head (some .comma) 0 rfl (Nat.le_refl _)
  | cons lexeme rest =>
    intro pos
    obtain ⟨b, hStep, h⟩ := h stmts head pos
    refine ⟨b, ?_, h⟩
    cases lexeme with
    | closeParen => cases hStep
    | _ => exact hStep

/-! ## What the actions make -/

theorem requireSingle_ok {sign : String} (h : ∀ x ∈ es, x.width = 1) :
    dict.requireSingle sign p es s = .ok () s := by
  induction es with
  | nil => rfl
  | cons x rest ih =>
    obtain ⟨hFirst, hRest⟩ := List.forall_mem_cons.mp h
    unfold requireSingle
    rw [if_neg (not_not_intro hFirst)]
    exact ih hRest

theorem negate_ok (hWidth : e.width = 1) (hOther : ∀ vs, e ≠ .constant vs) :
    dict.actions.negate p e s = .ok (.negate e) s := by
  dsimp only [actions]
  rw [bind_of_ok (requireSingle_ok (List.forall_mem_singleton.mpr hWidth))]
  split
  · exact absurd rfl (hOther _)
  · rfl

theorem not_ok (hWidth : e.width = 1) : dict.actions.not p e s = .ok (.not e) s := by
  dsimp only [actions]
  rw [bind_of_ok (requireSingle_ok (List.forall_mem_singleton.mpr hWidth))]
  rfl

theorem operands_ok {sign : String} (hLeft : l.width = 1) (hRight : r.width = 1) :
    dict.requireSingle sign p [l, r] s = .ok () s := requireSingle_ok (by simp [hLeft, hRight])

theorem ternary_ok {cond yes no : Expr} {q : Nat} (hWidth : cond.width = 1)
    (hSame : yes.width = no.width) :
    dict.actions.ternary p q cond yes no s = .ok (.ternary cond yes no) s := by
  dsimp only [actions]
  rw [bind_of_ok (requireSingle_ok (List.forall_mem_singleton.mpr hWidth)),
    if_neg (not_not_intro hSame)]
  rfl

theorem vector_ok (h : ∀ x ∈ es, x.width = 1) :
    dict.actions.vector p es s = .ok (.vector es) s := by
  dsimp only [actions]
  rw [bind_of_ok (requireSingle_ok h)]
  rfl

theorem name_ok {name rest : String} {index : Nat} (hName : canonicalName text = name)
    (hParts : nameParts name = ("c", rest)) (hRest : rest ≠ "")
    (hIndex : lastOf? dict.setting.context rest = some index) :
    dict.actions.name text p s = .ok (.localRead index name) s := by
  dsimp only [actions]
  unfold Dictionary.name
  simp only [hName, hParts]
  rw [if_neg (by simp), if_neg (by simp), if_pos ⟨trivial, hRest⟩, hIndex]
  rfl

theorem checkArguments_ok {start stop : Nat} (h : ∀ x ∈ args, x.width = 1) :
    Query.checkArguments dict.setting args args.length start stop s = .ok () s := by
  have hAny : args.any (fun x => x.width != 1) = false := by
    rw [List.any_eq_false]
    intro x hx
    simp [h x hx]
  unfold Query.checkArguments
  simp only [ne_eq, not_true_eq_false, if_false, hAny, Bool.false_eq_true]
  rfl

theorem call_ok {f : String} {width : Int}
    (hQuery : Query.find? dict.queries (canonicalName text) =
      some (.host f args.length width)) (h : ∀ x ∈ args, x.width = 1) :
    dict.actions.call text p args s = .ok (.hostCall f args width) s := by
  dsimp only [actions]
  unfold call
  simp only [hQuery, Query.expand, bind_assoc]
  rw [bind_of_ok (checkArguments_ok h)]
  rfl

/-! ## Trees -/

theorem takes_placed {least : Nat} (hDemand : demand frames ≤ least)
    (h : ∀ frames, demand frames ≤ e.level → dict.Takes s frames ls e e.level) :
    dict.Takes s frames (e.placed extra least ls) e least := by
  unfold placed
  split
  · exact .group ((h (.group :: frames) (Nat.zero_le _)).mono (Nat.zero_le _))
  · rename_i hBare
    have hLevel : least ≤ e.level := by
      by_contra hLt
      exact hBare (.inl (Nat.lt_of_not_le hLt))
    exact (h frames (Nat.le_trans hDemand hLevel)).mono hLevel

theorem width_of_allPrintable :
    ∀ {es : List Expr}, AllPrintable dict names es → ∀ x ∈ es, x.width = 1
  | [], _ => List.forall_mem_nil _
  | _ :: _, h => List.forall_mem_cons.mpr ⟨h.2.1, width_of_allPrintable h.2.2⟩

theorem takes_constant {x : Float} (hx : single x = x) :
    dict.Takes s frames (lexemes names extra (.constant [x])) (.constant [x]) level := by
  unfold lexemes
  split
  · have hNeg : single (-x) = -x := (single_neg x).trans (congrArg (- ·) hx)
    refine .signed .negate (fun p => takes_number hNeg)
      (fun _ _ => rfl) fun p stmts head token pos => ?_
    have hMake : dict.actions.negate p (.constant [-x]) s = .ok (.constant [x]) s := by
      show EStateM.Result.ok (constant [single (- -x)]) s = _
      rw [neg_neg_eq, hx]
    exact bind_of_ok hMake
  · exact takes_number hx

theorem takes_operator {rs : List Lexeme}
    (hLeft : ∀ frames, demand frames ≤ l.level → dict.Takes s frames ls l l.level)
    (hRight : ∀ frames, demand frames ≤ r.level → dict.Takes s frames rs r r.level)
    (hDemand : demand frames ≤ op.tier) (hMake : ∀ p, dict.actions.operator op p l r s = .ok e s) :
    dict.Takes s frames
      (l.placed extra op.tier ls ++ .operator op :: r.placed extra (op.tier + 1) rs) e op.tier := by
  rw [Operator.tier_eq_level] at hDemand ⊢
  exact .operator (takes_placed hDemand hLeft)
    (fun _ => takes_placed (Nat.le_refl (op.level + 1)) hRight) hDemand hMake

theorem Takes.called (h : ∀ p stmts head, Passes dict.actions s
      (· = ⟨stmts, head, frames, .call text p args⟩) ls
      ⟨stmts, head, .call text p [] :: frames, .opened⟩)
    (hMake : ∀ p, dict.actions.call text p args s = .ok e s) :
    dict.Takes s frames (.name text :: .openParen :: ls) e level := by
  refine fun stmts head p => ⟨⟨stmts, head, frames, .name text p⟩, rfl, fun _ => ⟨_, rfl,
    (h p stmts head).mono ?_⟩⟩
  rintro _ rfl
  exact finishes_of_value _ (hMake p) fun token pos hEnds => if_pos hEnds

section

variable {names : Spelling} {extra : Expr → Bool}

theorem takes_vector (hSome : es ≠ []) (hWidth : ∀ x ∈ es, x.width = 1)
    (h : ∀ x ∈ es, ∀ frames, demand frames = 0 →
      dict.Takes s frames (x.placed extra 0 (x.lexemes names extra)) x 0) :
    dict.Takes s frames (lexemes names extra (.vector es)) (.vector es) level := by
  cases es with
  | nil => exact absurd rfl hSome
  | cons first rest =>
    refine fun stmts head p => ⟨_, rfl, (h first List.mem_cons_self (.vector p [] :: frames) rfl
      stmts head).append fun c hFinishes => (collects_vector p).passes rest
        (fun x hx => h x (List.mem_cons_of_mem first hx)) hFinishes ?_⟩
    exact finishes_of_value _ (vector_ok hWidth) fun token pos hEnds => if_pos hEnds

theorem takes_call {f : String} {width : Int}
    (hQuery : Query.find? dict.queries (canonicalName (names.call f args.length width)) =
      some (.host f args.length width)) (hWidth : ∀ x ∈ args, x.width = 1)
    (h : ∀ x ∈ args, ∀ frames, demand frames = 0 →
      dict.Takes s frames (x.placed extra 0 (x.lexemes names extra)) x 0) :
    dict.Takes s frames (lexemes names extra (.hostCall f args width))
      (.hostCall f args width) level := by
  cases args with
  | nil => exact .called (fun _ _ _ _ => ⟨_, rfl, rfl⟩) fun p => call_ok hQuery hWidth
  | cons first rest =>
    refine .called (fun p stmts head => ?_) fun p => call_ok hQuery hWidth
    refine ((h first List.mem_cons_self (.call _ p [] :: frames) rfl).opened stmts head).append
      fun c hFinishes => ?_
    exact (collects_call _ p).passes rest (fun x hx => h x (List.mem_cons_of_mem first hx))
      hFinishes rfl

end

mutual

/-- **An expression is read** inside frames that leave it whole, and the machine goes on behind
it. -/
theorem takes_lexemes (names : Spelling) (extra : Expr → Bool) : ∀ (e : Expr),
    e.Printable dict names → ∀ frames, demand frames ≤ e.level →
      dict.Takes s frames (e.lexemes names extra) e e.level
  | .constant vs, h, frames, _ => by
    obtain ⟨x, rfl, hx⟩ := h
    exact takes_constant hx
  | .localRead index name, h, frames, _ => by
    obtain ⟨hName, rest, hParts, hRest, hIndex⟩ := h
    exact takes_name fun p => name_ok hName hParts hRest hIndex
  | .negate e, ⟨hE, hWidth, hOther⟩, frames, _ => by
    have hOperand (p : Nat) : dict.Takes s (.negate p :: frames)
        (e.placed extra signLevel (e.lexemes names extra)) e signLevel :=
      takes_placed (Nat.le_refl _) (takes_lexemes names extra e hE)
    exact Takes.signed .negate hOperand (fun _ _ => rfl)
      fun p _ _ _ _ => bind_of_ok (negate_ok hWidth hOther)
  | .not e, ⟨hE, hWidth⟩, frames, _ => by
    have hOperand (p : Nat) : dict.Takes s (.not p :: frames)
        (e.placed extra signLevel (e.lexemes names extra)) e signLevel :=
      takes_placed (Nat.le_refl _) (takes_lexemes names extra e hE)
    exact Takes.signed .not hOperand (fun _ _ => rfl) fun p _ _ _ _ => bind_of_ok (not_ok hWidth)
  | .binary op l r, ⟨hL, hLeft, hR, hRight⟩, frames, hDemand
  | .logical op l r, ⟨hL, hLeft, hR, hRight⟩, frames, hDemand => by
    refine takes_operator (takes_lexemes names extra l hL) (takes_lexemes names extra r hR)
      hDemand fun p => ?_
    dsimp only [actions]
    rw [bind_of_ok (operands_ok hLeft hRight)]
    rfl
  | .ternary cond yes no, ⟨hC, hWidth, hY, hN, hSame⟩, frames, hDemand => by
    refine Takes.ternary (takes_placed (Nat.le_trans hDemand (Nat.zero_le 1))
      (takes_lexemes names extra cond hC)) (fun p => ?_) (fun p q => ?_)
      (Nat.eq_zero_of_le_zero hDemand) fun p q => ternary_ok hWidth hSame
    · exact takes_placed (Nat.le_refl 0) (takes_lexemes names extra yes hY)
    · exact takes_placed (Nat.le_refl 0) (takes_lexemes names extra no hN)
  | .vector es, ⟨hSome, hAll⟩, frames, _ =>
    takes_vector hSome (width_of_allPrintable hAll) (takes_each names extra es hAll)
  | .hostCall f args width, ⟨hAll, hQuery⟩, frames, _ =>
    takes_call hQuery (width_of_allPrintable hAll) (takes_each names extra args hAll)
  | .variableRead _, h, _, _ | .helperCall _ _, h, _, _ | .bind _ _ _, h, _, _
  | .sequence _ _, h, _, _ => h.elim

theorem takes_each (names : Spelling) (extra : Expr → Bool) : ∀ (es : List Expr),
    AllPrintable dict names es → ∀ x ∈ es, ∀ frames, demand frames = 0 →
      dict.Takes s frames (x.placed extra 0 (x.lexemes names extra)) x 0
  | [], _ => List.forall_mem_nil _
  | e :: rest, h => List.forall_mem_cons.mpr
      ⟨fun _ hFree => takes_placed (Nat.le_of_eq hFree) (takes_lexemes names extra e h.1),
        takes_each names extra rest h.2.2⟩

end

end Dictionary

/-- **Printed expressions are read back.**  Whatever parentheses are put besides those that are
needed — none (`extra` is false everywhere), all (`extra` is true everywhere) or some — the tokens
of a printable expression are accepted and give exactly that expression, and nothing is declared on
the way.  So does every source that consists of these tokens. -/
theorem printed_expressions_are_read_back (dict : Dictionary) (names : Spelling) (e : Expr)
    (h : e.Printable dict names) (extra : Expr → Bool) (s : Scope) :
    (∀ (tokens : List Token) (stop : Nat), tokens.map Token.lexeme = e.printed names extra →
      Config.start.drive dict.actions stop 0 tokens s = .ok (.accepted e) s) ∧
    (dict.setting.source.toList.all isBlank = false →
      (scan 1 dict.setting.source).stop = .finished →
      (scan 1 dict.setting.source).tokens.map Token.lexeme = e.printed names extra →
      dict.readSource s = .ok e s) := by
  have hDrive (tokens : List Token) (stop : Nat)
      (hTokens : tokens.map Token.lexeme = e.printed names extra) :
      Config.start.drive dict.actions stop 0 tokens s = .ok (.accepted e) s := by
    have hTakes : dict.Takes s [] (e.printed names extra) e 0 :=
      Dictionary.takes_placed (Nat.le_refl 0) (Dictionary.takes_lexemes names extra e h)
    rw [← hTokens] at hTakes
    exact ((hTakes [] .plain).mono fun d hFinishes =>
      hFinishes none stop rfl (Nat.le_refl 0)).drive_accepted 0
  refine ⟨hDrive, fun hText hStop hTokens => ?_⟩
  rw [dict.readSource_eq_drive hText hStop, bind_of_ok (hDrive _ _ hTokens)]
  rfl

/-- One context value and one host function of one argument. -/
def Dictionary.oneOfEach : Dictionary where
  setting := Setting.of "" ["context.x"] []
  queries := [("q.f", .host "f" 1 1)]
  actor := []

/-- Context values by their canonical names, and one query for all host functions. -/
def Spelling.plain : Spelling := ⟨fun _ name => name, fun _ _ _ => "query.f"⟩

def Expr.nestedChoice : Expr :=
  let x := localRead 0 "c.x"
  .ternary (.binary .lt x (.constant [-1])) (.negate (.binary .mul x (.constant [2])))
    (.binary .sub x (.binary .sub (.hostCall "f" [x] 1) x))

/-- The product behind a sign and the difference on the right are put in parentheses, the negative
number and the parts of the ternary are not. -/
theorem nested_choice_is_read_back :
    Expr.nestedChoice.Printable .oneOfEach .plain ∧
    Config.start.drive Dictionary.oneOfEach.actions 0 0 ([.name "c.x", .operator (.binary .lt),
        .operator (.binary .sub), .number 1, .question, .operator (.binary .sub), .openParen,
        .name "c.x", .operator (.binary .mul), .number 2, .closeParen, .colon, .name "c.x",
        .operator (.binary .sub), .openParen, .name "query.f", .openParen, .name "c.x",
        .closeParen, .operator (.binary .sub), .name "c.x", .closeParen].map
          fun l => ⟨l, 0, 1⟩) (Scope.start ⟨⟨none, [], []⟩, none, Namespace.empty⟩) =
      .ok (.accepted .nestedChoice) (Scope.start ⟨⟨none, [], []⟩, none, Namespace.empty⟩) := by
  have hOne : single (-1) = -1 := by decide +kernel
  have hTwo : single 2 = 2 := by decide +kernel
  have hNegative : isNegative (-1) = true := by decide +kernel
  have hPositive : isNegative 2 = false := by decide +kernel
  have hSign : (- -1 : Float) = 1 := by decide +kernel
  have hQuery : canonicalName (canonicalName "query.f") = "q.f" := by decide +kernel
  have hX : (Expr.localRead 0 "c.x").Printable .oneOfEach .plain :=
    ⟨by decide +kernel, "x", by decide +kernel, by decide, by decide +kernel⟩
  have hCall : (Expr.hostCall "f" [.localRead 0 "c.x"] 1).Printable .oneOfEach .plain := by
    refine ⟨⟨hX, rfl, trivial⟩, ?_⟩
    simp [Query.find?, Spelling.plain, Dictionary.oneOfEach, hQuery]
  have hPrintable : Expr.nestedChoice.Printable .oneOfEach .plain :=
    ⟨⟨hX, rfl, ⟨-1, rfl, hOne⟩, rfl⟩, rfl, ⟨⟨hX, rfl, ⟨2, rfl, hTwo⟩, rfl⟩, rfl, nofun⟩,
      ⟨hX, rfl, ⟨hCall, rfl, hX, rfl⟩, rfl⟩, rfl⟩
  refine ⟨hPrintable,
    (printed_expressions_are_read_back _ _ _ hPrintable (fun _ => false) _).1 _ 0 ?_⟩
  simp [Expr.nestedChoice, Expr.printed, Expr.lexemes, Expr.placed, Expr.level, Expr.lexemesBehind,
    Expr.signLevel, Operator.tiers, Operator.tier_eq_level, Operator.level, Spelling.plain,
    hNegative, hPositive, hSign]

end MolangCompiler
