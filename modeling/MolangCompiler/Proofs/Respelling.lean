import MolangCompiler.Proofs.Resolving
import MolangCompiler.Proofs.Scanning

/-!
# The same tokens in another source

The same tokens may stand in two sources, at other positions, and with names that are spelled
differently but have the same canonical form.  Positions and spellings only show in messages.  So a
source is read like its bare tokens, which have no places and one spelling for each name
(`Dictionary.readTokens_bare`), but for what failures quote (`Reading.hushed`).

An expression may be a source of its own, or stand on the right of an assignment.  The machine
behind the equals sign remembers the target until the end, and otherwise does the same as the other
one, with two exceptions.  A semicolon would end the assignment but not the source, so there must be
none.  And a name that makes up a whole statement so far is resolved a token later, if the token
behind it cannot stand there anyway; the assignment fails then, and nothing is claimed.
-/

namespace MolangCompiler

open Template Reading

/-! ## Failures without quotes -/

/-- The kind of a problem, whatever it quotes. -/
def SourceProblem.kind : SourceProblem → SourceProblem
  | .illegalCharacter _ => .emptySource
  | .unexpected text => .unexpected (canonicalName text)
  | .argumentCount _ arity given => .argumentCount "" arity given
  | .argumentWidth _ => .argumentWidth ""
  | problem => problem

/-- A failure without its place in the source. -/
def Failure.kind : Failure → Failure
  | .source e => .source ⟨e.problem.kind, "", 0, 0⟩
  | f => f

namespace Reading

variable {α β : Type}

/-- The same operation, except that a failure only says what kind it is of. -/
def hushed (x : Reading α) : Reading α := fun s =>
  match x s with
  | .ok a s' => .ok a s'
  | .error f s' => .error f.kind s'

theorem hushed_eq_ok {x : Reading α} {s s' : Scope} {a : α} :
    x.hushed s = .ok a s' ↔ x s = .ok a s' := by
  unfold hushed
  cases x s <;> simp

@[simp] theorem hushed_pure (a : α) : hushed (pure a) = pure a := rfl

@[simp] theorem hushed_bind (x : Reading α) (f : α → Reading β) :
    hushed (x >>= f) = x.hushed >>= fun a => (f a).hushed := by
  funext s
  cases hx : x s with
  | ok a s' => rw [bind_of_ok (hushed_eq_ok.mpr hx), hushed, bind_of_ok hx]; rfl
  | error f s' =>
    have hHushed : x.hushed s = .error f.kind s' := by rw [hushed, hx]
    rw [bind_of_error hHushed, hushed, bind_of_error hx]

@[simp] theorem hushed_map (f : α → β) (x : Reading α) : hushed (f <$> x) = f <$> x.hushed := by
  rw [← bind_pure_comp, hushed_bind, ← bind_pure_comp]
  rfl

@[simp] theorem hushed_ite (p : Prop) [Decidable p] (x y : Reading α) :
    hushed (if p then x else y) = if p then x.hushed else y.hushed := apply_ite hushed p x y

@[simp] theorem hushed_fail (st : Setting) (problem : SourceProblem) (start stop : Nat) :
    hushed (fail st problem start stop : Reading α) = throw (.source ⟨problem.kind, "", 0, 0⟩) :=
      rfl

end Reading

/-! ## Bare tokens -/

/-- The spelling that stands for all spellings of a name. -/
noncomputable def oneSpelling (text : String) : String :=
  Function.invFun canonicalName (canonicalName text)

@[simp] theorem canonicalName_oneSpelling (text : String) :
    canonicalName (oneSpelling text) = canonicalName text := Function.invFun_eq ⟨text, rfl⟩

@[simp] def Lexeme.rename (f : String → String) : Lexeme → Lexeme
  | .name text => .name (f text)
  | l => l

noncomputable abbrev Lexeme.bare : Lexeme → Lexeme := rename oneSpelling

noncomputable def Token.bare (t : Token) : Token := ⟨t.lexeme.bare, 0, 0⟩

section

variable {E S : Type}

noncomputable def Frame.bare : Frame E → Frame E
  | .negate _ => .negate 0
  | .not _ => .not 0
  | .group => .group
  | .operator left op _ => .operator left op 0
  | .question condition _ => .question condition 0
  | .colon condition yes _ _ => .colon condition yes 0 0
  | .vector _ elements => .vector 0 elements
  | .call text _ args => .call (oneSpelling text) 0 args

noncomputable def Head.bare : Head → Head
  | .plain => .plain
  | .assign text _ => .assign (oneSpelling text) 0
  | .ret _ => .ret 0

noncomputable def Focus.bare : Focus E → Focus E
  | .name text _ => .name (oneSpelling text) 0
  | .vector _ elements => .vector 0 elements
  | .call text _ args => .call (oneSpelling text) 0 args
  | focus => focus

noncomputable def Config.bare (c : Config E S) : Config E S :=
  ⟨c.statements, c.head.bare, c.frames.map Frame.bare, c.focus.bare⟩

noncomputable def Progress.bare : Progress E S → Progress E S
  | .next c => .next c.bare
  | progress => progress

/-- **Actions do the same** at other places and for other spellings. -/
structure Actions.Bares (acts acts' : Actions Reading E S) : Prop where
  number (x : Float) : (acts.number x).hushed = (acts'.number x).hushed
  name (text : String) (p : Nat) : (acts.name text p).hushed =
    (acts'.name (oneSpelling text) 0).hushed
  call (text : String) (p : Nat) (args : List E) :
    (acts.call text p args).hushed = (acts'.call (oneSpelling text) 0 args).hushed
  negate (p : Nat) (e : E) : (acts.negate p e).hushed = (acts'.negate 0 e).hushed
  not (p : Nat) (e : E) : (acts.not p e).hushed = (acts'.not 0 e).hushed
  operator (op : Operator) (p : Nat) (l r : E) :
    (acts.operator op p l r).hushed = (acts'.operator op 0 l r).hushed
  ternary (p q : Nat) (condition yes no : E) :
    (acts.ternary p q condition yes no).hushed = (acts'.ternary 0 0 condition yes no).hushed
  vector (p : Nat) (es : List E) : (acts.vector p es).hushed = (acts'.vector 0 es).hushed
  discard (e : E) : (acts.discard e).hushed = (acts'.discard e).hushed
  assign (text : String) (p : Nat) (e : E) :
    (acts.assign text p e).hushed = (acts'.assign (oneSpelling text) 0 e).hushed
  ret (p : Nat) (e : E) : (acts.ret p e).hushed = (acts'.ret 0 e).hushed
  sequence (statements : List S) : (acts.sequence statements).hushed =
    (acts'.sequence statements).hushed

namespace Config

variable {acts acts' : Actions Reading E S} (h : acts.Bares acts')
include h

theorem endStatement_bare (head : Head) (e : E) :
    (endStatement acts head e).hushed = (endStatement acts' head.bare e).hushed := by
  cases head with
  | plain => exact h.discard e
  | assign text p => exact h.assign text p e
  | ret p => exact h.ret p e

theorem endProgram_bare (statements : List S) (head : Head) (e : E) :
    (endProgram acts statements head e).hushed =
      (endProgram acts' statements head.bare e).hushed := by
  cases statements <;> cases head <;>
    simp [endProgram, endStatement, Head.bare, h.discard, h.assign, h.ret, h.sequence]

theorem continueWith_bare (statements : List S) (head : Head) (token : Option Lexeme) (p : Nat)
    (frames : List (Frame E)) (e : E) :
    Progress.bare <$> (continueWith acts statements head token p frames e).hushed =
      (continueWith acts' statements head.bare (token.map Lexeme.bare) 0 (frames.map Frame.bare)
        e).hushed := by
  induction frames generalizing e with
  | nil =>
    rcases token with _ | (_ | _ | _ | _ | _ | _ | _ | _ | _ | _ | _ | _ | _ | _) <;>
      simp [continueWith, continueWith.wait, endStatement_bare h, endProgram_bare h,
        Progress.bare, bare, Focus.bare, Frame.bare, show Head.plain.bare = .plain from rfl]
  | cons frame rest ih =>
    cases frame <;>
      rcases token with _ | (_ | _ | _ | _ | _ | _ | _ | _ | _ | _ | _ | _ | _ | _) <;>
      simp [continueWith, continueWith.wait, continueWith.finish, Frame.bare, ih,
        h.negate, h.not, h.operator, h.ternary, Progress.bare, bare, Focus.bare]
    split <;> simp [Progress.bare, ih, bare, Focus.bare, Frame.bare]

omit h in
@[simp] theorem atStart_bare (c : Config E S) : c.bare.atStart = c.atStart := by
  obtain ⟨_, head, frames, focus⟩ := c
  cases head <;> cases frames <;> cases focus <;> rfl

omit h in
theorem beginOperand_bare (c : Config E S) (token : Lexeme) (p : Nat) :
    (c.beginOperand token p).bare = c.bare.beginOperand token.bare 0 := by
  cases token with
  | operator op =>
    rcases op with op | op
    · cases op <;> rfl
    · rfl
  | ret =>
    simp only [beginOperand, Lexeme.rename, atStart_bare]
    split <;> rfl
  | _ => rfl

theorem step_bare (c : Config E S) (token : Option Lexeme) (p : Nat) :
    Progress.bare <$> (c.step acts token p).hushed =
      (c.bare.step acts' (token.map Lexeme.bare) 0).hushed := by
  obtain ⟨statements, head, frames, focus⟩ := c
  have hEnds : Lexeme.endsOperand (token.map Lexeme.bare) = Lexeme.endsOperand token := by
    rcases token with _ | (_ | _) <;> rfl
  have hStart (t : Lexeme) := congrArg (pure (f := Reading))
    (beginOperand_bare ⟨statements, head, frames, .operand⟩ t p)
  cases focus with
  | operand =>
    cases token with
    | none =>
      cases head <;> cases frames <;> cases statements <;>
        simp [step, bare, Head.bare, Focus.bare, atStart, Progress.bare, h.sequence]
    | some t => exact hStart t
  | opened =>
    cases token with
    | none => rfl
    | some t =>
      cases t with
      | closeParen => rcases frames with _ | ⟨_ | _ | _ | _ | _ | _ | _ | _, _⟩ <;> rfl
      | _ => exact hStart _
  | name text q =>
    rcases token with _ | (_ | _ | _ | _ | _ | _ | _ | _ | _ | _ | _ | _ | _ | _) <;>
      cases head <;> cases frames <;>
      simp [step, bare, Focus.bare, Head.bare, Lexeme.endsOperand,
        Lexeme.endsStatementName, Progress.bare, Frame.bare, h.name, continueWith_bare h]
  | number | group | vector | call =>
    simp only [step, bare, Focus.bare, hEnds]
    split <;> simp [Progress.bare, continueWith_bare h, h.number, h.vector, h.call]

end Config

end

/-! ## Sources without tokens -/

instance (stop : ScanEnd) : Decidable (stop = .finished) :=
  match stop with
  | .finished => .isTrue rfl
  | .illegal _ _ => .isFalse ScanEnd.noConfusion

section

variable {c : Char} {source : String}

private theorem nextLexeme?_of_blank (h : isBlank c = true) (rest : List Char) :
    nextLexeme? (c :: rest) = none := by
  obtain ⟨r, hr, hBounds⟩ := List.any_eq_true.mp h
  have hMem : c.toNat ∈ blankRanges.flatMap fun r => List.range' r.1 (r.2 + 1 - r.1) :=
    List.mem_flatMap.mpr ⟨r, hr, List.mem_range'_1.mpr (by simp at hBounds; omega)⟩
  have hAll : ∀ n ∈ blankRanges.flatMap fun r => List.range' r.1 (r.2 + 1 - r.1),
      isDigit (Char.ofNat n) = false ∧ isNameStart (Char.ofNat n) = false := by decide
  obtain ⟨hDigit, hStart⟩ := hAll _ hMem
  rw [Char.ofNat_toNat] at hDigit hStart
  have hPoint : c ≠ '.' := by
    rintro rfl
    exact absurd h (by decide)
  have hName : nameLength false (c :: rest) = 0 := by
    unfold nameLength
    simp [hStart]
  unfold nextLexeme?
  rw [number?_eq_none hDigit hPoint, hName]
  show mark? (c :: rest) = none
  unfold mark?
  split
  all_goals first | rfl | simp_all +decide

private theorem tokens_eq_nil_of_blank (h : source.toList.all isBlank = true) :
    (scan 1 source).tokens = [] := by
  refine List.eq_nil_iff_forall_not_mem.mpr fun t ht => ?_
  obtain ⟨n, hNext⟩ := nextLexeme?_of_mem_scan ht
  cases hRest : source.toList.drop t.start with
  | nil =>
    rw [hRest] at hNext
    cases hNext
  | cons c rest =>
    have hc : c ∈ source.toList := List.mem_of_mem_drop (hRest ▸ List.mem_cons_self)
    rw [hRest, nextLexeme?_of_blank (List.all_eq_true.mp h c hc)] at hNext
    cases hNext

private theorem blank_of_tokens_eq_nil (h : (scan 1 source).tokens = [])
    (hStop : (scan 1 source).stop = .finished) : source.toList.all isBlank = true := by
  obtain ⟨spans, stop, hSpans, -⟩ := scanFrom_partition source.toList 0 1 (Nat.zero_le _)
  have hNone : spans = [] := List.map_eq_nil_iff.mp (hSpans.tokens.trans h)
  have hEnd := hSpans.ended
  rw [show scanFrom 0 1 0 (source.toList.drop 0) = scan 1 source from rfl, hStop] at hEnd
  refine List.all_eq_true.mpr fun c hc => ?_
  obtain ⟨i, hi⟩ := List.mem_iff_getElem?.mp hc
  obtain ⟨d, hd, hGap⟩ := hSpans.gaps i (Nat.zero_le i)
    (hEnd ▸ (List.getElem?_eq_some_iff.mp hi).1) (by simp [hNone])
  obtain rfl : c = d := Option.some.inj (hi.symm.trans hd)
  unfold isGap at hGap
  simp only [Bool.or_eq_true, beq_iff_eq] at hGap
  rcases hGap with ((rfl | rfl) | rfl) | rfl <;> decide

end

/-! ## Actions -/

def Dictionary.respelled (dict : Dictionary) (source : String) : Dictionary :=
  { dict with setting := { dict.setting with source := source } }

section

variable (st : Setting) (source : String) (args : List Expr) (actor : List (String × Float))

mutual

theorem Template.build_respelled : ∀ t : Template,
    t.build ⟨{ st with source := source }, args, actor⟩ = t.build ⟨st, args, actor⟩
  | .constant _ | .variableRead _ _ | .argument _ | .actor _ | .foreign _ => by rw [build, build]
  | .localRead _ _ | .temp _ => by rw [build, build]; rfl
  | .negate t | .not t | .discard t | .ret t | .assignVariable _ _ t => by
    rw [build, build, build_respelled t]
  | .assignLocal _ t => by rw [build, build, build_respelled t]; rfl
  | .binary _ l r | .logical _ l r => by rw [build, build, build_respelled l, build_respelled r]
  | .bind _ l r => by rw [build, build, build_respelled l, build_respelled r]; rfl
  | .ternary c y n => by
    rw [build, build, build_respelled c, build_respelled y, build_respelled n]
  | .vector ts | .helperCall _ ts | .hostCall _ ts _ | .sequence ts _ => by
    rw [build, build, buildAll_respelled ts]

theorem Template.buildAll_respelled : ∀ ts : List Template,
    buildAll ⟨{ st with source := source }, args, actor⟩ ts = buildAll ⟨st, args, actor⟩ ts
  | [] => by rw [buildAll, buildAll]
  | t :: rest => by
    rw [buildAll, buildAll, build_respelled t, buildAll_respelled rest]

end

end

namespace Dictionary

variable (dict : Dictionary) (source : String)

theorem requireSingle_hushed (sign : String) (p q : Nat) (es : List Expr) :
    (dict.requireSingle sign p es).hushed =
      ((dict.respelled source).requireSingle sign q es).hushed := by
  induction es with
  | nil => rfl
  | cons e rest ih =>
    unfold requireSingle
    simp [ih]

theorem checkArguments_hushed (args : List Expr) (arity p stop q stop' : Nat) :
    (Query.checkArguments dict.setting args arity p stop).hushed =
      (Query.checkArguments (dict.respelled source).setting args arity q stop').hushed := by
  unfold Query.checkArguments
  simp [SourceProblem.kind]

theorem expand_hushed (query : Query) (args : List Expr) (p stop q stop' : Nat) :
    (query.expand dict.setting dict.actor args p stop).hushed =
      (query.expand (dict.respelled source).setting dict.actor args q stop').hushed := by
  have hCheck (arity : Nat) := checkArguments_hushed dict source args arity p stop q stop'
  cases query with
  | template arity report tree =>
    have hTree : tree.expand ⟨dict.setting, args, dict.actor⟩ =
        tree.expand ⟨(dict.respelled source).setting, args, dict.actor⟩ := by
      unfold expand
      rw [← tree.build_respelled dict.setting source args dict.actor]
      rfl
    cases arity <;> cases report <;> simp [Query.expand, hCheck, hTree]
  | lerp =>
    have hLocal : freshLocal (dict.respelled source).setting = freshLocal dict.setting := rfl
    simp [Query.expand, hCheck, hLocal]
  | _ => simp [Query.expand, hCheck]

theorem call_hushed {a b : String} (h : canonicalName a = canonicalName b) (p q : Nat)
    (args : List Expr) :
    (dict.call a p args).hushed = ((dict.respelled source).call b q args).hushed := by
  unfold call
  dsimp only [respelled]
  rw [h]
  cases Query.find? dict.queries (canonicalName b) with
  | none => rfl
  | some query =>
    rw [hushed_bind, hushed_bind, expand_hushed dict source query args _ _ q (q + b.length)]
    rfl

theorem name_hushed {a b : String} (h : canonicalName a = canonicalName b) (p q : Nat) :
    (dict.name a p).hushed = ((dict.respelled source).name b q).hushed := by
  have hConstants : (dict.respelled source).setting.constants = dict.setting.constants := rfl
  have hQueries : (dict.respelled source).queries = dict.queries := rfl
  unfold name
  dsimp only
  rw [h, hConstants, hQueries]
  split
  · rfl
  · split
    · rfl
    · split
      · dsimp only [respelled]
        split <;> rfl
      · split
        · rfl
        · rfl
        · split
          · exact call_hushed dict source rfl _ _ _
          · rfl

theorem assign_hushed {a b : String} (h : canonicalName a = canonicalName b) (p q : Nat)
    (e : Expr) : (dict.assign a p e).hushed = ((dict.respelled source).assign b q e).hushed := by
  unfold assign
  dsimp only [respelled]
  rw [h]
  split
  · unfold assignVariable
    rw [hushed_bind, hushed_bind]
    refine bind_congr fun found => ?_
    cases found <;> simp
  · split
    · simp
      rfl
    · rfl

theorem ret_hushed (p q : Nat) (e : Expr) :
    (dict.ret p e).hushed = ((dict.respelled source).ret q e).hushed := by
  unfold ret
  rw [hushed_bind, hushed_bind]
  refine bind_congr fun s => ?_
  cases s.returnWidth <;> simp

theorem actions_bare : dict.actions.Bares (dict.respelled source).actions where
  number x := by exact rfl
  name text p := by
    dsimp only [actions]
    exact dict.name_hushed source (canonicalName_oneSpelling text).symm p 0
  call text p args := by
    dsimp only [actions]
    exact dict.call_hushed source (canonicalName_oneSpelling text).symm p 0 args
  negate p e := by simp [actions, requireSingle_hushed dict source "-" p 0]
  not p e := by simp [actions, requireSingle_hushed dict source "!" p 0]
  operator op p l r := by simp [actions, requireSingle_hushed dict source op.symbol p 0]
  ternary p q c y n := by simp [actions, requireSingle_hushed dict source "?" p 0]
  vector p es := by simp [actions, requireSingle_hushed dict source "[" p 0]
  discard e := by exact rfl
  assign text p e := by
    dsimp only [actions]
    exact dict.assign_hushed source (canonicalName_oneSpelling text).symm p 0 e
  ret p e := by
    dsimp only [actions]
    exact dict.ret_hushed source p 0 e
  sequence statements := by exact rfl

/-- **Tokens are read like bare ones.** -/
theorem readTokens_bare (c : Config Expr Stmt) (tokens : List Token) :
    Config.bare <$> (dict.readTokens c tokens).hushed =
      ((dict.respelled source).readTokens c.bare (tokens.map Token.bare)).hushed := by
  induction tokens generalizing c with
  | nil => rfl
  | cons t rest ih =>
    have hText : canonicalName t.lexeme.text = canonicalName t.lexeme.bare.text := by
      cases t.lexeme with
      | name text => exact (canonicalName_oneSpelling text).symm
      | _ => rfl
    have hStep : ((c.bare).step (dict.respelled source).actions (some t.lexeme.bare) 0).hushed =
        Progress.bare <$> (c.step dict.actions (some t.lexeme) t.start).hushed :=
      (Config.step_bare (dict.actions_bare source) c (some t.lexeme) t.start).symm
    rw [List.map_cons, readTokens, readTokens, hushed_bind, hushed_bind, map_bind,
      Token.bare, hStep, bind_map_left]
    refine bind_congr fun progress => ?_
    cases progress with
    | next c' => exact ih c'
    | stuck | accepted =>
      show _ = throw (Failure.source ⟨.unexpected (canonicalName t.lexeme.bare.text), "", 0, 0⟩)
      rw [← hText]
      rfl

theorem finish_bare (c : Config Expr Stmt) :
    (dict.finish c).hushed = ((dict.respelled "").finish c.bare).hushed := by
  have hStep : ((c.bare).step (dict.respelled "").actions none 0).hushed =
      Progress.bare <$> (c.step dict.actions none dict.setting.source.length).hushed :=
    (Config.step_bare (dict.actions_bare "") c none _).symm
  unfold finish
  show _ = hushed ((c.bare).step (dict.respelled "").actions none 0 >>= _)
  rw [hushed_bind, hushed_bind, hStep, bind_map_left]
  refine bind_congr fun progress => ?_
  cases progress <;> rfl

/-- **A source is read like its bare tokens.**  If it has none, or goes on with a character that no
token starts with, this is reported in the end. -/
theorem readSource_bare : dict.readSource.hushed = ((dict.respelled "").readTokens Config.start
      ((scan 1 dict.setting.source).tokens.map Token.bare) >>= fun c =>
        if (scan 1 dict.setting.source).tokens ≠ [] ∧ (scan 1 dict.setting.source).stop = .finished
        then (dict.respelled "").finish c
        else throw (.source ⟨.emptySource, "", 0, 0⟩)).hushed := by
  have hTokens := dict.readTokens_bare "" Config.start (scan 1 dict.setting.source).tokens
  have hStart : ((dict.respelled "").readTokens Config.start
      ((scan 1 dict.setting.source).tokens.map Token.bare)).hushed =
      Config.bare <$> (dict.readTokens Config.start (scan 1 dict.setting.source).tokens).hushed :=
    hTokens.symm
  rw [hushed_bind, hStart, bind_map_left]
  unfold readSource
  dsimp only
  split
  · rename_i hBlank
    rw [tokens_eq_nil_of_blank hBlank]
    rfl
  · rename_i hText
    rw [hushed_bind]
    refine bind_congr fun c => ?_
    cases hStop : (scan 1 dict.setting.source).stop with
    | illegal ch p => simp [SourceProblem.kind]; rfl
    | finished =>
      rw [if_pos ⟨fun hNone => hText (blank_of_tokens_eq_nil hNone hStop), rfl⟩]
      exact dict.finish_bare c

end Dictionary

/-! ## Assignments -/

namespace Config

variable {E S : Type} {acts : Actions Reading E S} {text : String} {place : Nat}

/-- What the machine behind an equals sign does, the other one does too: it goes on in the same way,
or it accepts the expression that the first one assigns.  If the first one is stuck nothing is
said. -/
def Echoed (acts : Actions Reading E S) (text : String) (place : Nat)
    (x y : Reading (Progress E S)) : Prop :=
  ∀ ⦃s progress s'⦄, x s = .ok progress s' → match progress with
    | .stuck => True
    | .next c => ∃ frames focus, c = ⟨[], .assign text place, frames, focus⟩ ∧
        y s = .ok (.next ⟨[], .plain, frames, focus⟩) s'
    | .accepted program => ∃ e s₁, y s = .ok (.accepted e) s₁ ∧
        endProgram acts [] (.assign text place) e s₁ = .ok program s'

namespace Echoed

theorem stuck (y : Reading (Progress E S)) : Echoed acts text place (pure .stuck) y := by
  intro s progress s' hRun
  cases hRun
  trivial

theorem next (frames : List (Frame E)) (focus : Focus E) :
    Echoed acts text place (pure (.next ⟨[], .assign text place, frames, focus⟩))
      (pure (.next ⟨[], .plain, frames, focus⟩)) := by
  intro s progress s' hRun
  cases hRun
  exact ⟨frames, focus, rfl, rfl⟩

theorem bind {α : Type} {x : Reading α} {f g : α → Reading (Progress E S)}
    (hNext : ∀ a, Echoed acts text place (f a) (g a)) :
    Echoed acts text place (x >>= f) (x >>= g) := by
  intro s progress s'' hRun
  obtain ⟨a, s', hx, hSecond⟩ := bind_eq_ok.mp hRun
  rw [bind_of_ok hx]
  exact hNext a hSecond

end Echoed

theorem continueWith_echoes {token : Option Lexeme} (hToken : token ≠ some .semicolon) (p : Nat)
    (frames : List (Frame E)) : ∀ e : E,
    Echoed acts text place (continueWith acts [] (.assign text place) token p frames e)
      (continueWith acts [] .plain token p frames e) := by
  induction frames with
  | nil =>
    intro e
    unfold continueWith
    split
    any_goals exact .next _ _
    · exact absurd rfl hToken
    · intro s progress s' hRun
      obtain ⟨program, s₁, hProgram, hLast⟩ := bind_eq_ok.mp hRun
      cases hLast
      exact ⟨e, s, rfl, hProgram⟩
    · exact .stuck _
  | cons frame rest ih =>
    intro e
    unfold continueWith
    split
    any_goals exact .bind ih
    any_goals exact .next _ _
    · split
      · exact .next _ _
      · exact .bind ih
    · exact .stuck _

/-- **One token** of the right-hand side is read in the same way behind the equals sign, unless it
is a semicolon. -/
theorem step_echoes {token : Option Lexeme} (hToken : token ≠ some .semicolon) (p : Nat)
    (frames : List (Frame E)) (focus : Focus E) :
    Echoed acts text place (step acts ⟨[], .assign text place, frames, focus⟩ token p)
      (step acts ⟨[], .plain, frames, focus⟩ token p) := by
  have hBegin (t : Lexeme) : Echoed acts text place
      (pure (beginOperand ⟨[], .assign text place, frames, .operand⟩ t p))
      (pure (beginOperand ⟨[], .plain, frames, .operand⟩ t p)) := by
    unfold beginOperand
    split
    any_goals exact .next _ _
    all_goals exact .stuck _
  have hOperand (x : Reading E) : Echoed acts text place
      (if Lexeme.endsOperand token then
        x >>= continueWith acts [] (.assign text place) token p frames else pure .stuck)
      (if Lexeme.endsOperand token then
        x >>= continueWith acts [] .plain token p frames else pure .stuck) := by
    split
    · exact .bind (continueWith_echoes hToken p frames)
    · exact .stuck _
  cases focus with
  | operand =>
    cases token with
    | none => exact .stuck _
    | some t => exact hBegin t
  | opened =>
    unfold step
    dsimp only
    split
    · exact .next _ _
    · exact hBegin _
    · exact .stuck _
  | name word q =>
    cases token with
    | none => cases frames <;> exact hOperand (acts.name word q)
    | some t =>
      cases t with
      | openParen => exact .next _ _
      | operator | question | semicolon => cases frames <;> exact hOperand (acts.name word q)
      | closeParen | closeBracket | comma | colon =>
        cases frames with
        | cons => exact hOperand (acts.name word q)
        | nil =>
          -- the name is resolved before the token turns out to be out of place
          intro s progress s' hRun
          obtain ⟨e, s₁, -, hLast⟩ := bind_eq_ok.mp hRun
          cases hLast
          trivial
      | _ => exact .stuck _
  | number | group | vector | call => exact hOperand _

end Config

namespace Dictionary

/-- **A whole expression** is read in the same way behind the equals sign: what is assigned in the
end is what the expression stands for. -/
theorem readTokens_echoes {dict : Dictionary} {text : String} {place : Nat} {tokens : List Token}
    (hOne : ∀ t ∈ tokens, t.lexeme ≠ .semicolon) {s s' : Scope} {program : Expr} :
    ∀ {frames : List (Frame Expr)} {focus : Focus Expr},
      (dict.readTokens ⟨[], .assign text place, frames, focus⟩ tokens >>= dict.finish) s =
        .ok program s' →
      ∃ e s₁, (dict.readTokens ⟨[], .plain, frames, focus⟩ tokens >>= dict.finish) s = .ok e s₁ ∧
        Config.endProgram dict.actions [] (.assign text place) e s₁ = .ok program s' := by
  induction tokens generalizing s with
  | nil =>
    intro frames focus hRead
    obtain ⟨progress, s₁, hStep, hEnd⟩ := bind_eq_ok.mp
      (show dict.finish ⟨[], .assign text place, frames, focus⟩ s = .ok program s' from hRead)
    have hEchoed := Config.step_echoes (by nofun) _ frames focus hStep
    cases progress with
    | stuck | next => cases hEnd
    | accepted program' =>
      cases hEnd
      obtain ⟨e, s₁, hOther, hProgram⟩ := hEchoed
      exact ⟨e, s₁, (bind_of_ok hOther : dict.finish _ s = .ok e s₁), hProgram⟩
  | cons t rest ih =>
    intro frames focus hRead
    obtain ⟨hToken, hRest⟩ := List.forall_mem_cons.mp hOne
    rw [readTokens, bind_assoc] at hRead
    obtain ⟨progress, s₁, hStep, hEnd⟩ := bind_eq_ok.mp hRead
    have hEchoed := Config.step_echoes (by simpa using hToken) _ frames focus hStep
    cases progress with
    | stuck | accepted => cases hEnd
    | next c =>
      obtain ⟨frames', focus', rfl, hOther⟩ := hEchoed
      rw [readTokens, bind_assoc, bind_of_ok hOther]
      exact ih hRest hEnd

/-- **An assignment is read like its right-hand side.**  If the assignment is read, then its
right-hand side is read as a source of its own from the same scope, and the tree is what is
assigned. -/
theorem readSource_of_assignment {dict : Dictionary} {n e : String} (hTail : IsNameTail n)
    (hLower : IsLowerCase n) (hOne : ';' ∉ e.toList)
    (hSource : dict.setting.source = "v." ++ n ++ " = " ++ e)
    (hText : e.toList.all isBlank = false) (hFinished : (scan 1 e).stop = .finished) {s s' : Scope}
    {program : Expr} (h : dict.readSource s = .ok program s') :
    ∃ value s₁ t, (dict.respelled e).readSource s = .ok value s₁ ∧
      dict.assign ("v." ++ n) 0 value s₁ = .ok t s' ∧ program = .sequence [t] s'.resultWidth := by
  have hEnd := (text_of_readSource h).2
  obtain ⟨place, tokens, hTokens, hLexemes⟩ := scan_assignment hTail hLower 1 e
  have hBare : (scan 1 e).tokens.map Token.bare = tokens.map Token.bare := by
    have hSame := congrArg (List.map fun l : Lexeme => (⟨l.bare, 0, 0⟩ : Token)) hLexemes
    rwa [List.map_map, List.map_map] at hSame
  have hOthers : ∀ t ∈ tokens.map Token.bare, t.lexeme ≠ .semicolon := by
    rw [← hBare]
    intro t ht hSemicolon
    obtain ⟨u, hu, rfl⟩ := List.mem_map.mp ht
    refine hOne (semicolon_mem_of_scan hu ?_)
    revert hSemicolon
    cases hl : u.lexeme <;> simp [Token.bare, hl]
  have hRead (d : Dictionary) (hSome : (scan 1 d.setting.source).tokens ≠ [])
      (hEnd : (scan 1 d.setting.source).stop = .finished) :
      d.readSource.hushed = ((d.respelled "").readTokens Config.start
        ((scan 1 d.setting.source).tokens.map Token.bare) >>= (d.respelled "").finish).hushed := by
    rw [d.readSource_bare]
    simp only [if_pos (And.intro hSome hEnd)]
  have hSome : (scan 1 dict.setting.source).tokens ≠ [] := by simp [hSource, hTokens]
  have hSome' : (scan 1 e).tokens ≠ [] := fun hNone =>
    Bool.eq_false_iff.mp hText (blank_of_tokens_eq_nil hNone hFinished)
  rw [← hushed_eq_ok, hRead dict hSome hEnd, hushed_eq_ok, hSource, hTokens] at h
  -- two tokens later the machine waits for the right-hand side
  obtain ⟨value, s₁, hValue, hProgram⟩ := readTokens_echoes hOthers
    (show ((dict.respelled "").readTokens ⟨[], .assign (oneSpelling ("v." ++ n)) 0, [], .operand⟩
      (tokens.map Token.bare) >>= (dict.respelled "").finish) s = .ok program s' from h)
  unfold Config.endProgram Config.endStatement at hProgram
  dsimp only [actions] at hProgram
  obtain ⟨t, s₂, hAssign, hSequence⟩ := bind_eq_ok.mp hProgram
  cases hSequence
  refine ⟨value, s₁, t, ?_, ?_, rfl⟩
  · rw [← hushed_eq_ok, hRead (dict.respelled e) hSome' hFinished, hushed_eq_ok]
    show ((dict.respelled "").readTokens _ ((scan 1 e).tokens.map Token.bare) >>= _) s = _
    rw [hBare]
    exact hValue
  · rw [← hushed_eq_ok, dict.assign_hushed "" (canonicalName_oneSpelling _).symm 0 0 value,
      hushed_eq_ok]
    exact hAssign

end Dictionary

end MolangCompiler
