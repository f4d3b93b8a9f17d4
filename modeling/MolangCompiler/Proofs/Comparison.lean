import MolangCompiler.Proofs.Parsing

/-!
# Comparing readings

The same source is read twice: with a ledger and without one, or again after the first reading has
made its variables.  A `Comparison` is a relation between operations that is kept by sequencing; it
also says what later operations may rely on.

The machine that reads a source only sequences its actions, so it is enough to compare the actions
(`Setting.readWith_compared`), and a dictionary only sequences a few operations of its scope
(`Dictionary.readSource_compared`).
-/

namespace MolangCompiler

/-- A way to compare operations on two kinds of states.  `rel p x y` relates `x` to `y` and says
that their result is as `p` says. -/
structure Comparison (σ τ : Type) where
  rel : {α : Type} → (α → Prop) → Act σ α → Act τ α → Prop
  pure {α : Type} {p : α → Prop} {a : α} : p a → rel p (Pure.pure a) (Pure.pure a)
  bind {α β : Type} {p : α → Prop} {q : β → Prop} {x : Act σ α} {y : Act τ α} {f : α → Act σ β}
    {g : α → Act τ β} : rel p x y → (∀ a, p a → rel q (f a) (g a)) → rel q (x >>= f) (y >>= g)
  throw {α : Type} {p : α → Prop} (e : Failure) :
    rel p (MonadExcept.throw e : Act σ α) (MonadExcept.throw e)

namespace Comparison

variable {σ τ α : Type}

abbrev Like (c : Comparison σ τ) (x : Act σ α) (y : Act τ α) : Prop := c.rel (fun _ => True) x y

theorem Like.bind {c : Comparison σ τ} {β : Type} {q : β → Prop} {x : Act σ α} {y : Act τ α}
    {f : α → Act σ β} {g : α → Act τ β} (h : c.Like x y) (hNext : ∀ a, c.rel q (f a) (g a)) :
    c.rel q (x >>= f) (y >>= g) :=
  Comparison.bind c h fun a _ => hNext a

/-! ## States with a second part -/

section

variable {ρ ρ' ε : Type}

/-- A state that consists of a main part and a second one. -/
structure Parts (ρ σ ε : Type) where
  main : ρ → σ
  second : ρ → ε
  join : σ → ε → ρ
  join_parts (r : ρ) : join (main r) (second r) = r
  main_join (s : σ) (e : ε) : main (join s e) = s
  second_join (s : σ) (e : ε) : second (join s e) = e

/-- An operation on both parts, as one on the main part that returns the second one too. -/
def Parts.expose (k : Parts ρ σ ε) (act : Act ρ α) (e : ε) : Act σ (α × ε) := fun s =>
  match act (k.join s e) with
  | .ok a r => .ok (a, k.second r) (k.main r)
  | .error f r => .error f (k.main r)

namespace Parts

variable (k : Parts ρ σ ε)

theorem expose_of_ok {act : Act ρ α} {s : σ} {e : ε} {a : α} {r : ρ}
    (h : act (k.join s e) = .ok a r) : k.expose act e s = .ok (a, k.second r) (k.main r) := by
  unfold expose
  rw [h]

theorem expose_of_error {act : Act ρ α} {s : σ} {e : ε} {f : Failure} {r : ρ}
    (h : act (k.join s e) = .error f r) : k.expose act e s = .error f (k.main r) := by
  unfold expose
  rw [h]

theorem expose_pure (a : α) (e : ε) : k.expose (Pure.pure a) e = Pure.pure (a, e) := by
  funext s
  rw [k.expose_of_ok (rfl : (Pure.pure a : Act ρ α) (k.join s e) = .ok a (k.join s e)),
    k.second_join, k.main_join]
  rfl

theorem expose_throw (f : Failure) (e : ε) :
    k.expose (MonadExcept.throw f : Act ρ α) e = MonadExcept.throw f := by
  funext s
  rw [k.expose_of_error
    (rfl : (MonadExcept.throw f : Act ρ α) (k.join s e) = .error f (k.join s e)), k.main_join]
  rfl

theorem expose_bind {β : Type} (act : Act ρ α) (next : α → Act ρ β) (e : ε) :
    k.expose (act >>= next) e = k.expose act e >>= fun r => k.expose (next r.1) r.2 := by
  funext s
  cases hAct : act (k.join s e) with
  | ok a r =>
    rw [bind_of_ok (k.expose_of_ok hAct)]
    unfold expose
    rw [bind_of_ok hAct, k.join_parts]
  | error f r =>
    rw [bind_of_error (k.expose_of_error hAct)]
    exact k.expose_of_error (bind_of_error hAct)

end Parts

/-- Operations on states with a second part are compared by their main parts; the second parts are
the same. -/
def beside (c : Comparison σ τ) (k : Parts ρ σ ε) (k' : Parts ρ' τ ε) : Comparison ρ ρ' where
  rel p x y := ∀ e, c.rel (fun r => p r.1) (k.expose x e) (k'.expose y e)
  pure h e := by
    rw [k.expose_pure, k'.expose_pure]
    exact c.pure h
  bind h hNext e := by
    rw [k.expose_bind, k'.expose_bind]
    exact c.bind (h e) fun r hr => hNext r.1 hr r.2
  throw f e := by
    rw [k.expose_throw, k'.expose_throw]
    exact c.throw f

theorem Parts.expose_onPart (k : Parts ρ σ ε) (act : Act σ α) (e : ε) :
    k.expose (onPart k.main (fun s r => k.join s (k.second r)) act) e =
      act >>= fun a => Pure.pure (a, e) := by
  funext s
  have hMain := k.main_join s e
  have hSecond (s' : σ) : k.second (k.join s' (k.second (k.join s e))) = e := by
    rw [k.second_join, k.second_join]
  cases hRun : act s with
  | ok a s' =>
    rw [bind_of_ok hRun, k.expose_of_ok (onPart_of_ok (hMain.symm ▸ hRun)), hSecond, k.main_join]
    rfl
  | error f s' =>
    rw [bind_of_error hRun, k.expose_of_error (onPart_of_error (hMain.symm ▸ hRun)), k.main_join]

theorem beside_onPart {c : Comparison σ τ} {k : Parts ρ σ ε} {k' : Parts ρ' τ ε} {act : Act σ α}
    {act' : Act τ α} (h : c.Like act act') :
    (c.beside k k').Like (onPart k.main (fun s r => k.join s (k.second r)) act)
      (onPart k'.main (fun s r => k'.join s (k'.second r)) act') := by
  intro e
  rw [k.expose_onPart, k'.expose_onPart]
  exact h.bind fun a => c.pure trivial

end

end Comparison

/-! ## Comparing readings -/

def Lexeme.Named (N : String → Prop) : Lexeme → Prop
  | .name text => N text
  | _ => True

/-- A comparison as a view of readings in which names are spelled as `N` says. -/
def Comparison.view {σ τ E S : Type} (c : Comparison σ τ) (N : String → Prop) :
    View σ τ Unit E S where
  rel p x y _ := c.rel (fun a => p a ()) x y
  pure h := c.pure h
  bind h hNext := c.bind h fun a ha => hNext a () ha
  later _ _ := True
  refl _ := trivial
  fits _ _ := True
  mono _ _ := trivial
  stands l _ := l.Named N
  pending _ _ _ _ := True
  whole _ _ _ := True
  whole_of_fits _ _ := trivial
  fails _ := True
  fails_of_pending _ := trivial
  fails_of_whole _ := trivial

section

variable {σ τ E S : Type} {c : Comparison σ τ} {N : String → Prop}

/-- Actions on two kinds of states that correspond, for names that are spelled as `N` says. -/
abbrev Actions.Compared (c : Comparison σ τ) (N : String → Prop) (acts : Actions (Act σ) E S)
    (acts' : Actions (Act τ) E S) : Prop := acts.Viewed (c.view N) acts'

theorem Comparison.Like.post {α : Type} {x : Act σ α} {y : Act τ α} (h : c.Like x y)
    {p : α → Prop} (hp : ∀ a, p a) : c.rel p x y := by
  rw [← bind_pure x, ← bind_pure y]
  exact h.bind fun a => c.pure (hp a)

theorem Comparison.Like.makes {x : Act σ E} {y : Act τ E} (h : c.Like x y) {M : Multiset Site}
    {K : List E} {l : List S} : (c.view N).Makes M K l () x y :=
  h.post fun _ => ⟨trivial, trivial, trivial⟩

theorem Comparison.Like.finishes {x : Act σ S} {y : Act τ S} (h : c.Like x y) {M : Multiset Site}
    {l : List S} : (c.view N : View σ τ Unit E S).Finishes M l () x y := h.post fun _ => trivial

/-- **Reading a source** with corresponding actions. -/
theorem Setting.readWith_compared {acts : Actions (Act σ) E S} {acts' : Actions (Act τ) E S}
    (h : acts.Compared c N acts') {st : Setting}
    (hTokens : ∀ t ∈ (scan 1 st.source).tokens, t.lexeme.Named N) :
    c.Like (st.readWith acts) (st.readWith acts') := by
  have hEnd := st.readWith_viewed h (fun _ _ => c.throw _) hTokens (w := ()) trivial
  rw [← bind_pure (st.readWith acts), ← bind_pure (st.readWith acts')]
  exact c.bind hEnd fun e _ => c.pure trivial

end

/-! ## Operations that have nothing to do with variables -/

namespace Reading

variable {α β : Type}

/-- An operation that neither looks at the namespace nor changes it. -/
def Aside (x : Reading α) : Prop := ∀ (s : Scope) (t : Tenant),
  x { s with tenant := t } = match x s with
    | .ok a s' => .ok a { s' with tenant := t }
    | .error e s' => .error e { s' with tenant := t }

namespace Aside

theorem pure (a : α) : Aside (Pure.pure a) := fun _ _ => rfl

theorem throw (e : Failure) : Aside (MonadExcept.throw e : Reading α) := fun _ _ => rfl

theorem fail (st : Setting) (problem : SourceProblem) (start stop : Nat) :
    Aside (fail st problem start stop : Reading α) := fun _ _ => rfl

variable {x : Reading α}

theorem bind_of {f : α → Reading β} (hx : Aside x)
    (hf : ∀ s a s', x s = .ok a s' → Aside (f a)) : Aside (x >>= f) := by
  intro s t
  have hFirst := hx s t
  cases hRun : x s with
  | ok a s' =>
    rw [hRun] at hFirst
    rw [bind_of_ok hFirst, bind_of_ok hRun]
    exact hf s a s' hRun s' t
  | error e s' =>
    rw [hRun] at hFirst
    rw [bind_of_error hFirst, bind_of_error hRun]

theorem bind {f : α → Reading β} (hx : Aside x) (hf : ∀ a, Aside (f a)) : Aside (x >>= f) :=
  hx.bind_of fun _ a _ _ => hf a

theorem tenant_eq (h : Aside x) {s s' : Scope} {a : α} (hRun : x s = .ok a s') :
    s'.tenant = s.tenant := by
  have hSame : x s = _ := h s s.tenant
  rw [hRun] at hSame
  have hTenant := congrArg Scope.tenant (EStateM.Result.ok.inj hSame).2
  exact hTenant

theorem tenant_eq_of_error (h : Aside x) {s s' : Scope} {e : Failure} (hRun : x s = .error e s') :
    s'.tenant = s.tenant := by
  have hSame : x s = _ := h s s.tenant
  rw [hRun] at hSame
  have hTenant := congrArg Scope.tenant (EStateM.Result.error.inj hSame).2
  exact hTenant

theorem ofTree (result : Except TreeProblem α) : Aside (Reading.ofTree result) := by
  cases result with
  | ok a => exact pure a
  | error problem => exact throw _

theorem freshLocal (st : Setting) : Aside (Reading.freshLocal st) := fun _ _ => rfl

theorem tempLocal (st : Setting) (name : String) : Aside (Reading.tempLocal st name) := by
  intro s t
  unfold Reading.tempLocal
  rw [get_bind, get_bind]
  cases s.temps.find? (·.1 == name) with
  | some | none => rfl

theorem requireSingle (dict : Dictionary) (sign : String) (pos : Nat) (es : List Expr) :
    Aside (dict.requireSingle sign pos es) := by
  induction es with
  | nil => exact pure ()
  | cons e rest ih =>
    unfold Dictionary.requireSingle
    extract_lets others
    split
    · exact bind (fail _ _ _ _) fun _ => ih
    · exact ih

theorem checkArguments (st : Setting) (args : List Expr) (arity start stop : Nat) :
    Aside (Query.checkArguments st args arity start stop) := by
  unfold Query.checkArguments
  extract_lets name widths
  have hWidths : Aside (widths ⟨⟩) := by
    show Aside (if args.any (·.width != 1) then _ else _)
    split
    · exact fail _ _ _ _
    · exact pure _
  split
  · exact bind (fail _ _ _ _) fun _ => hWidths
  · exact hWidths

theorem helperExpr (name : String) (args : List Expr) : Aside (Query.helperExpr name args) := by
  unfold Query.helperExpr
  split
  · exact pure _
  · exact throw _

theorem expand {query : Query} (hPlain : query.Direct)
    (st : Setting) (actor : List (String × Float)) (args : List Expr) (start stop : Nat) :
    Aside (query.expand st actor args start stop) := by
  have hCheck (arity : Nat) {next : Unit → Reading Node} (hNext : ∀ u, Aside (next u)) :
      Aside (Query.checkArguments st args arity start stop >>= next) :=
    bind (checkArguments st args arity start stop) hNext
  cases query with
  | helper name arity => exact hCheck arity fun _ => bind (helperExpr name args) fun _ => pure _
  | constant values => exact hCheck 0 fun _ => bind (ofTree _) fun _ => pure _
  | host function arity width => exact hCheck arity fun _ => pure _
  | clamp => exact hCheck 3 fun _ => pure _
  | lerp => exact hCheck 3 fun _ => bind (freshLocal st) fun _ => pure _
  | template arity report tree => exact absurd rfl (hPlain arity report tree)

end Aside

end Reading

/-- A comparison in which operations that have nothing to do with variables correspond to
themselves. -/
def Comparison.CoversAside (c : Comparison Scope Scope) : Prop :=
  ∀ {α : Type} {x : Reading α}, Reading.Aside x → c.Like x x

/-! ## Dictionaries -/

/-- Dictionaries with the same setting whose names, assignments and calls correspond. -/
structure Dictionary.Compared (c : Comparison Scope Scope) (N : String → Prop)
    (dict dict' : Dictionary) : Prop where
  aside : c.CoversAside
  setting : dict'.setting = dict.setting
  name {text : String} (hText : N text) (p : Nat) : c.Like (dict.name text p) (dict'.name text p)
  assign {text : String} (hText : N text) (p : Nat) (value : Expr) :
    c.Like (dict.assign text p value) (dict'.assign text p value)
  call {text : String} (hText : N text) (p : Nat) (args : List Expr) :
    c.Like (dict.call text p args) (dict'.call text p args)

namespace Dictionary

open Reading

variable {c : Comparison Scope Scope} {N : String → Prop} {dict dict' : Dictionary}

theorem requireSingle_eq (h : dict'.setting = dict.setting) (sign : String) (pos : Nat)
    (es : List Expr) : dict'.requireSingle sign pos es = dict.requireSingle sign pos es := by
  induction es with
  | nil => rfl
  | cons e rest ih =>
    unfold requireSingle
    rw [h, ih]

theorem ret_aside (dict : Dictionary) (pos : Nat) (value : Expr) : Aside (dict.ret pos value) := by
  rintro ⟨tenant, temps, locals, width⟩ t
  cases width with
  | none => rfl
  | some earlier =>
    unfold ret
    rw [get_bind, get_bind]
    dsimp only
    by_cases hWidth : earlier ≠ value.width
    · rw [if_pos hWidth]
      rfl
    · rw [if_neg hWidth]
      rfl

theorem sequence_aside (dict : Dictionary) (stmts : List Stmt) :
    Aside (dict.actions.sequence stmts) := fun _ _ => rfl

/-- The actions of a dictionary on another kind of state, with ways of its own to deal with names,
calls and assignments. -/
def actionsOn {σ : Type} (dict : Dictionary) (lift : {α : Type} → Reading α → Act σ α)
    (name : String → Nat → Act σ Expr) (call : String → Nat → List Expr → Act σ Expr)
    (assign : String → Nat → Expr → Act σ Stmt) : Actions (Act σ) Expr Stmt where
  number value := lift (dict.actions.number value)
  name := name
  call := call
  negate position e := lift (dict.actions.negate position e)
  not position e := lift (dict.actions.not position e)
  operator op position left right := lift (dict.actions.operator op position left right)
  ternary question colon condition yes no :=
    lift (dict.actions.ternary question colon condition yes no)
  vector position elements := lift (dict.actions.vector position elements)
  discard e := lift (dict.actions.discard e)
  assign := assign
  ret position value := lift (dict.ret position value)
  sequence statements := lift (dict.actions.sequence statements)

/-- The other actions look at the setting only. -/
theorem actions_eq_on (h : dict'.setting = dict.setting) :
    dict'.actions = dict.actionsOn id dict'.name dict'.call dict'.assign := by
  have hRet : dict'.ret = dict.ret := by
    funext pos value
    unfold ret
    rw [h]
  simp only [actions, actionsOn, id, requireSingle_eq h, hRet, h]

/-- **Actions correspond** if those for names, calls and assignments do. -/
theorem actionsOn_compared {σ τ : Type} {c : Comparison σ τ}
    {lift : {α : Type} → Reading α → Act σ α} {lift' : {α : Type} → Reading α → Act τ α}
    (hAside : ∀ {α : Type} {x : Reading α}, Aside x → c.Like (lift x) (lift' x))
    {name : String → Nat → Act σ Expr} {name' : String → Nat → Act τ Expr}
    (hName : ∀ text, N text → ∀ p, c.Like (name text p) (name' text p))
    {call : String → Nat → List Expr → Act σ Expr} {call' : String → Nat → List Expr → Act τ Expr}
    (hCall : ∀ text, N text → ∀ p args, c.Like (call text p args) (call' text p args))
    {assign : String → Nat → Expr → Act σ Stmt} {assign' : String → Nat → Expr → Act τ Stmt}
    (hAssign : ∀ text, N text → ∀ p value, c.Like (assign text p value) (assign' text p value)) :
    (dict.actionsOn lift name call assign).Compared c N
      (dict.actionsOn lift' name' call' assign') where
  number x _ _ _ _ _ := (hAside (show Aside (ofTree (Expr.constantOf [x])) from .ofTree _)).makes
  name hText _ := (hName _ hText _).makes
  call hText _ _ := (hCall _ hText _ _).makes
  negate _ _ _ := by
    refine (hAside (.bind (.requireSingle _ _ _ _) fun _ => ?_)).makes
    split
    · exact .ofTree _
    · exact .pure _
  not _ _ _ := (hAside (.bind (.requireSingle _ _ _ _) fun _ => .pure _)).makes
  operator {op _ _ _ _ _ _ _} _ _ _ _ := by
    refine (hAside (.bind (.requireSingle _ _ _ _) fun _ => ?_)).makes
    cases op with
    | binary | logical => exact .pure _
  ternary _ _ _ _ _ _ := by
    refine (hAside (.bind (.requireSingle _ _ _ _) fun _ => ?_)).makes
    split
    · exact .bind (.fail _ _ _ _) fun _ => .pure _
    · exact .pure _
  vector _ _ _ _ := (hAside (.bind (.requireSingle _ _ _ _) fun _ => .pure _)).makes
  discard _ _ := (hAside (.pure _)).finishes
  assign hText _ _ := (hAssign _ hText _ _).finishes
  ret _ _ _ := (hAside (ret_aside dict _ _)).finishes
  sequence _ := hAside (sequence_aside dict _)

/-- **Corresponding dictionaries** have corresponding actions. -/
theorem actions_compared (h : dict.Compared c N dict') :
    dict.actions.Compared c N dict'.actions := by
  rw [actions_eq_on h.setting, actions_eq_on (rfl : dict.setting = dict.setting)]
  exact actionsOn_compared h.aside (fun _ => h.name) (fun _ => h.call) fun _ => h.assign

/-- **Reading a source** with corresponding dictionaries. -/
theorem readSource_compared (h : dict.Compared c N dict')
    (hTokens : ∀ t ∈ (scan 1 dict.setting.source).tokens, t.lexeme.Named N) :
    c.Like dict.readSource dict'.readSource := by
  rw [Setting.readSource_eq_with, Setting.readSource_eq_with, h.setting]
  exact Setting.readWith_compared (actions_compared h) hTokens

end Dictionary

end MolangCompiler
