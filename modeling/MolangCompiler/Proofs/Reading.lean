import MolangCompiler.Proofs.Parsing
import MolangCompiler.Proofs.Places

/-!
# What reading a source makes

While a source is read its scope only grows: variables get places in the store, temps get locals
behind the context values, and the width of the first return is kept.  What is true of a tree when
it is made must stay true meanwhile.

`Dictionary.Forms`, `Dictionary.Closes` and `Dictionary.Fails` say once what an action of a
dictionary can do, and `Dictionary.Honours` what is to be shown of a view for it to follow them.
`TreeRules` lists what has to be shown of a property of trees, kind by kind of node, with all that
the reader has checked at that point.  A property that obeys the rules holds of every tree that is
read (`Dictionary.readSource_holds`).
-/

namespace MolangCompiler

open Scope

/-! ## Scopes -/

namespace Scope

/-- A scope whose temps have locals of their own, from `first` on, and whose returns have a width as
`wide` says. -/
structure Sound (first : Nat) (wide : Int → Prop) (s : Scope) : Prop where
  space : s.tenant.space.Sound
  temps : ∀ p ∈ s.temps, first ≤ p.2 ∧ p.2 < first + s.locals
  width : ∀ w, s.returnWidth = some w → wide w

/-- How a scope grows. -/
structure Extends (s s' : Scope) : Prop where
  space : s.tenant.space.Extends s'.tenant.space
  locals : s.locals ≤ s'.locals
  width : ∀ w, s.returnWidth = some w → s'.returnWidth = some w

theorem Extends.refl (s : Scope) : s.Extends s := ⟨.refl _, Nat.le_refl _, fun _ h => h⟩

theorem Extends.trans {s₁ s₂ s₃ : Scope} (h : s₁.Extends s₂) (h' : s₂.Extends s₃) : s₁.Extends s₃ :=
  ⟨h.space.trans h'.space, Nat.le_trans h.locals h'.locals, fun w hw => h'.width w (h.width w hw)⟩

theorem Sound.fresh {first : Nat} {wide : Int → Prop} {s : Scope} (h : s.Sound first wide) :
    { s with locals := s.locals + 1 }.Sound first wide :=
  ⟨h.space, fun p hp => ⟨(h.temps p hp).1, Nat.lt_succ_of_lt (h.temps p hp).2⟩, h.width⟩

theorem Extends.fresh (s : Scope) : s.Extends { s with locals := s.locals + 1 } :=
  ⟨.refl _, Nat.le_succ _, fun _ h => h⟩

def course (first : Nat) (wide : Int → Prop) : Course Scope where
  ok := Sound first wide
  le := Extends
  refl := .refl
  trans h h' := h.trans h'

end Scope

namespace Reading

variable {first : Nat} {wide : Int → Prop} {s : Scope} {st : Setting}

theorem freshLocal_stays : Stays (course first wide) (freshLocal st) s :=
  fun hOk => .ok ⟨hOk.fresh, .fresh s, trivial⟩

theorem obtainVariable_keeps (name : String) (size : Int) :
    Keeps (course first wide)
      (fun v s' => v ∈ s'.tenant.space.records ∧ v.size = size) (obtainVariable name size) s := by
  intro hOk
  refine onPart_ends (.mono (Tenant.obtain_keeps name size s.tenant hOk.space) ?_ ?_)
  · intro a t hEnd
    exact ⟨⟨hEnd.1, hOk.temps, hOk.width⟩, ⟨hEnd.2.1, Nat.le_refl _, fun _ h => h⟩, hEnd.2.2⟩
  · intro t hEnd
    exact ⟨⟨hEnd.1, hOk.temps, hOk.width⟩, ⟨hEnd.2, Nat.le_refl _, fun _ h => h⟩⟩

end Reading

theorem Expr.constantOf_eq_ok {vs : List Float} {e : Expr}
    (h : constantOf vs = .ok e) : ∃ xs, xs ≠ [] ∧ e = .constant xs := by
  unfold constantOf at h
  split at h
  · cases h
  · rename_i hSome
    cases h
    refine ⟨vs.map single, ?_, rfl⟩
    intro hNil
    exact hSome (by rw [List.map_eq_nil_iff.mp hNil]; rfl)

/-! ## Calls -/

/-- A failure that concerns no size of a variable and no number of context values, and if it
concerns a source, then as `P` says. -/
def Failure.Other (P : SourceError → Prop) : Failure → Prop
  | .source e => P e
  | .variableSize _ | .contextArity _ => False
  | _ => True

/-- Any problem may be reported from one place to another. -/
def Setting.Allows (st : Setting) (P : SourceError → Prop) (start stop : Nat) : Prop :=
  ∀ problem, P ⟨problem, st.source, start, stop⟩

theorem Setting.allows_any {st : Setting} {start stop : Nat} :
    st.Allows (fun _ => True) start stop := fun _ => trivial

namespace Query

/-- What a query that is no template makes of arguments that it accepts, and the scope then. -/
inductive Expands (first : Nat) (s : Scope) : Query → List Expr → Expr → Scope → Prop
  | helper {name : String} {h : Helper} {args : List Expr} (hName : Helper.ofName? name = some h) :
    Expands first s (.helper name args.length) args (.helperCall h args) s
  | constant {values xs : List Float} (hSome : xs ≠ []) :
    Expands first s (.constant values) [] (.constant xs) s
  | host {function : String} {width : Int} {args : List Expr} :
    Expands first s (.host function args.length width) args (.hostCall function args width) s
  | clamp {value low high : Expr} :
    Expands first s .clamp [value, low, high] (clampExpr [value, low, high]) s
  | lerp {a b t : Expr} : Expands first s .lerp [a, b, t] (lerpExpr (first + s.locals) [a, b, t])
      { s with locals := s.locals + 1 }

variable {first : Nat} {wide : Int → Prop} {s s' : Scope} {query : Query} {e : Expr} {st : Setting}
  {args : List Expr} {start stop : Nat} {P : SourceError → Prop}

theorem Expands.grows (h : query.Expands first s args e s') (hOk : s.Sound first wide) :
    s'.Sound first wide ∧ s.Extends s' := by
  cases h with
  | lerp => exact ⟨hOk.fresh, .fresh s⟩
  | helper | constant | host | clamp => exact ⟨hOk, .refl s⟩

/-- A call that passes the check has the right number of arguments, and each is a single value. -/
theorem checkArguments_concludes (hP : st.Allows P start stop) (arity : Nat) :
    Concludes (fun _ s' => s' = s ∧ args.length = arity ∧ ∀ e ∈ args, e.width = 1)
      (fun f s' => s' = s ∧ f.Other P) (checkArguments st args arity start stop s) := by
  unfold checkArguments
  split
  · exact .error ⟨rfl, hP _⟩
  · rename_i hCount
    dsimp only
    split
    · exact .error ⟨rfl, hP _⟩
    · rename_i hSingle
      refine .ok ⟨rfl, Decidable.not_not.mp hCount, fun e he => Decidable.byContradiction ?_⟩
      intro hWide
      exact hSingle (List.any_eq_true.mpr ⟨e, he, bne_iff_ne.mpr hWide⟩)

theorem expand_concludes (hPlain : query.Direct)
    (hP : st.Allows P start stop) (actor : List (String × Float)) :
    Concludes (fun node s' => ∃ e, node = .expr e ∧ (∀ a ∈ args, a.width = 1) ∧
        query.Expands st.firstLocal s args e s')
      (fun f s' => s' = s ∧ f.Other P) (query.expand st actor args start stop s) := by
  cases query with
  | helper name arity =>
    refine .bind (checkArguments_concludes hP arity) ?_
    rintro _ _ ⟨rfl, rfl, hSingle⟩
    unfold helperExpr
    cases hName : Helper.ofName? name with
    | some h => exact .ok ⟨_, rfl, hSingle, .helper hName⟩
    | none => exact .error ⟨rfl, trivial⟩
  | constant values =>
    refine .bind (checkArguments_concludes hP 0) ?_
    rintro _ _ ⟨rfl, hNone, hSingle⟩
    obtain rfl := List.length_eq_zero_iff.mp hNone
    cases hConstant : Expr.constantOf values with
    | error problem => exact .error ⟨rfl, trivial⟩
    | ok e =>
      obtain ⟨xs, hSome, rfl⟩ := Expr.constantOf_eq_ok hConstant
      exact .ok ⟨_, rfl, hSingle, .constant hSome⟩
  | host function arity width =>
    refine .bind (checkArguments_concludes hP arity) ?_
    rintro _ _ ⟨rfl, rfl, hSingle⟩
    exact .ok ⟨_, rfl, hSingle, .host⟩
  | clamp =>
    refine .bind (checkArguments_concludes hP 3) ?_
    rintro _ _ ⟨rfl, hThree, hSingle⟩
    obtain ⟨value, low, high, rfl⟩ := List.length_eq_three.mp hThree
    exact .ok ⟨_, rfl, hSingle, .clamp⟩
  | lerp =>
    refine .bind (checkArguments_concludes hP 3) ?_
    rintro _ _ ⟨rfl, hThree, hSingle⟩
    obtain ⟨a, b, t, rfl⟩ := List.length_eq_three.mp hThree
    exact .ok ⟨_, rfl, hSingle, .lerp⟩
  | template arity report tree => exact absurd rfl (hPlain arity report tree)

theorem expands_of_ok (hPlain : query.Direct)
    {actor : List (String × Float)} {node : Node}
    (h : query.expand st actor args start stop s = .ok node s') :
    ∃ e, node = .expr e ∧ (∀ a ∈ args, a.width = 1) ∧ query.Expands st.firstLocal s args e s' :=
  (expand_concludes hPlain Setting.allows_any actor).of_ok h

theorem expand_expands (hPlain : query.Direct)
    (hFirst : st.firstLocal = first) (actor : List (String × Float)) :
    Keeps (course first wide) (fun node s' => ∃ e, node = .expr e ∧ (∀ a ∈ args, a.width = 1) ∧
      query.Expands first s args e s') (query.expand st actor args start stop) s := by
  refine .of_concludes (expand_concludes hPlain Setting.allows_any actor) ?_
    fun _ _ hFailed => hFailed.1
  rintro hOk node s' ⟨e, hNode, hSingle, hExpands⟩
  rw [hFirst] at hExpands
  exact ⟨(hExpands.grows hOk).1, (hExpands.grows hOk).2, e, hNode, hSingle, hExpands⟩

end Query

/-! ## Names -/

/-- The name of the variable that a name in a source is about, if it is about one. -/
def variableName? (text : String) : Option String :=
  let parts := nameParts (canonicalName text)
  if parts.1 = "v" ∧ parts.2 ≠ "" then some parts.2 else none

variable {name : String} {index : Nat} {r : Request}

theorem variableName?_eq_some {text : String} (h : variableName? text = some name) :
    (nameParts (canonicalName text)).1 = "v" ∧ (nameParts (canonicalName text)).2 = name ∧
      name ≠ "" := by
  unfold variableName? at h
  dsimp only at h
  split at h
  · rename_i hParts
    have hName := Option.some.inj h
    exact ⟨hParts.1, hName, hName ▸ hParts.2⟩
  · cases h

theorem variableName?_eq_none {text : String} (h : variableName? text = none) :
    ¬ ((nameParts (canonicalName text)).1 = "v" ∧ (nameParts (canonicalName text)).2 ≠ "") := by
  unfold variableName? at h
  dsimp only at h
  split at h
  · cases h
  · assumption

/-! ## What an action does -/

namespace Scope

abbrev space (s : Scope) : Namespace := s.tenant.space

/-- A name stands for a variable, or one is made for it. -/
inductive Gets (name : String) (size : Int) (s : Scope) : Variable → Scope → Prop
  | found {v} (hFound : s.space.find? name = some v) : Gets name size s v s
  | made {v s'} (hMissing : s.space.find? name = none)
    (hMade : Reading.obtainVariable (sizedName name size) size s = .ok v s') : Gets name size s v s'

/-- A name stands for nothing, and no variable can be made for it. -/
def Misses (name : String) (size : Int) (s : Scope) (f : Failure) (s' : Scope) : Prop :=
  s.space.find? name = none ∧ Reading.obtainVariable (sizedName name size) size s = .error f s'

/-- A temp has a local, or is given the next one. -/
inductive Lends (first : Nat) (name : String) (s : Scope) : Nat → Scope → Prop
  | found {temp} (hFound : s.temps.find? (·.1 == name) = some temp) : Lends first name s temp.2 s
  | made (hMissing : s.temps.find? (·.1 == name) = none) : Lends first name s (first + s.locals)
    { s with temps := s.temps ++ [(name, first + s.locals)], locals := s.locals + 1 }

variable {first : Nat} {wide : Int → Prop} {s s' : Scope} {name : String}

theorem Gets.grows {size : Int} {v : Variable} (h : s.Gets name size v s')
    (hOk : s.Sound first wide) : s'.Sound first wide ∧ s.Extends s' ∧ v ∈ s'.space.records ∧
      (s.space.find? name = none → v.size = size) := by
  cases h with
  | found hFound =>
    exact ⟨hOk, .refl s, Namespace.mem_of_find? hFound,
      fun hNone => nomatch hNone.symm.trans hFound⟩
  | made _ hMade =>
    obtain ⟨hOk', hLe, hMem, hSize⟩ := (Reading.obtainVariable_keeps _ _).of_ok hOk hMade
    exact ⟨hOk', hLe, hMem, fun _ => hSize⟩

theorem Lends.grows (h : s.Lends first name index s') (hOk : s.Sound first wide) :
    s'.Sound first wide ∧ s.Extends s' ∧ first ≤ index ∧ index < first + s'.locals := by
  cases h with
  | found hFound => exact ⟨hOk, .refl s, hOk.temps _ (List.mem_of_find?_eq_some hFound)⟩
  | made _ =>
    have hIndex : first ≤ first + s.locals ∧ first + s.locals < first + (s.locals + 1) := by omega
    exact ⟨⟨hOk.space, forall_mem_snoc hOk.fresh.temps hIndex, hOk.width⟩,
      ⟨.refl _, Nat.le_succ _, fun _ h => h⟩, hIndex⟩

theorem Lends.aside (h : s.Lends first name index s') :
    s'.tenant = s.tenant ∧ s'.returnWidth = s.returnWidth := by
  cases h with
  | found | made => exact ⟨rfl, rfl⟩

end Scope

/-! ## Variables -/

theorem Reading.findVariable_bind {α : Type} {s : Scope} {found : Option Variable}
    (h : s.space.find? name = found) (f : Option Variable → Reading α) :
    (findVariable name >>= f) s = f found s := by
  subst h
  rfl

namespace Dictionary

variable {rest : String} {s : Scope} {v : Variable} {st : Setting} {pos stop : Nat} {value : Expr}

theorem readVariable_of_found (hFound : s.space.find? rest = some v) :
    readVariable rest s = .ok (.variableRead v) s := by
  unfold readVariable
  rw [Reading.findVariable_bind hFound]
  rfl

theorem assignVariable_of_found (hFound : s.space.find? rest = some v)
    (hWidth : v.size = value.width) :
    assignVariable st rest pos stop value s = .ok (.assignVariable v value) s := by
  unfold assignVariable
  rw [Reading.findVariable_bind hFound]
  dsimp only
  rw [if_neg (fun hOther => hOther hWidth)]
  rfl

theorem obtainVariable_concludes (hMissing : s.space.find? rest = none) (size : Int) :
    Concludes (s.Gets rest size) (s.Misses rest size)
      (Reading.obtainVariable (sizedName rest size) size s) := by
  cases hObtain : Reading.obtainVariable (sizedName rest size) size s with
  | ok v s' => exact .ok (.made hMissing hObtain)
  | error f s' => exact .error ⟨hMissing, hObtain⟩

theorem readVariable_concludes (rest : String) (s : Scope) :
    Concludes (fun e s' => ∃ v, e = .variableRead v ∧ s.Gets rest 1 v s') (s.Misses rest 1)
      (readVariable rest s) := by
  cases hFound : s.space.find? rest with
  | some v =>
    rw [readVariable_of_found hFound]
    exact .ok ⟨v, rfl, .found hFound⟩
  | none =>
    unfold readVariable
    rw [Reading.findVariable_bind hFound]
    exact .bind (obtainVariable_concludes hFound 1) fun v s' hGets => .ok ⟨v, rfl, hGets⟩

theorem assignVariable_concludes (rest : String) (value : Expr) (s : Scope) :
    Concludes (fun t s' => ∃ v, t = .assignVariable v value ∧
        (s.space.find? rest = some v → v.size = value.width) ∧ s.Gets rest value.width v s')
      (fun f s' => (∃ problem, f = .source ⟨problem, st.source, pos, stop⟩ ∧ s' = s) ∨
        s.Misses rest value.width f s')
      (assignVariable st rest pos stop value s) := by
  cases hFound : s.space.find? rest with
  | some v =>
    by_cases hWidth : v.size = value.width
    · rw [assignVariable_of_found hFound hWidth]
      exact .ok ⟨v, rfl, fun _ => hWidth, .found hFound⟩
    · unfold assignVariable
      rw [Reading.findVariable_bind hFound]
      dsimp only
      rw [if_pos hWidth]
      exact .error (.inl ⟨_, rfl, rfl⟩)
  | none =>
    unfold assignVariable
    rw [Reading.findVariable_bind hFound]
    refine .bind ((obtainVariable_concludes hFound _).mono (fun _ _ h => h) fun _ _ => .inr)
      fun v s' hGets => .ok ⟨v, rfl, nofun, hGets⟩

end Dictionary

/-- The ends of a token, and of a name in its canonical form. -/
inductive Lexeme.Marks (q : Lexeme → Nat → Prop) (start : Nat) : Nat → Prop
  | token {l} : q l start → Marks q start (start + l.extent)
  | canonical {text} : q (.name text) start → Marks q start (start + (canonicalName text).length)

namespace Dictionary

/-- What is made of parts where no variable is named. -/
inductive Builds (dict : Dictionary) (s : Scope) : List Expr → Expr → Scope → Prop
  | constant {xs} (hSome : xs ≠ []) : Builds dict s [] (.constant xs) s
  | folded {x xs} (hSome : xs ≠ []) : Builds dict s [.constant [x]] (.constant xs) s
  | temp {name text index s'} (hLends : s.Lends dict.setting.firstLocal name index s') :
    Builds dict s [] (.localRead index text) s'
  | context {name text index} (hIndex : lastOf? dict.setting.context name = some index) :
    Builds dict s [] (.localRead index text) s
  | query {key query args start stop e s'} (hMem : (key, query) ∈ dict.queries)
    (hExpand : Query.expand query dict.setting dict.actor args start stop s = .ok (.expr e) s') :
    Builds dict s args e s'
  | negate {e} (hOne : e.width = 1) : Builds dict s [e] (.negate e) s
  | not {e} (hOne : e.width = 1) : Builds dict s [e] (.not e) s
  | binary {op l r} (hL : l.width = 1) (hR : r.width = 1) : Builds dict s [l, r] (.binary op l r) s
  | logical {op l r} (hL : l.width = 1) (hR : r.width = 1) :
      Builds dict s [l, r] (.logical op l r) s
  | ternary {cond yes no} (hOne : cond.width = 1) (hSame : yes.width = no.width) :
    Builds dict s [cond, yes, no] (.ternary cond yes no) s
  | vector {es} (hSome : es ≠ []) (hOne : ∀ e ∈ es, e.width = 1) : Builds dict s es (.vector es) s

/-- What an action makes of the names at some sites and of parts. -/
inductive Forms (dict : Dictionary) (q : Lexeme → Nat → Prop) (s : Scope) :
    Multiset Site → List Expr → Expr → Scope → Prop
  | quiet {N parts e s'} (hQuiet : ∀ site ∈ N, site.usage = .called ∨
      variableName? site.text = none)
    (hBuilds : dict.Builds s parts e s') : Forms dict q s N parts e s'
  | named {text name p v s'} (hText : q (.name text) p) (hName : variableName? text = some name)
    (hGets : s.Gets name 1 v s') : Forms dict q s {⟨text, p, .alone⟩} [] (.variableRead v) s'

/-- How a statement with a value ends. -/
inductive Closes (dict : Dictionary) (q : Lexeme → Nat → Prop) (s : Scope) (value : Expr) :
    Multiset Site → Stmt → Scope → Prop
  | discard : Closes dict q s value 0 (.discard value) s
  | temp {text name p index s'} (hText : variableName? text = none) (hOne : value.width = 1)
    (hLends : s.Lends dict.setting.firstLocal name index s') :
    Closes dict q s value {⟨text, p, .assigned⟩} (.assignLocal index value) s'
  | named {text name p v s'} (hText : q (.name text) p) (hName : variableName? text = some name)
    (hGets : s.Gets name value.width v s')
    (hSame : s.space.find? name = some v → v.size = value.width) :
    Closes dict q s value {⟨text, p, .assigned⟩} (.assignVariable v value) s'
  | first (hFirst : s.returnWidth = none) :
    Closes dict q s value 0 (.ret value) { s with returnWidth := some value.width }
  | again (hSame : s.returnWidth = some value.width) : Closes dict q s value 0 (.ret value) s

/-- How an action on parts fails, and the scope then. -/
inductive Fails (dict : Dictionary) (q : Lexeme → Nat → Prop) (s : Scope) (parts : List Expr) :
    Failure → Scope → Prop
  | source {problem start stop} (hMarks : Lexeme.Marks q start stop) :
    Fails dict q s parts (.source ⟨problem, dict.setting.source, start, stop⟩) s
  | tree {problem} : Fails dict q s parts (.tree problem) s
  | query {key query start stop f s'} (hMarks : Lexeme.Marks q start stop)
    (hMem : (key, query) ∈ dict.queries)
    (hExpand : Query.expand query dict.setting dict.actor parts start stop s = .error f s') :
    Fails dict q s parts f s'
  | foreign {key query start stop f node s'} (hMem : (key, query) ∈ dict.queries)
    (hExpand : Query.expand query dict.setting dict.actor parts start stop s = .ok node s')
    (hNode : ∀ e, node ≠ .expr e) : Fails dict q s parts f s'
  | named {text name p size f s'} (hText : q (.name text) p)
    (hName : variableName? text = some name)
    (hSize : size = 1 ∨ ∃ e ∈ parts, size = e.width) (hMisses : s.Misses name size f s') :
    Fails dict q s parts f s'

section

variable {dict : Dictionary} {q : Lexeme → Nat → Prop} {s : Scope} {parts : List Expr}
  {name text : String} {pos : Nat}

theorem requireSingle_concludes {sign : String} (hMarks : Lexeme.Marks q pos (pos + sign.length))
    (es : List Expr) :
    Concludes (fun _ s' => s' = s ∧ ∀ e ∈ es, e.width = 1) (dict.Fails q s parts)
      (dict.requireSingle sign pos es s) := by
  induction es with
  | nil => exact .ok ⟨rfl, List.forall_mem_nil _⟩
  | cons e rest ih =>
    unfold requireSingle
    extract_lets others
    split
    · exact .error (.source hMarks)
    · rename_i hOne
      exact ih.imp fun _ _ hEnd =>
        ⟨hEnd.1, List.forall_mem_cons.mpr ⟨Decidable.not_not.mp hOne, hEnd.2⟩⟩

theorem constantOf_concludes (vs : List Float) {p : Expr → Scope → Prop}
    (h : ∀ xs, xs ≠ [] → p (.constant xs) s) :
    Concludes p (dict.Fails q s parts) (Reading.ofTree (Expr.constantOf vs) s) := by
  cases hConstant : Expr.constantOf vs with
  | error problem => exact .error .tree
  | ok e =>
    obtain ⟨xs, hSome, rfl⟩ := Expr.constantOf_eq_ok hConstant
    exact .ok (h xs hSome)

theorem tempLocal_concludes (st : Setting) (name : String) {failed : Failure → Scope → Prop} :
    Concludes (s.Lends st.firstLocal name) failed (Reading.tempLocal st name s) := by
  unfold Reading.tempLocal
  rw [get_bind]
  cases hFound : s.temps.find? (·.1 == name) with
  | some temp => exact .ok (.found hFound)
  | none => exact .ok (.made hFound)

/-- **A call** makes what its query makes of the arguments. -/
theorem call_concludes (hMarks : Lexeme.Marks q pos (pos + text.length)) (args : List Expr) :
    Concludes (dict.Builds s args) (dict.Fails q s args) (dict.call text pos args s) := by
  unfold call
  cases hFind : Query.find? dict.queries (canonicalName text) with
  | none => exact .error (.source hMarks)
  | some query =>
    obtain ⟨⟨key, query⟩, hFound, rfl⟩ := Option.map_eq_some_iff.mp hFind
    have hMem := List.mem_of_find?_eq_some hFound
    dsimp only
    cases hExpand : query.expand dict.setting dict.actor args pos (pos + text.length) s with
    | error f s' =>
      rw [bind_of_error hExpand]
      exact .error (.query hMarks hMem hExpand)
    | ok node s' =>
      rw [bind_of_ok hExpand]
      cases node with
      | expr e => exact .ok (.query hMem hExpand)
      | stmt | foreign => exact .error (.foreign hMem hExpand nofun)

theorem name_of_variable (h : variableName? text = some name) :
    dict.name text pos = readVariable name := by
  obtain ⟨hHead, rfl, hSome⟩ := variableName?_eq_some h
  unfold name
  dsimp only
  rw [if_pos ⟨hHead, hSome⟩]

theorem assign_of_variable (h : variableName? text = some name) (value : Expr) :
    dict.assign text pos value =
      assignVariable dict.setting name pos (pos + text.length) value := by
  obtain ⟨hHead, rfl, hSome⟩ := variableName?_eq_some h
  unfold assign
  dsimp only
  rw [if_pos ⟨hHead, hSome⟩]

/-- **A name that stands by itself.** -/
theorem name_concludes (hText : q (.name text) pos) :
    Concludes (dict.Forms q s {⟨text, pos, .alone⟩} []) (dict.Fails q s [])
      (dict.name text pos s) := by
  have hMarks : Lexeme.Marks q pos (pos + text.length) := .token hText
  cases hName : variableName? text with
  | some name =>
    rw [name_of_variable hName]
    refine Concludes.mono (readVariable_concludes name s) ?_ fun _ _ => .named hText hName
      (.inl rfl)
    rintro _ s' ⟨v, rfl, hGets⟩
    exact .named hText hName hGets
  | none =>
    refine Concludes.imp (?_ : Concludes (dict.Builds s []) _ _) fun e s' => .quiet
      fun site hSite =>
      .inr (Multiset.mem_singleton.mp hSite ▸ hName)
    unfold name
    dsimp only
    rw [if_neg (variableName?_eq_none hName)]
    split
    · exact .bind (tempLocal_concludes _ _) fun _ _ hLends => .ok (.temp hLends)
    · split
      · cases hIndex : lastOf? dict.setting.context (nameParts (canonicalName text)).2 with
        | some index => exact .ok (.context hIndex)
        | none => exact .error (.source hMarks)
      · cases lastOf? dict.setting.constants (canonicalName text) with
        | some values =>
          cases values with
          | nil => exact .error (.source hMarks)
          | cons => exact constantOf_concludes _ fun _ => .constant
        | none =>
          dsimp only
          split
          · exact call_concludes (.canonical hText) []
          · exact .error (.source hMarks)

/-- **The target of an assignment.** -/
theorem assign_concludes (hText : q (.name text) pos) (value : Expr) :
    Concludes (dict.Closes q s value {⟨text, pos, .assigned⟩}) (dict.Fails q s [value])
      (dict.assign text pos value s) := by
  have hMarks : Lexeme.Marks q pos (pos + text.length) := .token hText
  cases hName : variableName? text with
  | some name =>
    rw [assign_of_variable hName]
    refine .mono (assignVariable_concludes name value s) ?_ ?_
    · rintro _ s' ⟨v, rfl, hSame, hGets⟩
      exact .named hText hName hGets hSame
    · rintro f s' (⟨problem, rfl, rfl⟩ | hMisses)
      · exact .source hMarks
      · exact .named hText hName (.inr ⟨value, List.mem_cons_self, rfl⟩) hMisses
  | none =>
    unfold assign
    dsimp only
    rw [if_neg (variableName?_eq_none hName)]
    split
    · split
      · exact .error (.source hMarks)
      · rename_i hOne
        exact .bind (tempLocal_concludes _ _) fun _ _ hLends =>
          .ok (.temp hName (Decidable.not_not.mp hOne) hLends)
    · exact .error (.source hMarks)

theorem ret_concludes (hRet : q .ret pos) (value : Expr) :
    Concludes (dict.Closes q s value 0) (dict.Fails q s [value]) (dict.ret pos value s) := by
  unfold ret
  rw [get_bind]
  cases hWidth : s.returnWidth with
  | none => exact .ok (.first hWidth)
  | some earlier =>
    dsimp only
    split
    · exact .error (.source (.token hRet))
    · rename_i hSame
      exact .ok (.again (hWidth.trans (congrArg some (Decidable.not_not.mp hSame))))

end

/-- What is to be shown of a view for all actions of a dictionary to follow it; a reading fails as
`bad` says. -/
structure Honours (dict : Dictionary) (v : View Scope Scope Scope Expr Stmt)
    (bad : Failure → Scope → Prop) : Prop where
  rel {α} {p : α → Scope → Prop} {x s} : Concludes p bad (x s) → v.rel p x x s
  forms {M N K parts l e s s'} : dict.Forms v.stands s N parts e s' → (∀ e ∈ parts, v.fits s e) →
    v.pending (N + M) (K ++ parts) l s → v.later s s' ∧ v.fits s' e ∧ v.pending M (K ++ [e]) l s'
  closes {M N l value t s s'} : dict.Closes v.stands s value N t s' → v.fits s value →
    v.pending (N + M) [value] l s → v.pending M [] (l ++ [t]) s'
  fails {M K parts l f s s'} : dict.Fails v.stands s parts f s' → (∀ e ∈ parts, v.fits s e) →
    v.pending M (K ++ parts) l s → bad f s'
  sequence {M l s} : v.pending M [] l s → v.whole M s (.sequence l s.resultWidth)

namespace Honours

variable {dict : Dictionary} {v : View Scope Scope Scope Expr Stmt} {bad : Failure → Scope → Prop}
  (h : dict.Honours v bad) {M N : Multiset Site} {K parts : List Expr} {l : List Stmt} {s : Scope}
include h

theorem makes {act : Reading Expr}
    (hAct : Concludes (dict.Forms v.stands s N parts) (dict.Fails v.stands s parts) (act s))
    (hFits : ∀ e ∈ parts, v.fits s e) (hS : v.pending (N + M) (K ++ parts) l s) :
    v.Makes M K l s act act :=
  h.rel (hAct.mono (fun _ _ hForms => h.forms hForms hFits hS)
    fun _ _ hFails => h.fails hFails hFits hS)

/-- An action for which there is no name. -/
theorem builds {act : Reading Expr}
    (hAct : Concludes (dict.Builds s parts) (dict.Fails v.stands s parts) (act s))
    (hFits : ∀ e ∈ parts, v.fits s e) (hS : v.pending M (K ++ parts) l s) :
    v.Makes M K l s act act :=
  h.makes (N := 0) (hAct.imp fun _ _ => .quiet nofun) hFits (by rwa [zero_add])

theorem finishes {act : Reading Stmt} {value : Expr}
    (hAct : Concludes (dict.Closes v.stands s value N) (dict.Fails v.stands s [value]) (act s))
    (hFits : v.fits s value) (hS : v.pending (N + M) [value] l s) : v.Finishes M l s act act :=
  h.rel (hAct.mono (fun _ _ hCloses => h.closes hCloses hFits hS)
    fun _ _ hFails => h.fails (K := []) hFails (List.forall_mem_singleton.mpr hFits) hS)

/-- **All actions of a dictionary** follow a view that honours what they can do. -/
theorem viewed : dict.actions.Viewed v dict.actions where
  number x _ K _ _ hS := by
    rw [← List.append_nil K] at hS
    exact h.builds (constantOf_concludes [x] fun _ => .constant) (List.forall_mem_nil _) hS
  name {_ _ _ K _ _} hText hS := by
    dsimp only [actions]
    rw [← List.append_nil K] at hS
    exact h.makes (name_concludes hText) (List.forall_mem_nil _) hS
  call {_ _ args _ _ _ _} hText hArgs hS := by
    refine h.makes (N := {⟨_, _, .called⟩}) ((call_concludes (.token hText) args).imp ?_) hArgs hS
    exact fun _ _ => .quiet fun site hSite => .inl (Multiset.mem_singleton.mp hSite ▸ rfl)
  negate {_ e _ _ _ _} hSign hE hS := by
    refine h.builds (.bind (requireSingle_concludes (.token hSign) [e]) ?_)
      (List.forall_mem_singleton.mpr hE) hS
    rintro _ _ ⟨rfl, hOne⟩
    split
    · exact constantOf_concludes _ fun _ => .folded
    · exact .ok (.negate (hOne e List.mem_cons_self))
  not {_ e _ _ _ _} hSign hE hS := by
    refine h.builds (.bind (requireSingle_concludes (.token hSign) [e]) ?_)
      (List.forall_mem_singleton.mpr hE) hS
    rintro _ _ ⟨rfl, hOne⟩
    exact .ok (.not (hOne e List.mem_cons_self))
  operator {op _ left right _ _ _ _} hSign hLeft hRight hS := by
    refine h.builds (.bind (requireSingle_concludes (.token hSign) [left, right]) ?_)
      (List.forall_mem_cons.mpr ⟨hLeft, List.forall_mem_singleton.mpr hRight⟩) hS
    rintro _ _ ⟨rfl, hOne⟩
    obtain ⟨hL, hR⟩ := List.forall_mem_cons.mp hOne
    cases op with
    | binary => exact .ok (.binary hL (hR right List.mem_cons_self))
    | logical => exact .ok (.logical hL (hR right List.mem_cons_self))
  ternary {_ _ cond _ _ _ _ _ _} hQuestion hColon hCondition hYes hNo hS := by
    refine h.builds (.bind (requireSingle_concludes (.token hQuestion) [cond]) ?_)
      (List.forall_mem_cons.mpr ⟨hCondition, List.forall_mem_cons.mpr
        ⟨hYes, List.forall_mem_singleton.mpr hNo⟩⟩) hS
    rintro _ _ ⟨rfl, hOne⟩
    split
    · exact .error (.source (.token hColon))
    · rename_i hSame
      exact .ok (.ternary (hOne cond List.mem_cons_self) (Decidable.not_not.mp hSame))
  vector {_ es _ _ _ _} hBracket hSome hElements hS := by
    refine h.builds (.bind (requireSingle_concludes (.token hBracket) es) ?_) hElements hS
    rintro _ _ ⟨rfl, hOne⟩
    exact .ok (.vector hSome hOne)
  discard hE hS := h.finishes (N := 0) (.ok .discard) hE (by rwa [zero_add])
  assign {_ _ e _ _ _} hText hE hS := by
    dsimp only [actions]
    exact h.finishes (assign_concludes hText e) hE hS
  ret {_ e _ _ _} hRet hE hS := h.finishes (ret_concludes hRet e) hE (by rwa [zero_add])
  sequence hS := h.rel (.ok (h.sequence hS))

theorem readSource (hBad : ∀ {problem start stop s}, dict.setting.Blamed problem start stop →
      v.fails s → bad (dict.setting.failure problem start stop) s)
    (hTokens : ∀ t ∈ (scan 1 dict.setting.source).tokens, v.stands t.lexeme t.start)
    (hS : v.pending (nameSites (scan 1 dict.setting.source).tokens) [] [] s) :
    v.Completes 0 s dict.readSource dict.readSource := by
  rw [Setting.readSource_eq_with]
  exact dict.setting.readWith_viewed h.viewed
    (fun hBlamed hFails => h.rel (.error (hBad hBlamed hFails))) hTokens hS

end Honours

end Dictionary

/-! ## Rules for trees -/

def Node.Holds (p : Expr → Prop) (q : Stmt → Prop) : Node → Prop
  | .expr e => p e
  | .stmt t => q t
  | .foreign _ => True

/-- What has to be shown of properties of expressions, statements and whole sources, for them to
hold of everything that is read: each kind of node has the property if its parts do, given what the
reader has checked. -/
structure TreeRules (dict : Dictionary) (wide : Int → Prop) (P : Scope → Expr → Prop)
    (Q : Scope → Stmt → Prop) (W : Scope → Expr → Prop) : Prop where
  mono {s s' e} : s.Extends s' → P s e → P s' e
  monoStmt {s s' t} : s.Extends s' → Q s t → Q s' t
  whole {s e} : P s e → W s e
  width {s e} : P s e → wide e.width
  constant (s : Scope) {xs} : xs ≠ [] → P s (.constant xs)
  temp {s index} (name : String) : dict.setting.firstLocal ≤ index →
    index < dict.setting.firstLocal + s.locals → P s (.localRead index name)
  context (s : Scope) {index} (name : String) : index + 1 < dict.setting.firstLocal →
    P s (.localRead index name)
  variableRead {s v} : s.tenant.space.Sound → v ∈ s.tenant.space.records → P s (.variableRead v)
  negate {s e} : P s e → e.width = 1 → P s (.negate e)
  not {s e} : P s e → e.width = 1 → P s (.not e)
  binary {s l r} (op : BinaryOp) : P s l → P s r → l.width = 1 → r.width = 1 → P s (.binary op l r)
  logical {s l r} (op : LogicalOp) : P s l → P s r → l.width = 1 → r.width = 1 →
    P s (.logical op l r)
  ternary {s condition yes no} : P s condition → P s yes → P s no →
    condition.width = 1 → yes.width = no.width → P s (.ternary condition yes no)
  vector {s es} : es ≠ [] → (∀ e ∈ es, P s e) → (∀ e ∈ es, e.width = 1) → P s (.vector es)
  call {s query key args} (start stop : Nat) :
    (key, query) ∈ dict.queries → (∀ e ∈ args, P s e) →
    Keeps (Scope.course dict.setting.firstLocal wide) (fun node s' => node.Holds (P s') (Q s'))
      (query.expand dict.setting dict.actor args start stop) s
  discard {s e} : P s e → Q s (.discard e)
  assignLocal {s e index} : P s e → e.width = 1 →
    dict.setting.firstLocal ≤ index → index < dict.setting.firstLocal + s.locals →
    Q s (.assignLocal index e)
  assignVariable {s e v} : P s e → s.tenant.space.Sound →
    v ∈ s.tenant.space.records → e.width = v.size → Q s (.assignVariable v e)
  ret {s e} : P s e → s.returnWidth = some e.width → Q s (.ret e)
  sequence {s statements} : (∀ t ∈ statements, Q s t) → W s (.sequence statements s.resultWidth)

namespace Dictionary

variable {dict : Dictionary} {wide : Int → Prop} {P : Scope → Expr → Prop}
  {Q : Scope → Stmt → Prop} {W : Scope → Expr → Prop}

theorem context_lt (hSetting : dict.setting = Setting.of r.source r.context r.constants)
    (h : lastOf? dict.setting.context name = some index) :
    index + 1 < dict.setting.firstLocal := by
  rw [hSetting] at h ⊢
  obtain ⟨p, hFind, rfl⟩ := Option.map_eq_some_iff.mp h
  have hMem := List.mem_reverse.mp (List.mem_of_find?_eq_some hFind)
  obtain ⟨⟨text, i⟩, hPair, rfl⟩ := List.mem_map.mp hMem
  have hLt := (List.mem_zipIdx hPair).2.1
  show i + 1 < r.context.length + 1
  omega

/-- Rules as a view of the readings that start in a given scope. -/
def view (rules : TreeRules dict wide P Q W) (start : Scope) :
    View Scope Scope Scope Expr Stmt where
  rel p x _ s :=
    Concludes p (fun _ s' => s'.Sound dict.setting.firstLocal wide ∧ start.Extends s') (x s)
  pure h := .ok h
  bind h hNext := .bind h hNext
  later := Scope.Extends
  refl := .refl
  fits := P
  mono := rules.mono
  pending _ _ l s := s.Sound dict.setting.firstLocal wide ∧ start.Extends s ∧ ∀ t ∈ l, Q s t
  whole _ s e := s.Sound dict.setting.firstLocal wide ∧ start.Extends s ∧ W s e
  whole_of_fits h hS := ⟨hS.1, hS.2.1, rules.whole h⟩
  fails s := s.Sound dict.setting.firstLocal wide ∧ start.Extends s
  fails_of_pending hS := ⟨hS.1, hS.2.1⟩
  fails_of_whole hS := ⟨hS.1, hS.2.1⟩

section

variable (rules : TreeRules dict wide P Q W) {q : Lexeme → Nat → Prop} {s s' : Scope}
include rules

theorem Builds.holds (hSetting : dict.setting = Setting.of r.source r.context r.constants)
    {parts : List Expr} {e : Expr} (h : dict.Builds s parts e s')
    (hOk : s.Sound dict.setting.firstLocal wide) (hParts : ∀ e ∈ parts, P s e) :
    s'.Sound dict.setting.firstLocal wide ∧ s.Extends s' ∧ P s' e := by
  have hStill {e : Expr} (hE : P s e) :
      s.Sound dict.setting.firstLocal wide ∧ s.Extends s ∧ P s e := ⟨hOk, .refl s, hE⟩
  cases h with
  | constant hSome | folded hSome => exact hStill (rules.constant s hSome)
  | temp hLends =>
    obtain ⟨hOk', hLe, hLow, hHigh⟩ := hLends.grows hOk
    exact ⟨hOk', hLe, rules.temp _ hLow hHigh⟩
  | context hIndex => exact hStill (rules.context s _ (context_lt hSetting hIndex))
  | query hMem hExpand => exact (rules.call _ _ hMem hParts).of_ok hOk hExpand
  | negate hOne => exact hStill (rules.negate (hParts _ (by simp)) hOne)
  | not hOne => exact hStill (rules.not (hParts _ (by simp)) hOne)
  | binary hL hR => exact hStill (rules.binary _ (hParts _ (by simp)) (hParts _ (by simp)) hL hR)
  | logical hL hR => exact hStill (rules.logical _ (hParts _ (by simp)) (hParts _ (by simp)) hL hR)
  | ternary hOne hSame =>
    exact hStill (rules.ternary (hParts _ (by simp)) (hParts _ (by simp))
      (hParts _ (by simp)) hOne hSame)
  | vector hSome hOne => exact hStill (rules.vector hSome hParts hOne)

theorem Closes.holds {value : Expr} {N : Multiset Site} {t : Stmt}
    (h : dict.Closes q s value N t s')
    (hOk : s.Sound dict.setting.firstLocal wide) (hValue : P s value) :
    s'.Sound dict.setting.firstLocal wide ∧ s.Extends s' ∧ Q s' t := by
  cases h with
  | discard => exact ⟨hOk, .refl s, rules.discard hValue⟩
  | temp _ hOne hLends =>
    obtain ⟨hOk', hLe, hLow, hHigh⟩ := hLends.grows hOk
    exact ⟨hOk', hLe, rules.assignLocal (rules.mono hLe hValue) hOne hLow hHigh⟩
  | named _ _ hGets hSame =>
    obtain ⟨hOk', hLe, hMem, hMade⟩ := hGets.grows hOk
    refine ⟨hOk', hLe, rules.assignVariable (rules.mono hLe hValue) hOk'.space hMem (Eq.symm ?_)⟩
    cases hGets with
    | found hFound => exact hSame hFound
    | made hMissing => exact hMade hMissing
  | first hFirst =>
    have hLe : s.Extends { s with returnWidth := some value.width } :=
      ⟨.refl _, Nat.le_refl _, fun w hw => nomatch hFirst.symm.trans hw⟩
    refine ⟨⟨hOk.space, hOk.temps, fun w hw => ?_⟩, hLe, rules.ret (rules.mono hLe hValue) rfl⟩
    cases hw
    exact rules.width hValue
  | again hSame => exact ⟨hOk, .refl s, rules.ret hValue hSame⟩

theorem Fails.holds {parts : List Expr} {f : Failure} (h : dict.Fails q s parts f s')
    (hOk : s.Sound dict.setting.firstLocal wide) (hParts : ∀ e ∈ parts, P s e) :
    s'.Sound dict.setting.firstLocal wide ∧ s.Extends s' := by
  cases h with
  | source | tree => exact ⟨hOk, .refl s⟩
  | query _ hMem hExpand => exact (rules.call _ _ hMem hParts hOk).of_error hExpand
  | foreign hMem hExpand =>
    have hEnd := (rules.call _ _ hMem hParts).of_ok hOk hExpand
    exact ⟨hEnd.1, hEnd.2.1⟩
  | named _ _ _ hMisses => exact (Reading.obtainVariable_keeps _ _ hOk).of_error hMisses.2

theorem view_honoured (hSetting : dict.setting = Setting.of r.source r.context r.constants)
    (start : Scope) : dict.Honours (view rules start)
      fun _ s' => s'.Sound dict.setting.firstLocal wide ∧ start.Extends s' where
  rel h := h
  forms {_ _ _ _ _ e s s'} hForms hFits hS := by
    have hEnd : s'.Sound dict.setting.firstLocal wide ∧ s.Extends s' ∧ P s' e := by
      cases hForms with
      | quiet _ hBuilds => exact hBuilds.holds rules hSetting hS.1 hFits
      | named _ _ hGets =>
        obtain ⟨hOk, hLe, hMem, -⟩ := hGets.grows hS.1
        exact ⟨hOk, hLe, rules.variableRead hOk.space hMem⟩
    exact ⟨hEnd.2.1, hEnd.2.2, hEnd.1, hS.2.1.trans hEnd.2.1,
      fun t ht => rules.monoStmt hEnd.2.1 (hS.2.2 t ht)⟩
  closes hCloses hValue hS := by
    obtain ⟨hOk, hLe, hT⟩ := hCloses.holds rules hS.1 hValue
    exact ⟨hOk, hS.2.1.trans hLe, forall_mem_snoc (fun u hu => rules.monoStmt hLe (hS.2.2 u hu)) hT⟩
  fails hFails hFits hS := by
    obtain ⟨hOk, hLe⟩ := hFails.holds rules hS.1 hFits
    exact ⟨hOk, hS.2.1.trans hLe⟩
  sequence hS := ⟨hS.1, hS.2.1, rules.sequence hS.2.2⟩

/-- **Every source that is read** has the properties that obey the rules. -/
theorem readSource_holds (hSetting : dict.setting = Setting.of r.source r.context r.constants)
    (s : Scope) :
    Keeps (course dict.setting.firstLocal wide) (fun e s' => W s' e) dict.readSource s := by
  intro hOk
  have hEnd := (view_honoured rules hSetting s).readSource (fun _ hFails => hFails)
    (fun _ _ => trivial) ⟨hOk, .refl s, List.forall_mem_nil _⟩
  exact Concludes.ends hEnd (fun _ _ hDone => hDone) fun _ _ hFailed => hFailed

end

end Dictionary

end MolangCompiler
