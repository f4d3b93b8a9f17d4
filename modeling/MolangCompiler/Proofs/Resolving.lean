import MolangCompiler.Proofs.Images
import MolangCompiler.Proofs.Lookup
import MolangCompiler.Proofs.Recognition
import MolangCompiler.Proofs.Stages

/-!
# Which variable a name was resolved to

The tree of a source holds variables, but not the names by which the source mentioned them.  So a
source is read once more with a list at hand: whenever a name is about a variable, both are put on
the list.  Such a reading does what the plain one does (`Dictionary.resolve_agrees`).  Without
templates a name on the list still stands for its variable at the end of the reading.
-/

namespace MolangCompiler

/-! ## Readings with a list -/

/-- The scope of a source, and what names were resolved to so far. -/
structure Resolving where
  scope : Scope
  resolved : List (String × Variable)

def Expr.variable? : Expr → Option Variable
  | .variableRead v => some v
  | _ => none

def Stmt.target? : Stmt → Option Variable
  | .assignVariable v _ => some v
  | _ => none

namespace Resolving

def plain {α : Type} (act : Reading α) : Act Resolving α :=
  onPart scope (fun s r => { r with scope := s }) act

def note (text : String) (v? : Option Variable) : Act Resolving Unit :=
  modify fun r => { r with
    resolved := r.resolved ++ ((variableName? text).bind fun name => v?.map (name, ·)).toList }

end Resolving

open Resolving

/-- The actions of a dictionary, with a list of what names are resolved to. -/
def Dictionary.resolving (dict : Dictionary) : Actions (Act Resolving) Expr Stmt where
  number value := plain (dict.actions.number value)
  name text position := do
    let e ← plain (dict.name text position)
    note text e.variable?
    return e
  call text position args := plain (dict.call text position args)
  negate position e := plain (dict.actions.negate position e)
  not position e := plain (dict.actions.not position e)
  operator op position left right := plain (dict.actions.operator op position left right)
  ternary question colon condition yes no :=
    plain (dict.actions.ternary question colon condition yes no)
  vector position elements := plain (dict.actions.vector position elements)
  discard e := plain (dict.actions.discard e)
  assign text position value := do
    let s ← plain (dict.assign text position value)
    note text s.target?
    return s
  ret position value := plain (dict.ret position value)
  sequence statements := plain (dict.actions.sequence statements)

/-- Reads a source with a list of what its names are resolved to. -/
def Dictionary.resolve (dict : Dictionary) : Act Resolving (Verdict Expr) :=
  Config.start.drive dict.resolving dict.setting.source.length 0 (scan 1 dict.setting.source).tokens

/-- What the names in the source of a request are resolved to, in the order of reading. -/
def Workshop.resolutions (request : Request) (w : Workshop) : List (String × Variable) :=
  (Outcome.state ((w.dictionary request).resolve ⟨Scope.start w.tenant, []⟩)).resolved

/-! ## What is on the list -/

/-- A name without a dollar sign stood for a variable at some point between two namespaces; if all
is calm in between, it still stands for it in the second one. -/
structure Stood (calm : Prop) (ns : Namespace) (p : String × Variable) (ns' : Namespace) :
    Prop where
  plain : '$' ∉ p.1.toList
  once : ∃ mid : Namespace, ns.records <+: mid.records ∧ mid.records <+: ns'.records ∧
    mid.find? p.1 = some p.2
  still : calm → ns'.find? p.1 = some p.2

/-- A reading has moved on: variables were added, and names were put on the list.  If all is calm,
names go on to stand for what they stood for. -/
structure Resolving.Onward (calm : Prop) (r r' : Resolving) : Prop where
  records : r.scope.space.records <+: r'.scope.space.records
  settles : calm → r.scope.space.Settles r'.scope.space
  list : ∃ new, r'.resolved = r.resolved ++ new ∧
    ∀ p ∈ new, Stood calm r.scope.space p r'.scope.space

variable {s : Scope}

namespace Resolving.Onward

variable {calm : Prop} {r r₁ r₂ r₃ : Resolving}

theorem refl (r : Resolving) : r.Onward calm r :=
  ⟨List.prefix_rfl, fun _ => .refl _, [], (List.append_nil _).symm, fun _ hp =>
    absurd hp List.not_mem_nil⟩

theorem trans (h : r₁.Onward calm r₂) (h' : r₂.Onward calm r₃) : r₁.Onward calm r₃ where
  records := h.records.trans h'.records
  settles hCalm := (h.settles hCalm).trans (h'.settles hCalm)
  list := by
    obtain ⟨new, hNew, hStood⟩ := h.list
    obtain ⟨new', hNew', hStood'⟩ := h'.list
    refine ⟨new ++ new', by rw [hNew', hNew, List.append_assoc], fun p hp => ?_⟩
    rcases List.mem_append.mp hp with hp | hp
    · obtain ⟨hPlain, ⟨mid, hBefore, hAfter, hFound⟩, hStill⟩ := hStood p hp
      exact ⟨hPlain, ⟨mid, hBefore, hAfter.trans h'.records, hFound⟩,
        fun hCalm => h'.settles hCalm _ _ hPlain (hStill hCalm)⟩
    · obtain ⟨hPlain, ⟨mid, hBefore, hAfter, hFound⟩, hStill⟩ := hStood' p hp
      exact ⟨hPlain, ⟨mid, h.records.trans hBefore, hAfter, hFound⟩, hStill⟩

theorem of_scope (hRecords : r.scope.space.records <+: s.space.records)
    (hSettles : calm → r.scope.space.Settles s.space) : r.Onward calm { r with scope := s } :=
  ⟨hRecords, hSettles, [], (List.append_nil _).symm, List.forall_mem_nil _⟩

theorem of_records (hRecords : s.space.records = r.scope.space.records) :
    r.Onward calm { r with scope := s } := by
  refine of_scope (hRecords ▸ List.prefix_rfl) fun _ name v _ hFound => ?_
  rw [Namespace.find?_congr hRecords]
  exact hFound

theorem of_meets {name : String} {size : Int} {v : Variable} (hPlain : '$' ∉ name.toList)
    (hSome : name ≠ "") (h : r.scope.space.Meets name size v s.space) :
    r.Onward calm ⟨s, r.resolved ++ [(name, v)]⟩ := by
  refine ⟨h.records_le, fun _ => h.settles, [(name, v)], rfl, fun p hp => ?_⟩
  cases List.mem_singleton.mp hp
  have hFound := h.finds hPlain hSome
  exact ⟨hPlain, ⟨s.space, h.records_le, List.prefix_rfl, hFound⟩, fun _ => hFound⟩

end Resolving.Onward

/-! ## The list changes nothing else -/

/-- A reading with a list does what a plain reading does. -/
abbrev resolvingBeside (calm : Prop) : Comparison Resolving Scope :=
  .through Resolving.scope ⟨fun _ => True, Onward calm, .refl, .trans⟩

/-- Variables are added.  If all is calm, names go on to stand for what they stood for. -/
def settling (calm : Prop) : Course Tenant where
  ok _ := True
  le t t' := t.space.records <+: t'.space.records ∧ (calm → t.space.Settles t'.space)
  refl _ := ⟨List.prefix_rfl, fun _ => .refl _⟩
  trans h h' := ⟨h.1.trans h'.1, fun hCalm => (h.2 hCalm).trans (h'.2 hCalm)⟩

namespace Dictionary

open Comparison

variable {calm : Prop} {dict : Dictionary}

variable {α : Type} {text : String}

variable {x : Reading α}

theorem plain_resolving (h : ∀ s, Stays ((settling calm).on Scope.tenant) x s) :
    (resolvingBeside calm).Like (plain x) x := by
  refine shadowing_lift (fun _ _ => rfl) fun r _ => .mono (h r.scope trivial) ?_ ?_
  · exact fun _ _ hDone => ⟨trivial, .of_scope hDone.2.1.1 hDone.2.1.2, trivial⟩
  · exact fun _ hFailed => ⟨trivial, .of_scope hFailed.2.1 hFailed.2.2⟩

/-- What keeps away from variables as long as all is calm, and only adds some otherwise. -/
theorem plain_resolving_of (hAdds : (keeping (Tenant.adding.on Scope.tenant)).Like x x)
    (hAside : calm → Reading.Aside x) :
    (resolvingBeside calm).Like (plain x) x := by
  refine plain_resolving fun s => ?_
  by_cases hCalm : calm
  · exact (hAside hCalm).stays _ s
  · refine fun hOk => .mono (hAdds s hOk) (fun _ _ hDone => ?_) fun _ hFailed => ?_
    · exact ⟨trivial, ⟨hDone.2.1, fun h => absurd h hCalm⟩, trivial⟩
    · exact ⟨trivial, hFailed.2, fun h => absurd h hCalm⟩

theorem plain_resolving_aside (h : Reading.Aside x) : (resolvingBeside calm).Like (plain x) x :=
  plain_resolving fun s => h.stays _ s

theorem unlisted_resolving {part : α → Option Variable} (hName : variableName? text = none)
    (h : (resolvingBeside calm).Like (plain x) x) :
    (resolvingBeside calm).Like (do let a ← plain x; Resolving.note text (part a); return a) x := by
  have hNote (a : α) : (do Resolving.note text (part a); return a : Act Resolving α) = pure a := by
    funext r
    show EStateM.Result.ok a (⟨r.scope, r.resolved ++ _⟩ : Resolving) = .ok a r
    rw [hName]
    exact congrArg (fun list => EStateM.Result.ok a (⟨r.scope, list⟩ : Resolving))
      (List.append_nil _)
  have hSame : (do let a ← plain x; Resolving.note text (part a); return a : Act Resolving α) =
      plain x := by
    simp only [hNote, bind_pure]
  rw [hSame]
  exact h

theorem listed_resolving (size : Int) {name : String} {part : α → Option Variable}
    (hText : PlainName text) (hName : variableName? text = some name)
    (h : ∀ s, Ends (fun a s' => ∃ v, part a = some v ∧ s.space.Meets name size v s'.space)
      (fun s' => s'.space.records = s.space.records) (x s)) :
    (resolvingBeside calm).Like (do let a ← plain x; Resolving.note text (part a); return a) x := by
  intro r _
  have hEnds := h r.scope
  cases hRun : x r.scope with
  | error e s =>
    rw [hRun] at hEnds
    cases hEnds with
    | error hRecords =>
      have hPlain : plain x r = .error e { r with scope := s } := onPart_of_error hRun
      rw [bind_of_error hPlain]
      exact .error ⟨trivial, .of_records hRecords⟩
  | ok a s =>
    rw [hRun] at hEnds
    cases hEnds with
    | ok hDone =>
      obtain ⟨v, hPart, hMeets⟩ := hDone
      have hPlain : plain x r = .ok a { r with scope := s } := onPart_of_ok hRun
      have hNote : (do Resolving.note text (part a); return a : Act Resolving α)
          { r with scope := s } = .ok a ⟨s, r.resolved ++ [(name, v)]⟩ := by
        show EStateM.Result.ok a (⟨s, r.resolved ++ _⟩ : Resolving) = _
        rw [hName, hPart]
        rfl
      rw [bind_of_ok hPlain, hNote]
      exact .ok ⟨trivial, .of_meets (plain_of_variableName? hText hName)
        (variableName?_eq_some hName).2.2 hMeets, trivial⟩

theorem name_resolving (dict : Dictionary) (hText : PlainName text) (pos : Nat) :
    (resolvingBeside dict.Templateless).Like (dict.resolving.name text pos)
      (dict.name text pos) := by
  cases hName : variableName? text with
  | none =>
    exact unlisted_resolving hName (plain_resolving_of
      (name_compared (keeping_obtains Tenant.obtain_adds) dict text pos)
      fun hTemplateless => name_aside hTemplateless hName)
  | some name =>
    have hPlain := plain_of_variableName? hText hName
    obtain ⟨-, -, hSome⟩ := variableName?_eq_some hName
    refine listed_resolving 1 hText hName fun s => ?_
    rw [name_of_variable hName]
    refine .mono (readVariable_meets hPlain hSome s) ?_ fun _ h => h
    rintro e s' ⟨v, rfl, hMeets, -⟩
    exact ⟨v, rfl, hMeets⟩

theorem assign_resolving (dict : Dictionary) (hText : PlainName text) (pos : Nat)
    (value : Expr) :
    (resolvingBeside dict.Templateless).Like (dict.resolving.assign text pos value)
      (dict.assign text pos value) := by
  cases hName : variableName? text with
  | none => exact unlisted_resolving hName (plain_resolving_aside (assign_aside hName value))
  | some name =>
    have hPlain := plain_of_variableName? hText hName
    obtain ⟨-, -, hSome⟩ := variableName?_eq_some hName
    refine listed_resolving value.width hText hName fun s => ?_
    rw [assign_of_variable hName]
    refine .mono (assignVariable_meets hPlain hSome s) ?_ fun _ h => h
    rintro t s' ⟨v, rfl, -, hMeets, -⟩
    exact ⟨v, rfl, hMeets⟩

/-- **With a list** the actions of a dictionary do what they do without. -/
theorem resolving_compared (dict : Dictionary) :
    dict.resolving.Compared (resolvingBeside dict.Templateless) PlainName dict.actions := by
  refine actionsOn_compared plain_resolving_aside ?_ ?_ ?_
  · exact fun text => name_resolving dict
  · exact fun text _ p args => plain_resolving_of
      (call_compared (keeping_obtains Tenant.obtain_adds) dict text p args)
      fun hTemplateless => call_aside hTemplateless args
  · exact fun text => assign_resolving dict

end Dictionary

theorem Config.drive_compared {σ τ E S : Type} {c : Comparison σ τ} {N : String → Prop}
    {acts : Actions (Act σ) E S} {acts' : Actions (Act τ) E S} (h : acts.Compared c N acts')
    (stop : Nat) {tokens : List Token} (hTokens : ∀ t ∈ tokens, t.lexeme.Named N) :
    ∀ {config : Config E S} (index : Nat),
      config.Holds (fun _ => True) (fun l _ => l.Named N) →
      c.Like (config.drive acts stop index tokens) (config.drive acts' stop index tokens) := by
  induction tokens with
  | nil =>
    intro config index hConfig
    refine c.bind (step_viewed h (w := ()) hConfig
      (fun t ht => absurd ht (Option.not_mem_none t)) none (M := 0) trivial) fun progress _ => ?_
    cases progress with
    | accepted | stuck | next => exact c.pure trivial
  | cons t rest ih =>
    intro config index hConfig
    obtain ⟨hToken, hRest⟩ := List.forall_mem_cons.mp hTokens
    refine c.bind (step_viewed h (w := ()) hConfig
      (fun l hl => (Option.mem_some_iff.mp hl) ▸ hToken)
      (Token.first? rest) (M := 0) trivial) fun progress hAfter => ?_
    cases progress with
    | next config' => exact ih hRest (index + 1) hAfter.1
    | stuck | accepted => exact c.pure trivial

/-- **Reading with a list** does what reading does. -/
theorem Dictionary.resolve_agrees (dict : Dictionary) :
    (resolvingBeside dict.Templateless).Like dict.resolve
      (Config.start.drive dict.actions dict.setting.source.length 0
        (scan 1 dict.setting.source).tokens) :=
  Config.drive_compared dict.resolving_compared _ (scan_plainNames 1 dict.setting.source) 0
    ⟨nofun, trivial, nofun, trivial⟩

/-! ## Sources that are read -/

namespace Dictionary

theorem text_of_readSource {dict : Dictionary} {s' : Scope} {e : Expr}
    (h : dict.readSource s = .ok e s') : dict.setting.source.toList.all isBlank = false ∧
      (scan 1 dict.setting.source).stop = .finished := by
  unfold readSource at h
  split at h
  · cases h
  · rename_i hText
    refine ⟨Bool.eq_false_iff.mpr hText, ?_⟩
    obtain ⟨c, s₁, -, hEnd⟩ := bind_eq_ok.mp h
    cases hStop : (scan 1 dict.setting.source).stop with
    | finished => rfl
    | illegal ch p =>
      rw [hStop] at hEnd
      cases hEnd

theorem resolve_of_readSource {dict : Dictionary} {s' : Scope} {e : Expr}
    (h : dict.readSource s = .ok e s') (list : List (String × Variable)) :
    ∃ r, dict.resolve ⟨s, list⟩ = .ok (.accepted e) r ∧ r.scope = s' ∧
      Resolving.Onward dict.Templateless ⟨s, list⟩ r := by
  obtain ⟨hText, hTokens⟩ := text_of_readSource h
  rw [readSource_eq_drive dict hText hTokens] at h
  obtain ⟨verdict, s₁, hDrive, hEnd⟩ := bind_eq_ok.mp h
  have hShadows := dict.resolve_agrees ⟨s, list⟩ trivial
  rw [hDrive] at hShadows
  generalize dict.resolve ⟨s, list⟩ = out at hShadows ⊢
  cases hShadows with
  | excused h => exact h.elim
  | ok hDone =>
    obtain ⟨-, hOnward, -⟩ := hDone
    cases verdict with
    | accepted e' =>
      cases hEnd
      exact ⟨_, rfl, rfl, hOnward⟩
    | blamed | unfinished => cases hEnd

end Dictionary

namespace Workshop

variable {request : Request} {w w' : Workshop} {p : Expr × Nat}

/-- **A source that is read** is read to the same tree with the list, which says truly what names
stood for. -/
theorem read_resolves (h : read request w = .ok p w') :
    (∃ r, (w.dictionary request).resolve ⟨Scope.start w.tenant, []⟩ = .ok (.accepted p.1) r ∧
      r.resolved = w.resolutions request ∧ w' = w.setTenant r.scope.tenant) ∧
    (w.inst.Templateless → w.inst.space.Settles w'.inst.space) ∧
    ∀ q ∈ w.resolutions request, Stood w.inst.Templateless w.inst.space q w'.inst.space := by
  obtain ⟨s, hSource, -, rfl⟩ := read_eq_ok.mp h
  obtain ⟨r, hResolve, rfl, hOnward⟩ := Dictionary.resolve_of_readSource hSource []
  have hList : w.resolutions request = r.resolved := by
    unfold resolutions
    rw [hResolve]
    rfl
  obtain ⟨new, hNew, hStood⟩ := hOnward.list
  refine ⟨⟨r, hResolve, hList.symm, rfl⟩, hOnward.settles, fun q hq => ?_⟩
  rw [hList, hNew] at hq
  exact hStood q hq

theorem read_of_compile {home : Nat} {a : Artifact} (h : compile home request w = .ok a w') :
    ∃ p w₁, read request w = .ok p w₁ ∧ w'.inst.queries = w.inst.queries ∧
      w'.inst.space.records = w₁.inst.space.records := by
  obtain ⟨-, p, w₁, d, room, t, routine, hRead, -, -, hCharge, -, -, rfl⟩ := compile_eq_ok.mp h
  obtain ⟨s, -, -, hScope⟩ := read_eq_ok.mp hRead
  refine ⟨p, w₁, hRead, congrArg (·.inst.queries) hScope, ?_⟩
  have hSpace := Tenant.chargeOwner_space (.code d.text.length)
    ⟨room.books, w₁.inst.owner, w₁.inst.space⟩
  rw [hCharge] at hSpace
  cases hSpace with
  | ok hSame => exact congrArg Namespace.records hSame

end Workshop

end MolangCompiler
