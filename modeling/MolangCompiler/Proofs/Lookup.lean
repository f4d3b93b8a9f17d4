import MolangCompiler.Proofs.Replaying
import MolangCompiler.Proofs.SinglePrecision

/-!
# What names stand for

A name in a source stands for the variable that has just this name, or else for the oldest one that
has it behind its size.  Variables are only ever added, so this changes in one way only: a variable
with just this name is added where there was none (`Namespace.find?_of_prefix`).  Sources and hosts
look a name up before they make a variable for it; whoever asks for a variable by its exact name, or
a template, does not.
-/

namespace MolangCompiler

open Ends

open Namespace

open Dictionary

/-! ## Namespaces -/

namespace Namespace

variable {ns ns' : Namespace} {v r r' : Variable} {name : String}

theorem name_of_get? (h : ns.get? name = some v) : v.name = name := by
  have hSame := List.find?_some h
  exact beq_iff_eq.mp hSame

/-- **What a name stands for** changes only if a variable with just this name is added. -/
theorem find?_of_prefix (h : ns.records <+: ns'.records) (hFound : ns.find? name = some r)
    (hFound' : ns'.find? name = some r') : r' = r ∨ r.name ≠ name ∧ r'.name = name := by
  obtain ⟨more, hMore⟩ := h
  cases hExact : ns.get? name with
  | some v =>
    have hStill : ns'.get? name = some v := by
      unfold get? at hExact ⊢
      rw [← hMore, List.find?_append, hExact]
      rfl
    unfold find? at hFound hFound'
    rw [hExact] at hFound
    rw [hStill] at hFound'
    cases hFound
    cases hFound'
    exact .inl rfl
  | none =>
    unfold find? at hFound hFound'
    rw [hExact, Option.none_or] at hFound
    have hSized : r.name ≠ name := fun hSame =>
      List.find?_eq_none.mp hExact r (List.mem_of_find?_eq_some hFound) (beq_iff_eq.mpr hSame)
    cases hExact' : ns'.get? name with
    | some v =>
      rw [hExact'] at hFound'
      cases hFound'
      exact .inr ⟨hSized, name_of_get? hExact'⟩
    | none =>
      rw [hExact', Option.none_or, ← hMore, List.find?_append, hFound] at hFound'
      cases hFound'
      exact .inl rfl

end Namespace

/-! ## Obtaining variables -/

namespace Tenant

/-- **Obtaining a variable** finds it by its exact name, or adds it. -/
theorem obtain_ends (name : String) (size : Int) (t : Tenant) : Ends (fun v t' =>
        (t.space.get? name = some v ∧ t'.space.records = t.space.records) ∨
        (t.space.get? name = none ∧ v.name = name ∧ t'.space.records = t.space.records ++ [v]))
      (fun t' => t'.space.records = t.space.records) (Tenant.obtain name size t) := by
  refine mono (obtain_space name size t) ?_ fun t' ⟨_, hSpace⟩ => congrArg (·.records) hSpace
  intro v t' hObtains
  generalize t'.space = ns at hObtains ⊢
  cases hObtains with
  | old hFound => exact .inl ⟨hFound, rfl⟩
  | new hMissing _ hMade => exact .inr ⟨hMissing, hMade ▸ rfl, rfl⟩

def Finds (name : String) (r : Variable) (t : Tenant) : Prop := t.space.find? name = some r

variable {name : String} {r : Variable}

theorem Finds.of_records {t t' : Tenant} (h : t.Finds name r)
    (hRecords : t'.space.records = t.space.records) : t'.Finds name r :=
  (find?_congr hRecords name).trans h

theorem obtain_finds {other : String} (hOther : other ≠ name) (size : Int) :
    Preserves (Finds name r) (Tenant.obtain other size) := by
  intro t h
  refine mono (obtain_ends other size t) ?_ fun t' hRecords => h.of_records hRecords
  rintro v t' (⟨-, hRecords⟩ | ⟨-, hName, hRecords⟩)
  · exact h.of_records hRecords
  · exact find?_of_append hRecords (hName ▸ hOther) h

theorem chargeOwner_finds (expense : Expense) : Preserves (Finds name r) (chargeOwner expense) :=
  .of_same (Q := fun ns : Namespace => ns.find? name = some r) space (chargeOwner_space expense)

/-- A name that stands for nothing is not the one that stands for a variable, with a size in front
of it or without. -/
theorem Finds.ne_sizedName {t : Tenant} (h : t.Finds name r) (hPlain : '$' ∉ name.toList)
    {other : String} (hMissing : t.space.find? other = none) (size : Int) :
    sizedName other size ≠ name := by
  rintro rfl
  rw [eq_of_sizedName_plain hPlain] at h
  cases hMissing.symm.trans h

/-- **A host that sets values** makes a variable only for a name that stands for nothing. -/
theorem setValues_finds (hPlain : '$' ∉ name.toList) (other : String) (vs : List Float) :
    Preserves (Finds name r) (setValues other vs) := by
  intro t h
  have hKeeps : Stays (.holding (Finds name r)) (setValues other vs) t := by
    refine setValues_course (P := fun _ _ => True) (fun _ _ => trivial) (fun hFind => ?_) ?_
    · exact (obtain_finds (h.ne_sizedName hPlain hFind _) _).keeps t
    · exact fun _ _ _ _ h' => ⟨h'.of_records (write_eq _ _ _).1, trivial⟩
  exact mono (hKeeps h) (fun _ _ h' => h'.1) fun _ h' => h'.1

end Tenant

/-! ## Names in a source -/

theorem plain_of_variableName? {text name : String} (hText : PlainName text)
    (h : variableName? text = some name) : '$' ∉ name.toList := by
  rw [← (variableName?_eq_some h).2.1]
  exact dollar_not_mem_rest hText

namespace Dictionary

open Reading

def Templateless (dict : Dictionary) : Prop :=
  ∀ q ∈ dict.queries, q.2.Direct

variable {dict : Dictionary} {text : String} {pos : Nat} {s s' : Scope} {parts : List Expr}

/-- **Without templates** what names no variable leaves the variables alone, and the returns. -/
theorem Builds.aside (hTemplateless : dict.Templateless) {e : Expr} (h : dict.Builds s parts e s') :
    s'.tenant = s.tenant ∧ s'.returnWidth = s.returnWidth := by
  cases h with
  | temp hLends => exact hLends.aside
  | query hMem hExpand =>
    obtain ⟨_, -, -, hExpands⟩ := Query.expands_of_ok (hTemplateless _ hMem) hExpand
    cases hExpands with
    | helper | constant | host | clamp | lerp => exact ⟨rfl, rfl⟩
  | _ => exact ⟨rfl, rfl⟩

/-- **Without templates** an action changes nothing when it fails, unless a variable cannot be made;
if the source is to blame, then as `P` says of its tokens. -/
theorem Fails.cases {q : Lexeme → Nat → Prop} {P : SourceError → Prop} {f : Failure}
    (hTemplateless : dict.Templateless)
    (hP : ∀ start stop, Lexeme.Marks q start stop → dict.setting.Allows P start stop)
    (h : dict.Fails q s parts f s') : (s' = s ∧ f.Other P) ∨ ∃ text p name size, q (.name text) p ∧
      variableName? text = some name ∧ (size = 1 ∨ ∃ e ∈ parts, size = e.width) ∧
      s.Misses name size f s' := by
  cases h with
  | source hMarks => exact .inl ⟨rfl, hP _ _ hMarks _⟩
  | tree => exact .inl ⟨rfl, trivial⟩
  | query hMarks hMem hExpand =>
    exact .inl ((Query.expand_concludes (hTemplateless _ hMem) (hP _ _ hMarks) _).of_error hExpand)
  | foreign hMem hExpand hNode =>
    obtain ⟨e, rfl, -⟩ := Query.expands_of_ok (hTemplateless _ hMem) hExpand
    exact absurd rfl (hNode e)
  | named hText hName hSize hMisses => exact .inr ⟨_, _, _, _, hText, hName, hSize, hMisses⟩

theorem call_aside (hTemplateless : dict.Templateless) (args : List Expr) :
    Aside (dict.call text pos args) := by
  unfold call
  dsimp only
  cases hFind : Query.find? dict.queries (canonicalName text) with
  | none => exact .fail _ _ _ _
  | some query =>
    obtain ⟨q, hFound, rfl⟩ := Option.map_eq_some_iff.mp hFind
    refine .bind (.expand (hTemplateless q (List.mem_of_find?_eq_some hFound)) _ _ _ _ _)
      fun node => ?_
    cases node with
    | expr e => exact .pure e
    | stmt | foreign => exact .throw _

theorem name_aside (hTemplateless : dict.Templateless) (h : variableName? text = none) :
    Aside (dict.name text pos) := by
  unfold name
  dsimp only
  rw [if_neg (variableName?_eq_none h)]
  split
  · exact .bind (.tempLocal _ _) fun index => .pure _
  · split
    · split
      · exact .pure _
      · exact .fail _ _ _ _
    · split
      · exact .fail _ _ _ _
      · exact .ofTree _
      · split
        · exact call_aside hTemplateless []
        · exact .fail _ _ _ _

theorem assign_aside (h : variableName? text = none) (value : Expr) :
    Aside (dict.assign text pos value) := by
  unfold assign
  dsimp only
  rw [if_neg (variableName?_eq_none h)]
  split
  · split
    · exact .bind (.fail _ _ _ _) fun _ => .bind (.tempLocal _ _) fun _ => .pure _
    · exact .bind (.tempLocal _ _) fun index => .pure _
  · exact .fail _ _ _ _

/-- **Without templates** a source reaches variables by their names only. -/
theorem variables_compared {c : Comparison Scope Scope} (hAside : c.CoversAside)
    (hRead : ∀ name, '$' ∉ name.toList → name ≠ "" → c.Like (readVariable name) (readVariable name))
    (hAssign : ∀ st name pos stop value, '$' ∉ name.toList → name ≠ "" →
      c.Like (assignVariable st name pos stop value) (assignVariable st name pos stop value))
    (hTemplateless : dict.Templateless) : dict.Compared c PlainName dict where
  aside := hAside
  setting := rfl
  name {text} hText position := by
    cases hName : variableName? text with
    | none => exact hAside (name_aside hTemplateless hName)
    | some name =>
      rw [name_of_variable hName]
      exact hRead name (plain_of_variableName? hText hName) (variableName?_eq_some hName).2.2
  assign {text} hText pos value := by
    cases hName : variableName? text with
    | none => exact hAside (assign_aside hName value)
    | some name =>
      rw [assign_of_variable hName]
      exact hAssign _ name _ _ value (plain_of_variableName? hText hName)
        (variableName?_eq_some hName).2.2
  call _ pos args := hAside (call_aside hTemplateless args)

end Dictionary

/-! ## Instances that move on -/

/-- Variables were added to a namespace; if all is calm, a name goes on to stand for what it stood
for. -/
structure Namespace.Leaves (calm : Prop) (name : String) (ns ns' : Namespace) : Prop where
  records : ns.records <+: ns'.records
  finds : calm → ∀ r, ns.find? name = some r → ns'.find? name = some r

variable {α : Type}

namespace Namespace.Leaves

variable {calm : Prop} {name : String} {ns ns₁ ns₂ ns₃ : Namespace}

theorem of_records (h : ns₂.records = ns₁.records) : ns₁.Leaves calm name ns₂ where
  records := ⟨[], (List.append_nil _).trans h.symm⟩
  finds _ _ hFound := (find?_congr h name).trans hFound

theorem trans (h : ns₁.Leaves calm name ns₂) (h' : ns₂.Leaves calm name ns₃) :
    ns₁.Leaves calm name ns₃ where
  records := h.records.trans h'.records
  finds hCalm r hFound := h'.finds hCalm r (h.finds hCalm r hFound)

/-- Two facts about a run: it adds variables, and it leaves alone what the name stands for. -/
theorem of_ends {σ : Type} {space : σ → Namespace} {x : Outcome σ α}
    (hAdds : Ends (fun _ s => ns.records <+: (space s).records)
      (fun s => ns.records <+: (space s).records) x) (hFinds : calm → ∀ r, ns.find? name = some r →
      Ends (fun _ s => (space s).find? name = some r) (fun s => (space s).find? name = some r) x) :
    Ends (fun _ s => ns.Leaves calm name (space s)) (fun s => ns.Leaves calm name (space s)) x := by
  cases hAdds with
  | ok hRecords =>
    refine .ok ⟨hRecords, fun hCalm r hFound => ?_⟩
    cases hFinds hCalm r hFound with
    | ok h => exact h
  | error hRecords =>
    refine .error ⟨hRecords, fun hCalm r hFound => ?_⟩
    cases hFinds hCalm r hFound with
    | error h => exact h

end Namespace.Leaves

/-- An instance has moved on.  As long as it is spared a variable with just this name, and has no
templates, the name goes on to stand for what it stood for. -/
structure Instance.Follows (spared : Prop) (name : String) (i i' : Instance) : Prop where
  queries : i'.queries = i.queries
  space : i.space.Leaves (spared ∧ i.Templateless) name i'.space

namespace Instance.Follows

variable {spared : Prop} {name : String} {i i₁ i₂ i₃ : Instance}

theorem templateless (h : i₁.Follows spared name i₂) (h₁ : i₁.Templateless) : i₂.Templateless := by
  unfold Templateless
  rw [h.queries]
  exact h₁

theorem of_space (hQueries : i₂.queries = i₁.queries)
    (hSpace : i₂.space.records = i₁.space.records) :
    i₁.Follows spared name i₂ := ⟨hQueries, .of_records hSpace⟩

theorem refl (i : Instance) : i.Follows spared name i := of_space rfl rfl

theorem trans (h : i₁.Follows spared name i₂) (h' : i₂.Follows spared name i₃) :
    i₁.Follows spared name i₃ where
  queries := h'.queries.trans h.queries
  space := by
    refine h.space.trans ⟨h'.space.records, fun hCalm => h'.space.finds ?_⟩
    exact ⟨hCalm.1, h.templateless hCalm.2⟩

end Instance.Follows

/-! ## What leaves names alone -/

namespace Tenant

/-- Variables are added. -/
def adding : Course Tenant where
  ok _ := True
  le t t' := t.space.records <+: t'.space.records
  refl _ := List.prefix_rfl
  trans h h' := h.trans h'

theorem adding_of_same {t t' : Tenant} (h : t'.space.records = t.space.records) : adding.le t t' :=
  ⟨[], (List.append_nil _).trans h.symm⟩

theorem obtain_adds (name : String) (size : Int) (t : Tenant) :
    Stays adding (Tenant.obtain name size) t := by
  refine fun _ => mono (obtain_ends name size t) ?_ fun t' h => ⟨trivial, adding_of_same h⟩
  rintro v t' (⟨-, hRecords⟩ | ⟨-, -, hRecords⟩)
  · exact ⟨trivial, adding_of_same hRecords, trivial⟩
  · exact ⟨trivial, ⟨[v], hRecords.symm⟩, trivial⟩

theorem chargeOwner_adds (expense : Expense) (t : Tenant) : Stays adding (chargeOwner expense) t :=
  fun _ => mono (chargeOwner_space expense t)
    (fun _ _ h => ⟨trivial, adding_of_same (congrArg _ h), trivial⟩)
    fun _ h => ⟨trivial, adding_of_same (congrArg _ h)⟩

theorem setValues_adds (name : String) (vs : List Float) (t : Tenant) :
    Stays adding (setValues name vs) t :=
  setValues_course (fun _ _ => trivial) (fun _ => obtain_adds _ _ t)
    fun _ _ _ _ _ => ⟨trivial, adding_of_same (write_eq _ _ _).1⟩

end Tenant

namespace Workshop

variable {spared : Prop} {name : String} {i : Instance}

abbrev Follows (spared : Prop) (name : String) (i : Instance) (w : Workshop) : Prop :=
  i.Follows spared name w.inst

theorem onTenant_follows {act : Act Tenant α} (hAdds : ∀ t, Stays Tenant.adding act t)
    (hFinds : spared → ∀ r, Preserves (Tenant.Finds name r) act) :
    Preserves (Follows spared name i) (onTenant act) := by
  intro w hw
  have hLeaves : Ends (fun _ t => w.inst.space.Leaves spared name t.space)
      (fun t => w.inst.space.Leaves spared name t.space) (act w.tenant) :=
    Leaves.of_ends (mono (hAdds w.tenant trivial) (fun _ _ h => h.2.1) fun _ h => h.2)
      fun hSpared r hFound => hFinds hSpared r w.tenant hFound
  have hAfter {t : Tenant} (h : w.inst.space.Leaves spared name t.space) :
      (w.setTenant t).Follows spared name i :=
    hw.trans ⟨rfl, h.records, fun hCalm => h.finds hCalm.1⟩
  exact onPart_ends (mono hLeaves (fun _ _ => hAfter) fun _ => hAfter)

theorem onScratch_follows (act : Act ScratchRoom α) :
    Preserves (Follows spared name i) (onScratch act) := by
  intro w hw
  have hAfter (room : ScratchRoom) : i.Follows spared name { w.inst with scratch :=
    room.scratch } :=
    hw.trans (.of_space rfl rfl)
  unfold onScratch onPart
  cases act ⟨w.books, w.inst.scratch⟩ with
  | ok a room => exact .ok (hAfter room)
  | error e room => exact .error (hAfter room)

theorem note_follows (n : Note) : Preserves (Follows spared name i) (note n) := .modify fun _ h => h

/-- **Reading a source** without templates leaves alone what a name stands for. -/
theorem read_finds (hPlain : '$' ∉ name.toList) (request : Request) {w : Workshop} {r : Variable}
    (hTemplateless : w.inst.Templateless) (hFound : w.tenant.Finds name r) :
    Ends (fun _ w' => w'.tenant.Finds name r) (fun w' => w'.tenant.Finds name r)
      (read request w) := by
  let finding := (Course.holding fun t : Tenant => t.Finds name r).on Scope.tenant
  have hKeeps {α : Type} {x : Reading α} (h : ∀ s, Ends (fun _ s' => s.space.Settles s'.space)
      (fun s' => s'.space.records = s.space.records) (x s)) :
      (Comparison.keeping finding).Like x x := by
    intro s hs
    refine mono (h s) (fun _ s' hSettles => ?_) fun s' hRecords => ?_
    · exact ⟨hSettles name r hPlain hs, trivial, trivial⟩
    · exact ⟨Tenant.Finds.of_records hs hRecords, trivial⟩
  have hSource : (Comparison.keeping finding).Like (w.dictionary request).readSource
      (w.dictionary request).readSource := by
    refine readSource_compared (variables_compared ?_ ?_ ?_ hTemplateless) (scan_plainNames 1 _)
    · exact fun hAside => hAside.stays _
    · intro other hOther hSome
      refine hKeeps fun s => mono (readVariable_meets hOther hSome s) ?_ fun _ h => h
      rintro e s' ⟨v, -, hMeets, -⟩
      exact hMeets.settles
    · intro st other pos stop value hOther hSome
      refine hKeeps fun s => mono (assignVariable_meets hOther hSome s) ?_ fun _ h => h
      rintro t s' ⟨v, -, -, hMeets, -⟩
      exact hMeets.settles
  exact read_ends (mono (hSource (Scope.start w.tenant) hFound) (fun _ _ h => h.1) fun _ h => h.1)

/-- Reading a source only adds variables. -/
theorem read_adds (request : Request) (w : Workshop) :
    Ends (fun _ w' => w'.inst.queries = w.inst.queries ∧
        w.inst.space.records <+: w'.inst.space.records)
      (fun w' => w'.inst.queries = w.inst.queries ∧
        w.inst.space.records <+: w'.inst.space.records) (read request w) := by
  have hSource := readSource_onTenant Tenant.obtain_adds (w.dictionary request)
    (.start w.tenant) trivial
  exact read_ends (mono hSource (fun _ _ h => ⟨rfl, h.2.1⟩) fun _ h => ⟨rfl, h.2⟩)

/-- **Reading a source** moves an instance on. -/
theorem read_follows (hPlain : '$' ∉ name.toList) (request : Request) :
    Preserves (Follows spared name i) (read request) := by
  intro w hw
  have hAdds := read_adds request w
  have hLeaves :
      Ends (fun _ w' => w.inst.space.Leaves (spared ∧ w.inst.Templateless) name w'.inst.space)
      (fun w' => w.inst.space.Leaves (spared ∧ w.inst.Templateless) name w'.inst.space)
      (read request w) :=
    Leaves.of_ends (mono hAdds (fun _ _ h => h.2) fun _ h => h.2)
      fun hCalm r hFound => read_finds hPlain request hCalm.2 hFound
  exact mono (hAdds.and hLeaves) (fun _ _ h => hw.trans ⟨h.1.1, h.2⟩)
    fun _ h => hw.trans ⟨h.1.1, h.2⟩

/-- **Compiling** moves an instance on, whether it fails or not. -/
theorem compile_follows (hPlain : '$' ∉ name.toList) (home : Nat) (request : Request) :
    Preserves (Follows spared name i) (compile home request) := by
  refine .of_keeps (compile_course home request (read_follows hPlain request).keeps ?_ ?_ ?_ ?_)
  · exact fun _ _ h => ⟨h.trans (.of_space rfl rfl), trivial⟩
  · exact fun _ => (onScratch_follows _).keeps
  · exact fun _ => (onTenant_follows (Tenant.chargeOwner_adds _) fun _ _ =>
      Tenant.chargeOwner_finds _).keeps
  · exact fun n _ => (note_follows n).keeps

end Workshop

end MolangCompiler
