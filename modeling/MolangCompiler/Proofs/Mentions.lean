import MolangCompiler.Proofs.Lookup
import MolangCompiler.Proofs.Placed

/-!
# Variables that a source mentions

A name that stands for a variable already is met with that variable.  Otherwise a variable is made:
with one value where it is read, and with as many values as the assignment has where it is assigned.
From then on the name stands for it, so a name makes at most one variable.

The tree of a source has no names, but it still has the variables.  Its references, in the order in
which their constructs end, are the mentions of the source in the order in which they were met
(`Expr.references`), so the first reference to a variable is the one that made it.
-/

namespace MolangCompiler

open MolangCompiler.Expr

/-! ## References of trees -/

theorem Expr.referencesOf_append (es es' : List Expr) :
    referencesOf (es ++ es') = referencesOf es ++ referencesOf es' := by
  induction es with
  | nil => simp [referencesOf]
  | cons e rest ih => simp [referencesOf, ih]

theorem Stmt.referencesOf_append (l l' : List Stmt) :
    referencesOf (l ++ l') = referencesOf l ++ referencesOf l' := by
  induction l with
  | nil => simp [referencesOf]
  | cons t rest ih => simp [referencesOf, ih]

/-! ## Mentions of sources -/

/-- The variable that a name in a source mentions, and what the name is used for. -/
def Site.mention? (site : Site) : Option (String × Usage) :=
  if site.usage = .called then none else (variableName? site.text).map (·, site.usage)

def mentions (M : Multiset Site) : Multiset (String × Usage) := M.filterMap Site.mention?

/-- The variables that a source mentions, each as often as it does. -/
def sourceMentions (source : String) : Multiset (String × Usage) :=
  mentions (nameSites (scan 1 source).tokens)

/-- A variable that a source mentions. -/
def Mentioned (source name : String) : Prop := ∃ usage, (name, usage) ∈ sourceMentions source

private theorem mentions_cons_none {site : Site} (h : site.mention? = none) (M : Multiset Site) :
    mentions (site ::ₘ M) = mentions M := Multiset.filterMap_cons_none site M h

private theorem mentions_cons_some {site : Site} {m : String × Usage} (h : site.mention? = some m)
    (M : Multiset Site) : mentions (site ::ₘ M) = m ::ₘ mentions M :=
  Multiset.filterMap_cons_some _ site M h

/-! ## What mentions do to a namespace -/

namespace Namespace

variable {ns ns₁ ns₂ : Namespace} {n : String} {a : Reference} {v : Variable}

theorem base_of_find? (hPlain : '$' ∉ n.toList) (hSome : n ≠ "") (h : ns.find? n = some v) :
    v.base = n := by
  rcases Option.or_eq_some_iff.mp h with hExact | ⟨-, hOldest⟩
  · have hBase : baseName (sizedName n 1) = n := baseName_sizedName hPlain hSome
    unfold Variable.base
    rw [name_of_get? hExact]
    simpa [sizedName] using hBase
  · have hSame := List.find?_some hOldest
    exact beq_iff_eq.mp hSame

theorem base_ne_of_find? (h : ns.find? n = none) (hv : v ∈ ns.records) : v.base ≠ n := by
  intro hBase
  exact List.find?_eq_none.mp (Option.or_eq_none_iff.mp h).2 v hv (beq_iff_eq.mpr hBase)

/-- **What mentions have made of a namespace.**  Their names stand for the variables that they met.
Of these the `new` ones were added, one for each name that stood for nothing, and each of them has
as many values as its first reference says. -/
structure Accounts (ns : Namespace) (ms : List (String × Reference)) (new : List Variable)
    (ns' : Namespace) : Prop where
  plain : ∀ m ∈ ms, '$' ∉ m.1.toList ∧ m.1 ≠ ""
  records : ns'.records = ns.records ++ new
  finds : ∀ m ∈ ms, ns'.find? m.1 = some m.2.target
  distinct : (new.map Variable.base).Nodup
  missing : ∀ n, n ∈ new.map Variable.base ↔ n ∈ ms.map Prod.fst ∧ ns.find? n = none
  named : ∀ v ∈ new, v.name = sizedName v.base v.size
  sized : ∀ v ∈ new, ∃ a, (ms.map Prod.snd).find? (·.target = v) = some a ∧ v.size = a.width

namespace Accounts

variable {ms : List (String × Reference)} {new : List Variable}

theorem nil (ns : Namespace) : ns.Accounts [] [] ns where
  plain _ hm := absurd hm List.not_mem_nil
  records := (List.append_nil _).symm
  finds _ hm := absurd hm List.not_mem_nil
  distinct := .nil
  missing n := by simp
  named _ hv := absurd hv List.not_mem_nil
  sized _ hv := absurd hv List.not_mem_nil

section

variable (h : ns.Accounts ms new ns₁)
include h

theorem congr (hRecords : ns₂.records = ns₁.records) : ns.Accounts ms new ns₂ where
  plain := h.plain
  records := hRecords.trans h.records
  finds m hm := (find?_congr hRecords m.1).trans (h.finds m hm)
  distinct := h.distinct
  missing := h.missing
  named := h.named
  sized := h.sized

theorem base_mem_new (hPlain : '$' ∉ n.toList) (hSome : n ≠ "")
    (hMissing : ns.find? n = none) (hFound : ns₁.find? n = some v) : n ∈ new.map Variable.base := by
  have hBase := base_of_find? hPlain hSome hFound
  have hMem := mem_of_find? hFound
  rw [h.records] at hMem
  rcases List.mem_append.mp hMem with hOld | hNew
  · exact absurd hBase (base_ne_of_find? hMissing hOld)
  · exact List.mem_map.mpr ⟨v, hNew, hBase⟩

theorem finds_new (hv : v ∈ new) : ns₁.find? v.base = some v := by
  obtain ⟨a, hFirst, -⟩ := h.sized v hv
  obtain ⟨m, hm, rfl⟩ := List.mem_map.mp (List.mem_of_find?_eq_some hFirst)
  have hFound := h.finds m hm
  have hSame := List.find?_some hFirst
  obtain rfl : m.2.target = v := of_decide_eq_true hSame
  rwa [base_of_find? (h.plain m hm).1 (h.plain m hm).2 hFound]

theorem sized_snoc (m : String × Reference) (hv : v ∈ new) :
    ∃ a, ((ms ++ [m]).map Prod.snd).find? (·.target = v) = some a ∧ v.size = a.width := by
  obtain ⟨a, hFirst, hSize⟩ := h.sized v hv
  refine ⟨a, ?_, hSize⟩
  rw [List.map_append, List.find?_append, hFirst]
  rfl

/-- **One more mention.** -/
theorem meet (hMeets : ns₁.Meets n a.width a.target ns₂) (hPlain : '$' ∉ n.toList)
    (hSome : n ≠ "") : ∃ new', ns.Accounts (ms ++ [(n, a)]) new' ns₂ := by
  have hFinds : ∀ m ∈ ms ++ [(n, a)], ns₂.find? m.1 = some m.2.target := by
    refine forall_mem_snoc (fun m hm => ?_) (hMeets.finds hPlain hSome)
    exact hMeets.settles m.1 _ (h.plain m hm).1 (h.finds m hm)
  have hPlains : ∀ m ∈ ms ++ [(n, a)], '$' ∉ m.1.toList ∧ m.1 ≠ "" :=
    forall_mem_snoc h.plain ⟨hPlain, hSome⟩
  cases hMeets with
  | found hFound hRecords =>
    refine ⟨new, hPlains, hRecords.trans h.records, hFinds, h.distinct, fun k => ?_, h.named,
      fun v hv => h.sized_snoc _ hv⟩
    rw [h.missing, List.map_append, List.mem_append]
    constructor
    · exact fun hOld => ⟨.inl hOld.1, hOld.2⟩
    · rintro ⟨hOld | hHere, hMissing⟩
      · exact ⟨hOld, hMissing⟩
      · obtain rfl : k = n := List.mem_singleton.mp hHere
        exact (h.missing k).mp (h.base_mem_new hPlain hSome hMissing hFound)
  | made hMissing hNamed hSized hRecords =>
    have hBase := Variable.base_of_named hPlain hSome hNamed
    have hAbsent : ns.find? n = none := by
      cases hFound : ns.find? n with
      | none => rfl
      | some v =>
        have hOld : v ∈ ns₁.records := by
          rw [h.records]
          exact List.mem_append_left _ (mem_of_find? hFound)
        exact absurd (base_of_find? hPlain hSome hFound) (base_ne_of_find? hMissing hOld)
    refine ⟨new ++ [a.target], hPlains, ?_, hFinds, ?_, fun k => ?_, ?_, ?_⟩
    · rw [hRecords, h.records, List.append_assoc]
    · rw [List.map_append]
      refine List.Nodup.append h.distinct (List.nodup_singleton _) fun k hOld hHere => ?_
      obtain ⟨u, hu, rfl⟩ := List.mem_map.mp hOld
      have hRecord : u ∈ ns₁.records := by
        rw [h.records]
        exact List.mem_append_right _ hu
      exact base_ne_of_find? hMissing hRecord ((List.mem_singleton.mp hHere).trans hBase)
    · rw [List.map_append, List.mem_append, h.missing, List.map_append, List.mem_append]
      simp only [List.map_cons, List.map_nil, List.mem_singleton, hBase]
      constructor
      · rintro (hOld | rfl)
        · exact ⟨.inl hOld.1, hOld.2⟩
        · exact ⟨.inr rfl, hAbsent⟩
      · rintro ⟨hOld | hHere, hNone⟩
        · exact .inl ⟨hOld, hNone⟩
        · exact .inr hHere
    · refine forall_mem_snoc h.named ?_
      rw [hBase, hSized]
      exact hNamed
    · refine forall_mem_snoc (fun v hv => h.sized_snoc _ hv) ⟨a, ?_, hSized⟩
      -- no earlier reference can have been to a variable that was not there
      have hBefore : (ms.map Prod.snd).find? (·.target = a.target) = none := by
        refine List.find?_eq_none.mpr fun b hb hSame => ?_
        obtain ⟨m, hm, rfl⟩ := List.mem_map.mp hb
        have hThere := mem_of_find? (h.finds m hm)
        rw [of_decide_eq_true hSame] at hThere
        exact base_ne_of_find? hMissing hThere hBase
      rw [List.map_append, List.find?_append, hBefore]
      simp

end

end Accounts

end Namespace

/-! ## Readings -/

/-- The names that were met, each with what it was used for. -/
def metNames (ms : List (String × Reference)) : Multiset (String × Usage) :=
  (ms.map fun m => (m.1, m.2.usage) : List (String × Usage))

/-- What has been met while a source is read: the names that still wait and the mentions met so far
are those of the whole source, and the mentions account for the variables. -/
def Scope.Met (ns : Namespace) (source : String) (M : Multiset Site) (A : List Reference)
    (s : Scope) : Prop :=
  ∃ ms new, ms.map Prod.snd = A ∧ ns.Accounts ms new s.space ∧
    metNames ms + mentions M = sourceMentions source

namespace Scope.Met

variable {ns : Namespace} {source : String} {M N : Multiset Site} {A : List Reference}
    {s s' : Scope}

theorem congr (h : s.Met ns source M A) (hRecords : s'.space.records = s.space.records) :
    s'.Met ns source M A := by
  obtain ⟨ms, new, hA, hAccounts, hCount⟩ := h
  exact ⟨ms, new, hA, hAccounts.congr hRecords, hCount⟩

theorem skip (h : s.Met ns source (N + M) A)
    (hQuiet : ∀ site ∈ N, site.usage = .called ∨ variableName? site.text = none) :
    s.Met ns source M A := by
  obtain ⟨ms, new, hA, hAccounts, hCount⟩ := h
  refine ⟨ms, new, hA, hAccounts, hCount ▸ congrArg (metNames ms + ·) ?_⟩
  clear hCount
  induction N using Multiset.induction_on with
  | empty => rw [zero_add]
  | cons site N ih =>
    have hSite : site.mention? = none := by
      unfold Site.mention?
      rcases hQuiet site (Multiset.mem_cons_self site N) with hCalled | hNone
      · rw [if_pos hCalled]
      · rw [hNone, Option.map_none, ite_self]
    rw [Multiset.cons_add, mentions_cons_none hSite]
    exact ih fun other hOther => hQuiet other (Multiset.mem_cons_of_mem hOther)

theorem meet {text n : String} {p : Nat} {a : Reference}
    (h : s.Met ns source ({⟨text, p, a.usage⟩} + M) A)
    (hText : PlainName text) (hName : variableName? text = some n)
    (hGets : s.Gets n a.width a.target s') : s'.Met ns source M (A ++ [a]) := by
  obtain ⟨ms, new, rfl, hAccounts, hCount⟩ := h
  obtain ⟨-, -, hSome⟩ := variableName?_eq_some hName
  have hPlain := plain_of_variableName? hText hName
  obtain ⟨new', hAccounts'⟩ :=
    hAccounts.meet (Dictionary.meeting_of_gets hPlain hSome hGets).1 hPlain hSome
  have hSite : (⟨text, p, a.usage⟩ : Site).mention? = some (n, a.usage) := by
    cases a with
    | read | assign => simp [Site.mention?, Reference.usage, hName]
  refine ⟨ms ++ [(n, a)], new', by simp, hAccounts', ?_⟩
  rw [Multiset.singleton_add, mentions_cons_some hSite] at hCount
  rw [← hCount, metNames, List.map_append, ← Multiset.coe_add, add_assoc]
  rfl

end Scope.Met

/-- Reading has failed after some of the mentions were met. -/
def Scope.Interrupted (ns : Namespace) (source : String) (s : Scope) : Prop :=
  ∃ M A, s.Met ns source M A

/-- Readings that meet the variables that a source mentions.  The references met so far are those of
the finished statements and of the expressions in the machine, in this order. -/
def meeting (ns : Namespace) (source : String) : View Scope Scope Scope Expr Stmt where
  rel p x _ s := Concludes p (fun _ s' => s'.Interrupted ns source) (x s)
  pure h := .ok h
  bind h hNext := .bind h hNext
  later _ _ := True
  refl _ := trivial
  fits _ _ := True
  mono _ _ := trivial
  stands l _ := l.Named PlainName
  pending M K l s := s.Met ns source M (Stmt.referencesOf l ++ Expr.referencesOf K)
  whole M s e := s.Met ns source M e.references
  whole_of_fits _ hS := by simpa [Stmt.referencesOf, Expr.referencesOf] using hS
  fails := (·.Interrupted ns source)
  fails_of_pending hS := ⟨_, _, hS⟩
  fails_of_whole hS := ⟨_, _, hS⟩

namespace Dictionary

variable {dict : Dictionary} (hTemplateless : dict.Templateless)
include hTemplateless

theorem Builds.references_eq {s s' : Scope} {parts : List Expr} {e : Expr}
    (h : dict.Builds s parts e s') : e.references = referencesOf parts := by
  cases h with
  | query hMem hExpand =>
    obtain ⟨e, hNode, -, hExpands⟩ := Query.expands_of_ok (hTemplateless _ hMem) hExpand
    cases hNode
    exact hExpands.references_eq
  | _ => simp [references, referencesOf]

/-- **The actions of a dictionary** meet the variables that a source mentions. -/
theorem meeting_honoured (ns : Namespace) (source : String) :
    dict.Honours (meeting ns source) fun _ s' => s'.Interrupted ns source where
  rel h := h
  forms hForms _ hS := by
    refine ⟨trivial, trivial, ?_⟩
    cases hForms with
    | quiet hQuiet hBuilds =>
      have hMet := (Scope.Met.skip hS hQuiet).congr (congrArg (·.space.records)
        (hBuilds.aside hTemplateless).1)
      simpa [meeting, referencesOf_append, referencesOf, hBuilds.references_eq hTemplateless]
        using hMet
    | named hText hName hGets =>
      have hMet := Scope.Met.meet (a := .read _) hS hText hName hGets
      simpa [meeting, referencesOf_append, referencesOf, references] using hMet
  closes {M N l value t s s'} hCloses _ hS := by
    have hQuiet (hSites : ∀ site ∈ N, site.usage = .called ∨ variableName? site.text = none)
        (hTenant : s'.tenant = s.tenant) (hT : t.references = value.references) :
        (meeting ns source).pending M [] (l ++ [t]) s' := by
      have hMet := (Scope.Met.skip hS hSites).congr (congrArg (·.space.records) hTenant)
      simpa [meeting, Stmt.referencesOf_append, Stmt.referencesOf, referencesOf, hT] using hMet
    cases hCloses with
    | discard | first | again =>
      exact hQuiet (fun _ h => absurd h (Multiset.notMem_zero _)) rfl (by rw [Stmt.references])
    | temp hText _ hLends =>
      exact hQuiet (fun site hSite => .inr (Multiset.mem_singleton.mp hSite ▸ hText)) hLends.aside.1
        (by rw [Stmt.references])
    | named hText hName hGets =>
      have hMet := Scope.Met.meet (a := .assign _ _) hS hText hName hGets
      simpa [meeting, Stmt.referencesOf_append, Stmt.referencesOf, Stmt.references,
        referencesOf] using hMet
  fails hFails _ hS := by
    rcases hFails.cases hTemplateless fun _ _ _ => Setting.allows_any with
      ⟨rfl, -⟩ | ⟨text, p, name, size, hText, hName, -, hMisses⟩
    · exact ⟨_, _, hS⟩
    · exact ⟨_, _, .congr hS (records_of_misses (plain_of_variableName? hText hName)
        (variableName?_eq_some hName).2.2 hMisses)⟩
  sequence hS := by simpa [meeting, referencesOf, references] using hS

end Dictionary

namespace Workshop

/-- **Reading a source** meets all variables that it mentions, or some of them if it fails. -/
theorem read_accounts (r : Request) {w : Workshop} (hTemplateless : w.inst.Templateless) :
    Ends (fun p w' => ∃ ms new, w.inst.space.Accounts ms new w'.inst.space ∧
        ms.map Prod.snd = p.1.references ∧ metNames ms = sourceMentions r.source)
      (fun w' => ∃ ms new, w.inst.space.Accounts ms new w'.inst.space ∧
        metNames ms ≤ sourceMentions r.source) (read r w) := by
  have hDict : (w.dictionary r).Templateless := hTemplateless
  have hStart : (Scope.start w.tenant).Met w.inst.space r.source
      (nameSites (scan 1 r.source).tokens) [] :=
    ⟨[], [], rfl, .nil _, zero_add _⟩
  have hRead : Concludes _ _ ((w.dictionary r).readSource (.start w.tenant)) :=
    (Dictionary.meeting_honoured hDict w.inst.space r.source).readSource (fun _ hFails => hFails)
      (scan_plainNames 1 r.source) hStart
  refine read_ends (hRead.ends ?_ ?_)
  · rintro e s ⟨ms, new, hReferences, hAccounts, hCount⟩
    exact ⟨ms, new, hAccounts, hReferences, by simpa [mentions] using hCount⟩
  · rintro _ s ⟨M, A, ms, new, -, hAccounts, hCount⟩
    exact ⟨ms, new, hAccounts, hCount ▸ Multiset.le_add_right _ _⟩

theorem mentioned_of_mem {ms : List (String × Reference)} {source n : String}
    (h : metNames ms ≤ sourceMentions source) (hn : n ∈ ms.map Prod.fst) : Mentioned source n := by
  obtain ⟨m, hm, rfl⟩ := List.mem_map.mp hn
  exact ⟨m.2.usage, Multiset.mem_of_le h (List.mem_map.mpr ⟨m, hm, rfl⟩)⟩

/-- **Reading makes the variables that are mentioned and missing.**  A reading that succeeds has
added one variable for each name that the source mentions and that stood for nothing before, and no
others.  Such a variable has one value if the first reference to it in the tree is a read, and
otherwise as many as are assigned there; its name stands for it, and the tree has no references to
other variables with its name.  The references of the tree are the mentions of the source, each with
the variable that its name stands for.  A reading that fails may have added some of these variables,
each once. -/
theorem reading_makes_what_is_mentioned (r : Request) {w : Workshop}
    (hTemplateless : w.inst.Templateless) :
    (∀ e temps w', read r w = .ok (e, temps) w' →
      ∃ new, w'.inst.space.records = w.inst.space.records ++ new ∧
        (new.map Variable.base).Nodup ∧
        (∀ n, n ∈ new.map Variable.base ↔ Mentioned r.source n ∧ w.inst.space.find? n = none) ∧
        (∀ v ∈ new, w'.inst.space.find? v.base = some v ∧
          (∃ a, e.references.find? (·.target = v) = some a ∧ v.size = a.width) ∧
          ∀ a ∈ e.references, a.target.base = v.base → a.target = v) ∧
        (e.references : Multiset Reference).map (fun a => (some a.target, a.usage)) =
          (sourceMentions r.source).map fun m => (w'.inst.space.find? m.1, m.2)) ∧
    ∀ f w', read r w = .error f w' →
      ∃ new, w'.inst.space.records = w.inst.space.records ++ new ∧
        (new.map Variable.base).Nodup ∧
        ∀ n ∈ new.map Variable.base, Mentioned r.source n ∧ w.inst.space.find? n = none := by
  have hEnds := read_accounts r hTemplateless
  refine ⟨fun e temps w' hRead => ?_, fun f w' hRead => ?_⟩
  · rw [hRead] at hEnds
    cases hEnds with
    | ok hEnd =>
      obtain ⟨ms, new, hAccounts, hReferences, hCount⟩ := hEnd
      refine ⟨new, hAccounts.records, hAccounts.distinct, fun n => ?_, fun v hv => ?_, ?_⟩
      · rw [hAccounts.missing]
        refine and_congr_left fun _ => ⟨mentioned_of_mem hCount.le, ?_⟩
        rintro ⟨usage, hMem⟩
        rw [← hCount] at hMem
        obtain ⟨m, hm, hSame⟩ := List.mem_map.mp hMem
        exact List.mem_map.mpr ⟨m, hm, congrArg Prod.fst hSame⟩
      · have hFound := hAccounts.finds_new hv
        refine ⟨hFound, hReferences ▸ hAccounts.sized v hv, fun a ha hBase => ?_⟩
        rw [← hReferences] at ha
        obtain ⟨m, hm, rfl⟩ := List.mem_map.mp ha
        obtain ⟨hPlain, hSome⟩ := hAccounts.plain m hm
        have hMet := hAccounts.finds m hm
        rw [← Namespace.base_of_find? hPlain hSome hMet, hBase, hFound] at hMet
        exact (Option.some.inj hMet).symm
      · rw [← hCount, ← hReferences, metNames, Multiset.map_coe, Multiset.map_coe, List.map_map,
          List.map_map]
        refine congrArg _ (List.map_congr_left fun m hm => ?_)
        exact congrArg (·, m.2.usage) (hAccounts.finds m hm).symm
  · rw [hRead] at hEnds
    cases hEnds with
    | error hEnd =>
      obtain ⟨ms, new, hAccounts, hCount⟩ := hEnd
      refine ⟨new, hAccounts.records, hAccounts.distinct, fun n hn => ?_⟩
      obtain ⟨hMem, hMissing⟩ := (hAccounts.missing n).mp hn
      exact ⟨mentioned_of_mem hCount hMem, hMissing⟩

/-- An instance without queries whose bytes are not counted. -/
def bare : Workshop := ⟨Books.start none, .fresh [] [] false⟩

/-- A source that reads one variable and assigns two values to another. -/
def pairingSource : Request := ⟨"v.b = [v.a, 1]; return v.b;", [], []⟩

/-- The variable that is read comes first, with one value, and the other one has two. -/
theorem pairing_makes_two_variables : bare.inst.Templateless ∧
    ∃ e temps w' new, read pairingSource bare = .ok (e, temps) w' ∧
      w'.inst.space.records = [] ++ new ∧
      new.map (fun v => (v.base, v.size)) = [("a", 1), ("b", 2)] ∧
      (∀ n, n ∈ new.map Variable.base ↔
        Mentioned pairingSource.source n ∧ Namespace.empty.find? n = none) := by
  have hTemplateless : bare.inst.Templateless := fun _ hq => absurd hq List.not_mem_nil
  have hRead : Outcome.passes (fun _ w' => w'.inst.space.records.map (fun v => (v.base, v.size)) =
      [("a", 1), ("b", 2)]) (read pairingSource bare) = true := by decide +kernel
  obtain ⟨p, w', hOk, hRead⟩ := Outcome.of_passes hRead
  obtain ⟨new, hRecords, -, hNew, -, -⟩ :=
    (reading_makes_what_is_mentioned pairingSource hTemplateless).1 p.1 p.2 w' hOk
  refine ⟨hTemplateless, p.1, p.2, w', new, hOk, hRecords, ?_, hNew⟩
  have hSame : w'.inst.space.records = new := hRecords
  rw [← hSame]
  exact of_decide_eq_true hRead

end Workshop

end MolangCompiler
