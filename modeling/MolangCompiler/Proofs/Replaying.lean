import MolangCompiler.Proofs.Comparison
import MolangCompiler.Proofs.Partition
import MolangCompiler.Proofs.Reading

/-!
# Reading a source again

The first reading of a source makes the variables that it lacks.  The second reading finds them by
another path: first by the exact name, then by the name without a width.  Both paths lead to the
same variable because no name in a source has a dollar sign, and so a name that has been resolved
once is resolved in the same way for good (`Namespace.Settles`).

`replaying` compares a reading with a later one in a namespace in which everything is settled.
Templates are left out, since they may ask for variables by any name: `Dictionary.disarmed` has
queries that fail in their place.
-/

namespace MolangCompiler

/-! ## Names without dollar signs -/

/-- A text of ASCII characters other than the dollar sign. -/
def PlainText (cs : List Char) : Prop := ∀ c ∈ cs, c.toNat < 128 ∧ c ≠ '$'

def PlainName (name : String) : Prop := '$' ∉ (canonicalName name).toList

theorem ascii_forall {p : Char → Prop} (h : ∀ n : Fin 128, p (Char.ofNat n)) {c : Char}
    (hAscii : c.toNat < 128) : p c := by
  have hChar := h ⟨c.toNat, hAscii⟩
  rwa [Char.ofNat_toNat] at hChar

theorem isName_toLower (c : Char) : isNameStart c.toLower = isNameStart c ∧
    isNamePart c.toLower = isNamePart c ∧ (c.toLower = '.' ↔ c = '.') ∧
    c.toLower.toLower = c.toLower := by
  by_cases h : c.toNat < 128
  · exact ascii_forall (p := fun c => isNameStart c.toLower = isNameStart c ∧
      isNamePart c.toLower = isNamePart c ∧ (c.toLower = '.' ↔ c = '.') ∧
      c.toLower.toLower = c.toLower) (by decide) h
  · have hSame : c.toLower = c := by
      refine dif_neg fun hUpper => h ?_
      exact Nat.lt_of_le_of_lt (UInt32.le_iff_toNat_le.mp hUpper.2) (by decide)
    simp [hSame]

variable {cs : List Char}

theorem PlainText.lower (h : PlainText cs) : PlainText (cs.map Char.toLower) := by
  intro d hd
  obtain ⟨c, hc, rfl⟩ := List.mem_map.mp hd
  obtain ⟨hAscii, hDollar⟩ := h c hc
  exact ascii_forall (p := fun c => c ≠ '$' → c.toLower.toNat < 128 ∧ c.toLower ≠ '$') (by decide)
    hAscii hDollar

theorem PlainText.lowerChars_eq (h : PlainText cs) (before : List Char) :
    lowerChars before cs = cs.map Char.toLower := by
  induction cs generalizing before with
  | nil => rfl
  | cons c rest ih =>
    have hAscii := (h c List.mem_cons_self).1
    have hRest := ih (fun d hd => h d (List.mem_cons_of_mem c hd)) (c :: before)
    unfold lowerChars lowerChar
    rw [hRest, if_neg (by omega), if_neg (by omega), if_pos hAscii]
    rfl

/-- The heads of names, and their long forms. -/
def longHeads : List (String × String) :=
  [("v", "variable"), ("t", "temp"), ("c", "context"), ("q", "query")]

theorem shortHead_cases (head : List Char) :
    (∃ p ∈ longHeads, p.2.toList = head ∧ shortHead head = p.1.toList) ∨
      ((∀ p ∈ longHeads, p.2.toList ≠ head) ∧ shortHead head = head) := by
  unfold shortHead longHeads
  split
  · simp_all
  · split
    · simp_all
    · split
      · simp_all
      · split
        · simp_all
        · right
          simp_all [eq_comm]

theorem PlainText.name (h : PlainText cs) : PlainName (String.ofList cs) := by
  unfold PlainName canonicalName lowerText
  rw [String.toList_ofList, String.toList_ofList, String.toList_ofList, h.lowerChars_eq]
  have hLower := h.lower
  intro hDollar
  rcases List.mem_append.mp hDollar with hHead | hRest
  · rcases shortHead_cases ((cs.map Char.toLower).takeWhile (· != '.')) with
      ⟨p, hp, -, hShort⟩ | ⟨-, hShort⟩
    · have hHeads : ∀ p ∈ longHeads, '$' ∉ p.1.toList := by decide
      exact hHeads p hp (hShort ▸ hHead)
    · exact (hLower _ ((List.takeWhile_sublist _).subset (hShort ▸ hHead))).2 rfl
  · exact (hLower _ ((List.dropWhile_sublist _).subset hRest)).2 rfl

theorem nameLength_plain (inWord : Bool) (cs : List Char) :
    PlainText (cs.take (nameLength inWord cs)) := by
  have hPart {c : Char} (h : isNamePart c = true) : c.toNat < 128 ∧ c ≠ '$' := by
    unfold isNamePart Char.isAlphanum Char.isAlpha Char.isUpper Char.isLower Char.isDigit at h
    simp only [Bool.or_eq_true, Bool.and_eq_true, decide_eq_true_eq, beq_iff_eq] at h
    rcases h with ((h | h) | h) | rfl
    case inr => decide
    all_goals
      refine ⟨Nat.lt_of_le_of_lt h.2 (by decide), ?_⟩
      rintro rfl
      exact absurd h.1 (by decide)
  induction inWord, cs using nameLength_induct with
  | nil => exact fun c hc => absurd (List.mem_of_mem_take hc) List.not_mem_nil
  | word inWord c cs hc hCount ih =>
    rw [hCount, Nat.add_comm, List.take_succ_cons]
    exact List.forall_mem_cons.mpr ⟨hPart hc, ih⟩
  | dot d cs hc hCount ih =>
    rw [hCount, Nat.add_comm, List.take_succ_cons, List.take_succ_cons]
    exact List.forall_mem_cons.mpr ⟨by decide, List.forall_mem_cons.mpr ⟨hPart hc, ih⟩⟩
  | stop inWord c cs hCount =>
    rw [hCount]
    exact List.forall_mem_nil _

private theorem mark?_ne_name {text : String} {n : Nat} : mark? cs ≠ some (.name text, n) := by
  intro h
  unfold mark? at h
  split at h
  all_goals cases h

theorem nextLexeme?_text {text : String} {n : Nat} (h : nextLexeme? cs = some (.name text, n)) :
    PlainText (cs.take text.length) ∧ text.toList = (cs.take text.length).map Char.toLower := by
  unfold nextLexeme? at h
  split at h
  · cases h
  · split at h
    · exact absurd h mark?_ne_name
    · have hTaken := nameLength_plain false cs
      generalize nameLength false cs = n at h hTaken
      unfold wordLexeme at h
      dsimp only at h
      split at h
      · cases h
      · cases h
        have hSame : cs.take ((cs.take n).map Char.toLower).length = cs.take n := by simp
        rw [String.toList_ofList, String.length_ofList, hSame]
        exact ⟨hTaken, rfl⟩

theorem nextLexeme?_of_mem_scan {line : Nat} {source : String} {t : Token}
    (ht : t ∈ (scan line source).tokens) :
    ∃ n, nextLexeme? (source.toList.drop t.start) = some (t.lexeme, n) := by
  obtain ⟨spans, stop, hSpans, -⟩ := scanFrom_partition source.toList 0 line (Nat.zero_le _)
  obtain ⟨s, hs, rfl⟩ := List.mem_map.mp (hSpans.tokens ▸ ht)
  exact ⟨s.2, hSpans.read s hs⟩

/-- **Names in a source** have no dollar sign. -/
theorem scan_plainNames (line : Nat) (source : String) :
    ∀ t ∈ (scan line source).tokens, t.lexeme.Named PlainName := by
  intro t ht
  obtain ⟨n, hNext⟩ := nextLexeme?_of_mem_scan ht
  cases hLexeme : t.lexeme with
  | name text =>
    rw [hLexeme] at hNext
    obtain ⟨hPlain, hText⟩ := nextLexeme?_text hNext
    rw [← String.ofList_toList (s := text), hText]
    exact hPlain.lower.name
  | _ => trivial

theorem dollar_not_mem_rest {name : String} (h : '$' ∉ name.toList) :
    '$' ∉ (nameParts name).2.toList := by
  have hRest : (nameParts name).2.toList = (name.toList.dropWhile (· != '.')).drop 1 :=
    String.toList_ofList
  rw [hRest]
  exact fun hDollar => h
    ((List.dropWhile_sublist _).subset ((List.drop_sublist _ _).subset hDollar))

/-! ## Names of variables -/

theorem dollar_not_mem_toString (n : Int) : '$' ∉ (toString n).toList := by
  have hRepr (m : Nat) : '$' ∉ (Nat.repr m).toList := by
    rw [Nat.toList_repr]
    intro hDollar
    exact absurd (Nat.isDigit_of_mem_toDigits (by decide) (by decide) hDollar) (by decide)
  cases n with
  | ofNat m => exact hRepr m
  | negSucc m =>
    show '$' ∉ ("-" ++ Nat.repr (m + 1)).toList
    rw [String.toList_append, List.mem_append, not_or]
    exact ⟨by decide, hRepr _⟩

variable {base : String} {size : Int}

theorem eq_of_sizedName_plain (h : '$' ∉ (sizedName base size).toList) :
    sizedName base size = base := by
  unfold sizedName at h ⊢
  split at h
  · rename_i hOne
    rw [if_pos hOne]
  · refine absurd ?_ h
    rw [String.toList_append, String.toList_append]
    exact List.mem_append_left _ (List.mem_append_right _ List.mem_cons_self)

theorem baseName_sizedName (hPlain : '$' ∉ base.toList) (hSome : base ≠ "") :
    baseName (sizedName base size) = base := by
  have hNoWidth (cs : List Char) (h : '$' ∉ cs) : (cutAt '$' cs).2 = [] := by
    have hAll : ∀ c ∈ cs, (c != '$') = true := fun c hc =>
      bne_iff_ne.mpr fun hSame => h (hSame ▸ hc)
    have hDrop : (cs ++ []).dropWhile (· != '$') = [].dropWhile (· != '$') :=
      List.dropWhile_append_of_pos hAll
    rw [List.append_nil, List.dropWhile_nil] at hDrop
    unfold cutAt
    rw [hDrop]
    rfl
  unfold sizedName
  split
  · unfold baseName
    rw [hNoWidth _ hPlain]
  · have hCut : (cutAt '$' (toString size ++ "$" ++ base).toList).2 = base.toList := by
      have hDigits : ∀ c ∈ (toString size).toList, (c != '$') = true := fun c hc =>
        bne_iff_ne.mpr fun hSame => dollar_not_mem_toString size (hSame ▸ hc)
      unfold cutAt
      rw [String.toList_append, String.toList_append, List.append_assoc,
        List.dropWhile_append_of_pos hDigits]
      rfl
    unfold baseName
    rw [hCut]
    split
    · rename_i hNil
      exact absurd (String.toList_eq_nil_iff.mp hNil) hSome
    · exact String.ofList_toList

theorem Variable.base_of_named {v : Variable} (hPlain : '$' ∉ base.toList) (hSome : base ≠ "")
    (h : v.name = sizedName base size) :
    v.base = base := by
  unfold Variable.base
  rw [h, baseName_sizedName hPlain hSome]

/-! ## Names that are settled -/

namespace Namespace

/-- Every name without a dollar sign that stands for a variable goes on to stand for it. -/
def Settles (ns ns' : Namespace) : Prop :=
  ∀ name v, '$' ∉ name.toList → ns.find? name = some v → ns'.find? name = some v

theorem Settles.refl (ns : Namespace) : ns.Settles ns := fun _ _ _ h => h

theorem Settles.trans {ns₁ ns₂ ns₃ : Namespace} (h : ns₁.Settles ns₂) (h' : ns₂.Settles ns₃) :
    ns₁.Settles ns₃ := fun name v hPlain hFound => h' name v hPlain (h name v hPlain hFound)

section

variable {ns ns' : Namespace} {u v : Variable} {name : String} {size : Int}

theorem find?_congr (h : ns'.records = ns.records) (name : String) :
    ns'.find? name = ns.find? name := by
  unfold find? get?
  rw [h]

theorem find?_of_append (hRecords : ns'.records = ns.records ++ [v]) (hOther : v.name ≠ name)
    (h : ns.find? name = some u) : ns'.find? name = some u := by
  have hNew : (v.name == name) = false := beq_eq_false_iff_ne.mpr hOther
  unfold find? get? at h ⊢
  rw [hRecords, List.find?_append, List.find?_append, List.find?_singleton, hNew]
  cases hExact : ns.records.find? (·.name == name) with
  | some w =>
    rw [hExact] at h
    exact h
  | none =>
    rw [hExact, Option.none_or] at h
    rw [h]
    rfl

theorem get?_sizedName (hPlain : '$' ∉ name.toList) (hSome : name ≠ "")
    (hMissing : ns.find? name = none) : ns.get? (sizedName name size) = none := by
  refine List.find?_eq_none.mpr fun v hv hSame => ?_
  refine List.find?_eq_none.mp (Option.or_eq_none_iff.mp hMissing).2 v hv ?_
  rw [Variable.base_of_named hPlain hSome (beq_iff_eq.mp hSame)]
  exact beq_self_eq_true name

/-- A name is looked up: its variable is found, or it is made with its size in front of the name. -/
inductive Meets (ns : Namespace) (name : String) (size : Int) (v : Variable) (ns' : Namespace) :
    Prop
  | found (found : ns.find? name = some v) (records : ns'.records = ns.records)
  | made (missing : ns.find? name = none) (named : v.name = sizedName name size)
      (sized : v.size = size) (records : ns'.records = ns.records ++ [v])

namespace Meets

variable (h : ns.Meets name size v ns')
include h

theorem of_missing (hMissing : ns.find? name = none) :
    v.name = sizedName name size ∧ v.size = size ∧ ns'.records = ns.records ++ [v] := by
  cases h with
  | found hFound => cases hMissing.symm.trans hFound
  | made _ hNamed hSized hRecords => exact ⟨hNamed, hSized, hRecords⟩

theorem records_le : ns.records <+: ns'.records := by
  cases h with
  | found _ hRecords => exact hRecords ▸ List.prefix_rfl
  | made _ _ _ hRecords => exact ⟨[v], hRecords.symm⟩

/-- A variable that is made because its name was missing disturbs no other name. -/
theorem settles : ns.Settles ns' := by
  intro other u hPlain hFound
  cases h with
  | found _ hRecords => rw [find?_congr hRecords, hFound]
  | made hMissing hNamed _ hRecords =>
    refine find?_of_append hRecords ?_ hFound
    rintro rfl
    rw [hNamed] at hPlain hFound
    rw [eq_of_sizedName_plain hPlain, hMissing] at hFound
    cases hFound

/-- The name stands for the variable afterwards. -/
theorem finds (hPlain : '$' ∉ name.toList) (hSome : name ≠ "") : ns'.find? name = some v := by
  cases h with
  | found hFound hRecords => rw [find?_congr hRecords, hFound]
  | made hMissing hNamed _ hRecords =>
    obtain ⟨hExact, hOldest⟩ := Option.or_eq_none_iff.mp hMissing
    unfold get? at hExact
    unfold find? get?
    rw [hRecords, List.find?_append, List.find?_append, hExact, hOldest, List.find?_singleton,
      List.find?_singleton]
    simp only [Option.none_or, beq_iff_eq]
    rw [if_pos (Variable.base_of_named hPlain hSome hNamed)]
    split <;> rfl

end Meets

end

end Namespace

namespace Tenant

/-- **Obtaining a variable** for a name that stands for nothing makes it. -/
theorem obtain_meets {n : String} {t : Tenant} (hPlain : '$' ∉ n.toList) (hSome : n ≠ "")
    (hMissing : t.space.find? n = none) (size : Int) :
    Ends (fun v t' => t.space.Meets n size v t'.space)
      (fun t' => t'.space.records = t.space.records) (Tenant.obtain (sizedName n size) size t) := by
  refine .mono (obtain_space _ size t) (fun v t' hObtains => ?_)
    fun t' ⟨_, hSpace⟩ => congrArg (·.records) hSpace
  generalize t'.space = ns at hObtains ⊢
  cases hObtains with
  | old hFound => cases (Namespace.get?_sizedName hPlain hSome hMissing).symm.trans hFound
  | new _ hFine hMade =>
    subst hMade
    have hSize := (Namespace.size_of_no_problem hFine).1
    exact .made hMissing rfl (Int.toNat_of_nonneg (by omega)) rfl

end Tenant

/-! ## Templates that fail -/

/-- A query of a helper that does not exist in the place of a template; all other queries stay as
they are. -/
def Query.disarmed : Query → Query
  | .template _ _ _ => .helper "" 0
  | query => query

theorem Query.disarmed_cases (query : Query) :
    ((∃ arity report tree, query = .template arity report tree) ∧ query.disarmed = .helper "" 0) ∨
      query.Direct ∧ query.disarmed = query := by
  cases query with
  | template arity report tree => exact .inl ⟨⟨arity, report, tree, rfl⟩, rfl⟩
  | helper | constant | host | clamp | lerp => exact .inr ⟨fun _ _ _ hSame => (nomatch hSame), rfl⟩

def Query.disarm (queries : List (String × Query)) : List (String × Query) :=
  queries.map fun p => (p.1, p.2.disarmed)

theorem Query.find?_disarm (queries : List (String × Query)) (name : String) :
    find? (disarm queries) name = (find? queries name).map disarmed := by
  unfold find? disarm
  rw [List.find?_map, Option.map_map, Option.map_map]
  rfl

def Dictionary.disarmed (dict : Dictionary) : Dictionary :=
  { dict with queries := Query.disarm dict.queries }

/-- A comparison with operations that succeed: whatever fails corresponds to everything. -/
def Comparison.OfSuccesses (c : Comparison Scope Scope) : Prop :=
  ∀ {α : Type} {x y : Reading α}, (∀ s, ∃ e s', x s = .error e s') → c.Like x y

theorem Comparison.OfSuccesses.fail {c : Comparison Scope Scope} (h : c.OfSuccesses) {α : Type}
    (st : Setting) (problem : SourceProblem) (start stop : Nat) (y : Reading α) :
    c.Like (Reading.fail st problem start stop) y := h fun s => ⟨_, s, rfl⟩

namespace Dictionary

open Reading

theorem expand_unknown_fails (st : Setting) (actor : List (String × Float)) (args : List Expr)
    (start stop : Nat) (s : Scope) :
    ∃ e s', (Query.helper "" 0).expand st actor args start stop s = .error e s' := by
  cases hCheck : Query.checkArguments st args 0 start stop s with
  | error e s' => exact ⟨e, s', bind_of_error hCheck⟩
  | ok _ s' => exact ⟨.tree (.unknownHelper ""), s', bind_of_ok hCheck⟩

variable {c : Comparison Scope Scope}

/-- A call that succeeds although templates fail is no call of a template. -/
theorem call_disarmed (hAside : c.CoversAside) (hFails : c.OfSuccesses) (dict : Dictionary)
    (text : String) (pos : Nat) (args : List Expr) :
    c.Like (dict.disarmed.call text pos args) (dict.call text pos args) := by
  have hExpand (query : Query) (stop : Nat) : c.Like
      (query.disarmed.expand dict.setting dict.actor args pos stop)
      (query.expand dict.setting dict.actor args pos stop) := by
    rcases query.disarmed_cases with ⟨hTemplate, hDisarmed⟩ | ⟨hOther, hDisarmed⟩
    · rw [hDisarmed]
      exact hFails (expand_unknown_fails _ _ _ _ _)
    · rw [hDisarmed]
      exact hAside (.expand hOther _ _ _ _ _)
  unfold call
  extract_lets stop canonical
  dsimp only [disarmed]
  rw [Query.find?_disarm]
  cases Query.find? dict.queries canonical with
  | none => exact hFails.fail _ _ _ _ _
  | some query =>
    refine (hExpand query stop).bind fun node => ?_
    cases node with
    | expr e => exact c.pure trivial
    | stmt | foreign => exact c.throw _

theorem disarmed_compared (hAside : c.CoversAside) (hFails : c.OfSuccesses)
    (hRead : ∀ rest, '$' ∉ rest.toList → rest ≠ "" → c.Like (readVariable rest) (readVariable rest))
    (hAssign : ∀ st rest pos stop value, '$' ∉ rest.toList → rest ≠ "" →
      c.Like (assignVariable st rest pos stop value)
        (assignVariable st rest pos stop value)) (dict : Dictionary) :
    dict.disarmed.Compared c PlainName dict where
  aside := hAside
  setting := rfl
  name {text} hText position := by
    have hPlain := dollar_not_mem_rest hText
    unfold name
    extract_lets st stop canonical st'
    have hSetting : st = st' := rfl
    have hQueries : (Query.find? dict.disarmed.queries canonical).isSome =
        (Query.find? dict.queries canonical).isSome := by
      dsimp only [disarmed]
      rw [Query.find?_disarm, Option.isSome_map]
    rw [hSetting, hQueries]
    generalize nameParts canonical = parts at hPlain ⊢
    obtain ⟨head, rest⟩ := parts
    dsimp only
    by_cases hVariable : head = "v" ∧ rest ≠ ""
    · rw [if_pos hVariable, if_pos hVariable]
      exact hRead rest hPlain hVariable.2
    rw [if_neg hVariable, if_neg hVariable]
    by_cases hTemp : head = "t" ∧ rest ≠ ""
    · rw [if_pos hTemp, if_pos hTemp]
      exact (hAside (.tempLocal _ _)).bind fun index => c.pure trivial
    rw [if_neg hTemp, if_neg hTemp]
    by_cases hContext : head = "c" ∧ rest ≠ ""
    · rw [if_pos hContext, if_pos hContext]
      cases lastOf? st'.context rest with
      | some index => exact c.pure trivial
      | none => exact hFails.fail _ _ _ _ _
    rw [if_neg hContext, if_neg hContext]
    cases lastOf? st'.constants canonical with
    | some values =>
      cases values with
      | nil => exact hFails.fail _ _ _ _ _
      | cons => exact hAside (.ofTree _)
    | none =>
      dsimp only
      split
      · exact call_disarmed hAside hFails dict _ _ _
      · exact hFails.fail _ _ _ _ _
  assign {text} hText pos value := by
    have hPlain := dollar_not_mem_rest hText
    unfold assign
    extract_lets st stop canonical
    change '$' ∉ (nameParts canonical).2.toList at hPlain
    generalize nameParts canonical = parts at hPlain ⊢
    obtain ⟨head, rest⟩ := parts
    dsimp only
    by_cases hVariable : head = "v" ∧ rest ≠ ""
    · rw [if_pos hVariable, if_pos hVariable]
      exact hAssign st rest pos stop value hPlain hVariable.2
    rw [if_neg hVariable, if_neg hVariable]
    split
    · split
      · exact hFails fun s => ⟨_, s, rfl⟩
      · exact (hAside (.tempLocal _ _)).bind fun index => c.pure trivial
    · exact hFails.fail _ _ _ _ _
  call _ pos args := call_disarmed hAside hFails dict _ pos args

end Dictionary

/-! ## The second reading -/

/-- Two operations from the same state, of which the second one goes as the first one did if that
succeeded. -/
def repeating {σ : Type} : Comparison σ σ where
  rel p x y := ∀ {s a s'}, x s = .ok a s' → p a ∧ y s = .ok a s'
  pure h := by
    rintro s a s' hRun
    cases hRun
    exact ⟨h, rfl⟩
  bind h hNext := by
    rintro s b s'' hRun
    obtain ⟨a, s', hFirst, hSecond⟩ := bind_eq_ok.mp hRun
    obtain ⟨ha, hSame⟩ := h hFirst
    rw [bind_of_ok hSame]
    exact hNext a ha hSecond
  throw e := fun hRun => nomatch hRun

/-- A reading and a later one, from the same scope but with a namespace in which all names that the
first one resolved are settled.  The later one finds what the first one made. -/
def replaying : Comparison Scope Scope where
  rel p x y := ∀ {s a s'}, x s = .ok a s' → p a ∧ s.tenant.space.Settles s'.tenant.space ∧
    ∀ t : Tenant, s'.tenant.space.Settles t.space →
      y { s with tenant := t } = .ok a { s' with tenant := t }
  pure h := by
    rintro s a s' hRun
    cases hRun
    exact ⟨h, .refl _, fun _ _ => rfl⟩
  bind h hNext := by
    rintro s b s'' hRun
    obtain ⟨a, s', hFirst, hSecond⟩ := bind_eq_ok.mp hRun
    obtain ⟨ha, hSettles, hAgain⟩ := h hFirst
    obtain ⟨hb, hSettles', hAgain'⟩ := hNext a ha hSecond
    refine ⟨hb, hSettles.trans hSettles', fun t ht => ?_⟩
    rw [bind_of_ok (hAgain t (hSettles'.trans ht))]
    exact hAgain' t ht
  throw e := fun hRun => nomatch hRun

theorem repeating_self {σ α : Type} (x : Act σ α) : repeating.Like x x := by
  intro s a s' hRun
  exact ⟨trivial, hRun⟩

private theorem repeating_ofSuccesses : repeating.OfSuccesses := by
  intro α x y hFails s a s' hRun
  obtain ⟨e, s'', hError⟩ := hFails s
  rw [hRun] at hError
  cases hError

private theorem replaying_ofSuccesses : replaying.OfSuccesses := by
  intro α x y hFails s a s' hRun
  obtain ⟨e, s'', hError⟩ := hFails s
  rw [hRun] at hError
  cases hError

private theorem replaying_coversAside : replaying.CoversAside := by
  intro α x hAside s a s' hRun
  refine ⟨trivial, ?_, fun t _ => ?_⟩
  · rw [hAside.tenant_eq hRun]
    exact .refl _
  · rw [hAside s t, hRun]

namespace Dictionary

open Reading

section

variable {rest : String} {s : Scope} {v : Variable} {st : Setting} {pos stop : Nat} {value : Expr}

/-- An operation of a scope that ends with a variable for a name. -/
abbrev Meeting (rest : String) (size : Int) (s : Scope) (v : Variable) (s' : Scope) : Prop :=
  s.space.Meets rest size v s'.space ∧ s' = { s with tenant := s'.tenant }

variable (hPlain : '$' ∉ rest.toList) (hSome : rest ≠ "")
include hPlain hSome

theorem obtainVariable_meets (hMissing : s.space.find? rest = none) (size : Int) :
    Ends (Meeting rest size s) (fun s' => s'.space.records = s.space.records)
      (obtainVariable (sizedName rest size) size s) :=
  onPart_ends (.mono (Tenant.obtain_meets hPlain hSome hMissing size)
    (fun _ _ hMeets => ⟨hMeets, rfl⟩) fun _ h => h)

theorem meeting_of_gets {s' : Scope} (h : s.Gets rest size v s') : Meeting rest size s v s' := by
  cases h with
  | found hFound => exact ⟨.found hFound rfl, rfl⟩
  | made hMissing hMade => exact (obtainVariable_meets hPlain hSome hMissing size).of_ok hMade

theorem records_of_misses {s' : Scope} {f : Failure} (h : s.Misses rest size f s') :
    s'.space.records = s.space.records :=
  (obtainVariable_meets hPlain hSome h.1 size).of_error h.2

/-- **Reading a variable** meets its name. -/
theorem readVariable_meets (s : Scope) :
    Ends (fun e s' => ∃ v, e = .variableRead v ∧ Meeting rest 1 s v s')
      (fun s' => s'.space.records = s.space.records) (readVariable rest s) :=
  (readVariable_concludes rest s).ends
    (fun _ _ ⟨v, hE, hGets⟩ => ⟨v, hE, meeting_of_gets hPlain hSome hGets⟩)
    fun _ _ => records_of_misses hPlain hSome

/-- **Assigning a variable** meets its name; the variable is as wide as the value. -/
theorem assignVariable_meets (s : Scope) :
    Ends (fun t s' => ∃ v, t = .assignVariable v value ∧ v.size = value.width ∧
        Meeting rest value.width s v s')
      (fun s' => s'.space.records = s.space.records) (assignVariable st rest pos stop value s) := by
  refine (assignVariable_concludes rest value s).ends ?_ ?_
  · rintro _ s' ⟨v, rfl, hSame, hGets⟩
    have hMeets := meeting_of_gets hPlain hSome hGets
    refine ⟨v, rfl, ?_, hMeets⟩
    cases hGets with
    | found hFound => exact hSame hFound
    | made hMissing => exact (hMeets.1.of_missing hMissing).2.1
  · rintro f s' (⟨problem, -, rfl⟩ | hMisses)
    · rfl
    · exact records_of_misses hPlain hSome hMisses

theorem readVariable_replays : replaying.Like (readVariable rest) (readVariable rest) := by
  intro s e s' hRun
  obtain ⟨v, rfl, hMeets, hSame⟩ := (readVariable_meets hPlain hSome s).of_ok hRun
  refine ⟨trivial, hMeets.settles, fun t ht => ?_⟩
  rw [readVariable_of_found (ht rest v hPlain (hMeets.finds hPlain hSome)), hSame]

theorem assignVariable_replays : replaying.Like (assignVariable st rest pos stop value)
    (assignVariable st rest pos stop value) := by
  intro s stmt s' hRun
  obtain ⟨v, rfl, hWidth, hMeets, hSame⟩ := (assignVariable_meets hPlain hSome s).of_ok hRun
  refine ⟨trivial, hMeets.settles, fun t ht => ?_⟩
  rw [assignVariable_of_found (ht rest v hPlain (hMeets.finds hPlain hSome)) hWidth, hSame]

end

/-- What is read although templates fail is read in the same way when they do not. -/
theorem readSource_disarmed (dict : Dictionary) :
    repeating.Like dict.disarmed.readSource dict.readSource := by
  refine readSource_compared (disarmed_compared ?_ repeating_ofSuccesses ?_ ?_ dict)
    (scan_plainNames 1 _)
  · intro α x _
    exact repeating_self x
  · exact fun rest _ _ => repeating_self (readVariable rest)
  · exact fun st rest pos stop value _ _ =>
      repeating_self (assignVariable st rest pos stop value)

/-- **A source that was read is read again without a trace**: the second reading makes the same tree
and leaves the namespace as it is. -/
theorem readSource_replays (dict : Dictionary) :
    replaying.Like dict.disarmed.readSource dict.readSource :=
  readSource_compared (disarmed_compared replaying_coversAside replaying_ofSuccesses
    (fun _ => readVariable_replays) (fun _ _ _ _ _ => assignVariable_replays) dict)
    (scan_plainNames 1 _)

end Dictionary

end MolangCompiler
