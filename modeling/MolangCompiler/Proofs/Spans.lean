import MolangCompiler.Proofs.Replaying

/-!
# What queries are told about their names

A query is told from where to where its name stands.  A name with arguments is called as the token
spells it.  A name that stands by itself is first brought into its canonical form, so the end is
computed from the length of a name that may be shorter than the one in the source.

`Dictionary.hear` reads a source and notes what each query is told.
-/

namespace MolangCompiler

/-! ## Names as tokens spell them -/

/-- A text of ASCII characters in lower case. -/
structure Spelled (text : String) : Prop where
  plain : PlainText text.toList
  lower : text.toList.map Char.toLower = text.toList

/-- What is written in a source from one place to another. -/
def Setting.written (st : Setting) (start stop : Nat) : String :=
  String.ofList ((st.source.toList.drop start).take (stop - start))

variable {st : Setting} {text : String} {query : Query}

/-- **A name stands where its token says**, but for upper case. -/
theorem spelled_of_mem_scan {t : Token} (ht : t ∈ (scan 1 st.source).tokens)
    (hLexeme : t.lexeme = .name text) : Spelled text ∧
      lowerText (st.written t.start (t.start + text.length)) = text := by
  obtain ⟨n, hNext⟩ := nextLexeme?_of_mem_scan ht
  rw [hLexeme] at hNext
  obtain ⟨hPlain, hText⟩ := nextLexeme?_text hNext
  refine ⟨⟨hText ▸ hPlain.lower, ?_⟩, ?_⟩
  · rw [hText, List.map_map]
    exact List.map_congr_left fun c _ => (isName_toLower c).2.2.2
  · unfold lowerText Setting.written
    rw [Nat.add_sub_cancel_left, String.toList_ofList, hPlain.lowerChars_eq, ← hText,
      String.ofList_toList]

theorem named_of_mem_scan {t : Token} (ht : t ∈ (scan 1 st.source).tokens) :
    t.lexeme.Named Spelled := by
  cases hLexeme : t.lexeme with
  | name => exact (spelled_of_mem_scan ht hLexeme).1
  | _ => trivial

private theorem takeWhile_dropWhile (p : Char → Bool) (cs : List Char) :
    (cs.dropWhile p).takeWhile p = [] := by
  induction cs with
  | nil => rfl
  | cons c rest ih =>
    rw [List.dropWhile_cons]
    split
    · exact ih
    · rename_i hStop
      rw [List.takeWhile_cons, if_neg hStop]

namespace Spelled

variable {text : String}

theorem name (h : Spelled text) : PlainName text := by
  simpa using h.plain.name

theorem toList_canonicalName (h : Spelled text) : (canonicalName text).toList =
    shortHead (text.toList.takeWhile (· != '.')) ++ text.toList.dropWhile (· != '.') := by
  unfold canonicalName lowerText
  rw [h.plain.lowerChars_eq, h.lower, String.toList_ofList, String.toList_ofList]

/-- The canonical form of a name has the short form of its head if that is a long one, and is the
name itself if not. -/
theorem canonicalName_cases (h : Spelled text) :
    (∃ p ∈ longHeads, ∃ rest : List Char, (nameParts text).1 = p.2 ∧
        rest.takeWhile (· != '.') = [] ∧ text.toList = p.2.toList ++ rest ∧
        (canonicalName text).toList = p.1.toList ++ rest) ∨
      ((∀ p ∈ longHeads, (nameParts text).1 ≠ p.2) ∧ canonicalName text = text) := by
  have hCanonical := h.toList_canonicalName
  have hWhole := List.takeWhile_append_dropWhile (p := (· != '.')) (l := text.toList)
  have hHead : (nameParts text).1 = String.ofList (text.toList.takeWhile (· != '.')) := rfl
  rcases shortHead_cases (text.toList.takeWhile (· != '.')) with
    ⟨p, hp, hLong, hShort⟩ | ⟨hOther, hShort⟩
  · rw [hShort] at hCanonical
    rw [← hLong] at hWhole hHead
    exact .inl ⟨p, hp, _, hHead.trans String.ofList_toList, takeWhile_dropWhile _ _, hWhole.symm,
      hCanonical⟩
  · rw [hShort, hWhole] at hCanonical
    refine .inr ⟨fun p hp hSame => hOther p hp ?_, String.toList_injective hCanonical⟩
    rw [← hSame, hHead, String.toList_ofList]

theorem length_canonicalName (h : Spelled text) : (canonicalName text).length = text.length ↔
    ∀ p ∈ longHeads, (nameParts text).1 ≠ p.2 := by
  have hShorter : ∀ p ∈ longHeads, p.1.toList.length < p.2.toList.length := by decide
  rcases h.canonicalName_cases with ⟨p, hp, rest, hLong, -, hText, hCanonical⟩ | ⟨hOther, hSame⟩
  · refine ⟨fun hLength => ?_, fun hOther => absurd hLong (hOther p hp)⟩
    have hLess := hShorter p hp
    rw [← String.length_toList, ← String.length_toList, hText, hCanonical, List.length_append,
      List.length_append] at hLength
    omega
  · exact ⟨fun _ => hOther, fun _ => by rw [hSame]⟩

theorem canonicalName_within (h : Spelled text) (hSome : 0 < text.length) :
    0 < (canonicalName text).length ∧ (canonicalName text).length ≤ text.length := by
  have hShorter : ∀ p ∈ longHeads, 0 < p.1.toList.length ∧
      p.1.toList.length ≤ p.2.toList.length := by
    decide
  rcases h.canonicalName_cases with ⟨p, hp, rest, -, -, hText, hCanonical⟩ | ⟨-, hSame⟩
  · have hLess := hShorter p hp
    rw [← String.length_toList, ← String.length_toList, hText, hCanonical, List.length_append,
      List.length_append]
    omega
  · rw [hSame]
    exact ⟨hSome, Nat.le_refl _⟩

theorem canonicalName_canonicalName (h : Spelled text) :
    canonicalName (canonicalName text) = canonicalName text := by
  have hShort : ∀ p ∈ longHeads, shortHead p.1.toList = p.1.toList ∧ p.1.toList.all (fun c =>
      decide (c.toNat < 128 ∧ c ≠ '$') && (c.toLower == c && c != '.')) = true := by decide
  rcases h.canonicalName_cases with ⟨p, hp, rest, -, hStop, hText, hCanonical⟩ | ⟨-, hSame⟩
  · obtain ⟨hHead, hAll⟩ := hShort p hp
    have hChars : ∀ c ∈ p.1.toList, (c.toNat < 128 ∧ c ≠ '$') ∧ c.toLower = c ∧
        (c != '.') = true := by simpa using hAll
    obtain ⟨hPlain, hLower⟩ := h
    rw [hText] at hPlain hLower
    rw [List.map_append] at hLower
    have hSpelled : Spelled (canonicalName text) := by
      constructor
      · rw [hCanonical]
        refine List.forall_mem_append.mpr ⟨fun c hc => (hChars c hc).1, fun c hc => ?_⟩
        exact hPlain c (List.mem_append_right _ hc)
      · rw [hCanonical, List.map_append, List.append_inj_right hLower (List.length_map _)]
        exact congrArg (· ++ rest) ((List.map_congr_left fun c hc => (hChars c hc).2.1).trans
          (List.map_id _))
    have hPoint : ∀ c ∈ p.1.toList, (c != '.') = true := fun c hc => (hChars c hc).2.2
    have hBehind : rest.dropWhile (· != '.') = rest := by
      simpa [hStop] using List.takeWhile_append_dropWhile (p := (· != '.')) (l := rest)
    apply String.toList_injective
    rw [hSpelled.toList_canonicalName, hCanonical, List.takeWhile_append_of_pos hPoint, hStop,
      List.append_nil, hHead, List.dropWhile_append_of_pos hPoint, hBehind]
  · rw [hSame, hSame]

end Spelled

/-! ## What queries report -/

namespace Query

/-- How many arguments a query asks for, if it checks them. -/
def arity? : Query → Option Nat
  | helper _ arity | host _ arity _ => some arity
  | constant _ => some 0
  | clamp | lerp => some 3
  | template arity _ _ => arity

/-- What is wrong with arguments. -/
def argumentProblem? (name : String) (args : List Expr) (arity : Nat) : Option SourceProblem :=
  if args.length ≠ arity then some (.argumentCount name arity args.length)
  else if args.any (·.width != 1) then some (.argumentWidth name)
  else none

theorem checkArguments_of_problem {args : List Expr} {arity start stop : Nat}
    {problem : SourceProblem}
    (h : argumentProblem? (st.written start stop) args arity = some problem) (s : Scope) :
    checkArguments st args arity start stop s =
      .error (.source ⟨problem, st.source, start, stop⟩) s := by
  unfold argumentProblem? at h
  unfold checkArguments
  split at h
  · rename_i hCount
    cases h
    rw [if_pos hCount]
    rfl
  · rename_i hCount
    split at h
    · rename_i hWidth
      cases h
      rw [if_neg hCount, if_pos hWidth]
      rfl
    · cases h

/-- **Wrong arguments are reported** where a query was told that its name stands, under what is
written there. -/
theorem expand_of_problem {args : List Expr} {arity start stop : Nat} {problem : SourceProblem}
    (hArity : query.arity? = some arity)
    (h : argumentProblem? (st.written start stop) args arity = some problem)
    (actor : List (String × Float)) (s : Scope) : query.expand st actor args start stop s =
      .error (.source ⟨problem, st.source, start, stop⟩) s := by
  have hCheck := checkArguments_of_problem h s
  cases query with
  | helper | constant | host | clamp | lerp | template =>
    cases hArity
    exact bind_of_error hCheck

end Query

/-! ## Readings that note what queries are told -/

/-- A query, and from where to where it is told that its name stands. -/
structure Invocation where
  query : Query
  start : Nat
  stop : Nat

/-- The scope of a reading, and what queries have been told in it so far. -/
structure Hearing where
  scope : Scope
  heard : List Invocation

def Site.measured (site : Site) : Nat :=
  match site.usage with
  | .alone => (canonicalName site.text).length
  | _ => site.text.length

namespace Dictionary

/-- A part of a reading in which queries are told nothing. -/
def unheard {α : Type} (act : Reading α) : Act Hearing α :=
  onPart Hearing.scope (fun s h => { h with scope := s }) act

/-- Expands a call of a query, and notes what the query is told. -/
def hearCall (dict : Dictionary) (name : String) (position : Nat) (args : List Expr) :
    Act Hearing Expr := do
  let stop := position + name.length
  let canonical := canonicalName name
  match Query.find? dict.queries canonical with
  | none => unheard (Reading.fail dict.setting (.unknownFunction canonical) position stop)
  | some query =>
    modify fun h => { h with heard := h.heard ++ [⟨query, position, stop⟩] }
    match ← unheard (query.expand dict.setting dict.actor args position stop) with
    | .expr e => return e
    | node => throw (.notExpression canonical node.kind)

def mute (dict : Dictionary) : Dictionary := { dict with queries := [] }

/-- A name that stands for a variable, a temp, a context value or a constant. -/
def Owns (dict : Dictionary) (text : String) : Prop :=
  let parts := nameParts (canonicalName text)
  ((parts.1 = "v" ∨ parts.1 = "t" ∨ parts.1 = "c") ∧ parts.2 ≠ "") ∨
    (lastOf? dict.setting.constants (canonicalName text)).isSome

instance (dict : Dictionary) (text : String) : Decidable (dict.Owns text) :=
  inferInstanceAs (Decidable (_ ∨ _))

def queryAt? (dict : Dictionary) (site : Site) : Option Query :=
  match site.usage with
  | .called => Query.find? dict.queries (canonicalName site.text)
  | .alone =>
    if dict.Owns site.text then none else Query.find? dict.queries (canonicalName site.text)
  | .assigned => none

/-- Resolves a name that stands by itself, and notes what its query is told. -/
def hearName (dict : Dictionary) (text : String) (position : Nat) : Act Hearing Expr :=
  if (dict.queryAt? ⟨text, position, .alone⟩).isSome then
    dict.hearCall (canonicalName text) position []
  else unheard (dict.mute.name text position)

/-- How the constructs of a source become trees, with notes on what queries are told. -/
def hearing (dict : Dictionary) : Actions (Act Hearing) Expr Stmt :=
  dict.mute.actionsOn unheard dict.hearName dict.hearCall
    fun text position value => unheard (dict.mute.assign text position value)

/-- Reads a source with notes on what queries are told. -/
def hear (dict : Dictionary) : Act Hearing Expr := dict.setting.readWith dict.hearing

/-- The query of a name, with what it is to be told. -/
def invocation? (dict : Dictionary) (site : Site) : Option Invocation :=
  (dict.queryAt? site).map fun query => ⟨query, site.position, site.position + site.measured⟩

/-- The queries of all names in a source. -/
def invocations (dict : Dictionary) : Multiset Invocation :=
  (nameSites (scan 1 dict.setting.source).tokens).filterMap dict.invocation?

theorem name_eq (dict : Dictionary) (text : String) (position : Nat) :
    dict.name text position =
      if (dict.queryAt? ⟨text, position, .alone⟩).isSome then
        dict.call (canonicalName text) position []
      else dict.mute.name text position := by
  have hQuery : dict.queryAt? ⟨text, position, .alone⟩ = if dict.Owns text then none
    else Query.find? dict.queries (canonicalName text) := rfl
  have hMute : dict.mute.setting = dict.setting := rfl
  have hNone : Query.find? dict.mute.queries (canonicalName text) = none := rfl
  rw [hQuery]
  by_cases hOwns : dict.Owns text
  · rw [if_pos hOwns, Option.isSome_none, if_neg Bool.false_ne_true]
    unfold name
    rw [hMute]
    dsimp only
    rcases hOwns with ⟨hHead, hRest⟩ | hConstant
    · rcases hHead with hHead | hHead | hHead <;> simp [hHead, hRest]
    · obtain ⟨values, hConstant⟩ := Option.isSome_iff_exists.mp hConstant
      rw [hConstant]
      cases values with
      | nil | cons => rfl
  · rw [if_neg hOwns]
    obtain ⟨hHead, hConstant⟩ := not_or.mp hOwns
    have hHeads : ∀ head ∈ ["v", "t", "c"], ¬((nameParts (canonicalName text)).1 = head ∧
        (nameParts (canonicalName text)).2 ≠ "") := by
      rintro head hMem ⟨hSame, hRest⟩
      exact hHead ⟨by simpa [hSame] using hMem, hRest⟩
    have hv := hHeads "v" (by decide)
    have ht := hHeads "t" (by decide)
    have hc := hHeads "c" (by decide)
    unfold name
    dsimp only
    rw [hMute, hNone, Option.not_isSome_iff_eq_none.mp hConstant]
    simp only [if_neg hv, if_neg ht, if_neg hc]
    rfl

end Dictionary

/-! ## Both readings side by side -/

/-- What queries have been told, with some names still to come. -/
def Hearing.Awaits (dict : Dictionary) (M : Multiset Site) (h : Hearing) : Prop :=
  ↑h.heard + M.filterMap dict.invocation? = dict.invocations

namespace Hearing.Awaits

variable {dict : Dictionary} {M : Multiset Site} {h : Hearing} {site : Site}

theorem le (hS : h.Awaits dict M) : ↑h.heard ≤ dict.invocations :=
  le_of_le_of_eq (Multiset.le_add_right _ _) hS

theorem of_none (hS : h.Awaits dict (site ::ₘ M)) (hNone : dict.queryAt? site = none) :
    h.Awaits dict M := by
  rw [Awaits, ← hS, Multiset.filterMap_cons_none]
  unfold Dictionary.invocation?
  rw [hNone]
  rfl

theorem of_some (hS : h.Awaits dict (site ::ₘ M)) (hSome : dict.queryAt? site = some query) :
    Awaits dict M { h with
      heard := h.heard ++ [⟨query, site.position, site.position + site.measured⟩] } := by
  have hInvocation : dict.invocation? site =
      some ⟨query, site.position, site.position + site.measured⟩ := by
    unfold Dictionary.invocation?
    rw [hSome]
    rfl
  rw [Awaits, ← hS, Multiset.filterMap_cons_some _ _ _ hInvocation, ← Multiset.coe_add, add_assoc]
  rfl

end Hearing.Awaits

/-- A reading with notes and one without.  They do the same, and no more is noted than the names of
the source account for. -/
def hearingBeside (dict : Dictionary) : View Hearing Scope Hearing Expr Stmt where
  rel p x y h := Agree (fun a h' b s => b = a ∧ s = h'.scope ∧ p a h')
    (fun h' s => s = h'.scope ∧ ↑h'.heard ≤ dict.invocations) (x h) (y h.scope)
  pure hp := .ok ⟨rfl, rfl, hp⟩
  bind hx hNext := by
    refine .bind hx ?_
    rintro a h' b s ⟨rfl, rfl, hp⟩
    exact hNext _ _ hp
  later _ _ := True
  refl _ := trivial
  fits _ _ := True
  mono _ _ := trivial
  stands l _ := l.Named Spelled
  pending M _ _ h := h.Awaits dict M
  whole M h _ := h.Awaits dict M
  whole_of_fits _ hS := hS
  fails h := ↑h.heard ≤ dict.invocations
  fails_of_pending hS := hS.le
  fails_of_whole hS := hS.le

namespace Dictionary

variable {dict : Dictionary} {M : Multiset Site} {K : List Expr} {l : List Stmt} {h : Hearing}

theorem unheard_beside {α : Type} {p : α → Hearing → Prop} (act : Reading α)
    (hS : h.Awaits dict M) (hp : ∀ a s, Hearing.Awaits dict M ⟨s, h.heard⟩ → p a ⟨s, h.heard⟩) :
    (hearingBeside dict).rel p (unheard act) act h := by
  cases hRun : act h.scope with
  | ok a s =>
    have hUnheard : unheard act h = .ok a ⟨s, h.heard⟩ := onPart_of_ok hRun
    show Agree _ _ (unheard act h) (act h.scope)
    rw [hUnheard, hRun]
    exact .ok ⟨rfl, rfl, hp a s hS⟩
  | error e s =>
    have hUnheard : unheard act h = .error e ⟨s, h.heard⟩ := onPart_of_error hRun
    show Agree _ _ (unheard act h) (act h.scope)
    rw [hUnheard, hRun]
    exact .error ⟨rfl, hS.le⟩

theorem unheard_makes (act : Reading Expr) (hS : h.Awaits dict M) :
    (hearingBeside dict).Makes M K l h (unheard act) act :=
  unheard_beside act hS fun _ _ hS' => ⟨trivial, trivial, hS'⟩

theorem unheard_finishes (act : Reading Stmt) (hS : h.Awaits dict M) :
    (hearingBeside dict).Finishes M l h (unheard act) act :=
  unheard_beside act hS fun _ _ hS' => hS'

theorem hearCall_makes {name : String} {pos : Nat} (args : List Expr)
    (hFind : Query.find? dict.queries (canonicalName name) = some query)
    (hS : Hearing.Awaits dict M { h with
      heard := h.heard ++ [⟨query, pos, pos + name.length⟩] }) :
    (hearingBeside dict).Makes M K l h (dict.hearCall name pos args) (dict.call name pos args) := by
  have hExpand := unheard_beside (p := fun _ h' => Hearing.Awaits dict M h')
    (query.expand dict.setting dict.actor args pos (pos + name.length)) hS
    fun _ _ hS' => hS'
  have hNoted : dict.hearCall name pos args h = (do
      match ← unheard (query.expand dict.setting dict.actor args pos (pos + name.length)) with
      | .expr e => return e
      | node => throw (.notExpression (canonicalName name) node.kind) : Act Hearing Expr)
      { h with heard := h.heard ++ [⟨query, pos, pos + name.length⟩] } := by
    unfold hearCall
    rw [hFind]
    rfl
  show Agree _ _ (dict.hearCall name pos args h) (dict.call name pos args h.scope)
  rw [hNoted]
  unfold call
  dsimp only
  rw [hFind]
  refine .bind hExpand ?_
  rintro _ h' node _ ⟨rfl, rfl, hS'⟩
  cases node with
  | expr e => exact .ok ⟨rfl, rfl, trivial, trivial, hS'⟩
  | _ => exact .error ⟨rfl, hS'.le⟩

theorem hearCall_beside {pos : Nat} (args : List Expr)
    (hS : h.Awaits dict (⟨text, pos, .called⟩ ::ₘ M)) :
    (hearingBeside dict).Makes M K l h (dict.hearCall text pos args) (dict.call text pos args) := by
  cases hFind : Query.find? dict.queries (canonicalName text) with
  | none =>
    have hUnheard : dict.hearCall text pos args = unheard (dict.call text pos args) := by
      unfold hearCall call
      dsimp only
      rw [hFind]
    rw [hUnheard]
    exact unheard_makes _ (hS.of_none hFind)
  | some query => exact hearCall_makes args hFind (hS.of_some hFind)

theorem hearName_makes (hSpelled : Spelled text) (position : Nat)
    (hS : h.Awaits dict (⟨text, position, .alone⟩ ::ₘ M)) :
    (hearingBeside dict).Makes M K l h (dict.hearName text position) (dict.name text position) := by
  unfold hearName
  rw [name_eq dict]
  cases hQuery : dict.queryAt? ⟨text, position, .alone⟩ with
  | none =>
    rw [Option.isSome_none, if_neg Bool.false_ne_true, if_neg Bool.false_ne_true]
    exact unheard_makes _ (hS.of_none hQuery)
  | some query =>
    have hFind : Query.find? dict.queries (canonicalName text) = some query := by
      unfold queryAt? at hQuery
      dsimp only at hQuery
      split at hQuery
      · cases hQuery
      · exact hQuery
    rw [Option.isSome_some, if_pos rfl, if_pos rfl]
    refine hearCall_makes [] ?_ (hS.of_some hQuery)
    rw [hSpelled.canonicalName_canonicalName, hFind]

/-- **Noting what queries are told** changes nothing else, and nothing is noted twice. -/
theorem hearing_viewed (dict : Dictionary) :
    dict.hearing.Viewed (hearingBeside dict)
      (dict.mute.actionsOn id dict.name dict.call dict.mute.assign) where
  number value _ _ _ _ hS := unheard_makes (dict.mute.actions.number value) hS
  name {text p _ _ _ _} hSpelled hS := by
    dsimp only [hearing, actionsOn]
    exact hearName_makes hSpelled p hS
  call _ _ hS := hearCall_beside _ hS
  negate {p e _ _ _ _} _ _ hS := unheard_makes (dict.mute.actions.negate p e) hS
  not {p e _ _ _ _} _ _ hS := unheard_makes (dict.mute.actions.not p e) hS
  operator {op p left right _ _ _ _} _ _ _ hS :=
    unheard_makes (dict.mute.actions.operator op p left right) hS
  ternary {p q condition yes no _ _ _ _} _ _ _ _ _ hS :=
    unheard_makes (dict.mute.actions.ternary p q condition yes no) hS
  vector {p es _ _ _ _} _ _ _ hS := unheard_makes (dict.mute.actions.vector p es) hS
  discard {e _ _ _} _ hS := unheard_finishes (dict.mute.actions.discard e) hS
  assign {text p value _ _ _} _ _ hS := by
    dsimp only [hearing, actionsOn]
    exact unheard_finishes _ (hS.of_none rfl)
  ret {p e _ _ _} _ _ hS := unheard_finishes (dict.mute.ret p e) hS
  sequence {_ l _} hS := unheard_beside (dict.mute.actions.sequence l) hS fun _ _ hS' => hS'

theorem actions_eq_mute (dict : Dictionary) :
    dict.actions = dict.mute.actionsOn id dict.name dict.call dict.mute.assign := by
  have hMute : dict.setting = dict.mute.setting := rfl
  rw [actions_eq_on hMute]
  rfl

/-- **Queries are told their places.**  Reading a source with notes does what reading it does, and
the queries of the names in it have been told what `invocation?` says, each once; before a failure,
some of them have.  A name is written in the source where its token stands.  Its query is told the
start of the token.  It is told the end of the token if the name is called or has no long head, and
only then.  What is wrong with the arguments is reported there, under what is written there. -/
theorem queries_are_told_their_places (dict : Dictionary) (s : Scope) :
    Agree (fun e h e' s' => e' = e ∧ s' = h.scope ∧ ↑h.heard = dict.invocations)
        (fun h s' => s' = h.scope ∧ ↑h.heard ≤ dict.invocations)
        (dict.hear ⟨s, []⟩) (dict.readSource s) ∧
      (∀ site ∈ nameSites (scan 1 dict.setting.source).tokens,
        lowerText (dict.setting.written site.position (site.position + site.text.length)) =
            site.text ∧
          ∀ i, dict.invocation? site = some i → i.start = site.position ∧
            (i.stop = site.position + site.text.length ↔
              site.usage = .called ∨ ∀ p ∈ longHeads, (nameParts site.text).1 ≠ p.2)) ∧
      ∀ (query : Query) (args : List Expr) (arity start stop : Nat) (problem : SourceProblem),
        query.arity? = some arity →
        Query.argumentProblem? (dict.setting.written start stop) args arity = some problem →
        query.expand dict.setting dict.actor args start stop s =
          .error (.source ⟨problem, dict.setting.source, start, stop⟩) s := by
  refine ⟨?_, fun site hSite => ?_, ?_⟩
  · have hStart : Hearing.Awaits dict (nameSites (scan 1 dict.setting.source).tokens) ⟨s, []⟩ :=
      zero_add _
    have hEnd := dict.setting.readWith_viewed dict.hearing_viewed
      (fun _ hLe => .error ⟨rfl, hLe⟩) (fun _ => named_of_mem_scan) hStart
    rw [← actions_eq_mute, ← Setting.readSource_eq_with] at hEnd
    refine .mono hEnd ?_ fun _ _ h => h
    rintro e h _ _ ⟨rfl, rfl, hAll⟩
    exact ⟨rfl, rfl, (add_zero _).symm.trans hAll⟩
  · obtain ⟨t, ht, hLexeme, hStart⟩ := exists_token_of_mem_nameSites hSite
    obtain ⟨hSpelled, hWritten⟩ := spelled_of_mem_scan ht hLexeme
    rw [hStart] at hWritten
    refine ⟨hWritten, fun i hInvocation => ?_⟩
    obtain ⟨query, hQuery, rfl⟩ := Option.map_eq_some_iff.mp hInvocation
    refine ⟨rfl, ?_⟩
    obtain ⟨text, position, usage⟩ := site
    cases usage with
    | called => simp [Site.measured]
    | alone => simpa [Site.measured] using hSpelled.length_canonicalName
    | assigned => cases hQuery
  · exact fun query args arity start stop problem hArity hProblem =>
      Query.expand_of_problem hArity hProblem dict.actor s

/-- A source with a query that is called and one that stands alone, under the long form of its
head. -/
def calledAndAlone : Dictionary :=
  ⟨Setting.of "q.f(1) + query.g" [] [], [("q.f", .host "f" 1 1), ("q.g", .host "g" 0 1)], []⟩

/-- A scope without variables. -/
def vacantScope : Scope := Scope.start ⟨Books.start none, none, .empty⟩

/-- The query behind `query.g` is told the first three characters of its name. -/
theorem called_and_alone_are_told :
    ∃ e h, calledAndAlone.hear ⟨vacantScope, []⟩ = .ok e h ∧
      (h.heard : Multiset Invocation).map (fun i => (i.start, i.stop)) = {(0, 3), (9, 12)} ∧
      Query.expand (.host "f" 1 1) calledAndAlone.setting [] [] 0 3 vacantScope =
        .error (.source ⟨.argumentCount "q.f" 1 0, "q.f(1) + query.g", 0, 3⟩) vacantScope := by
  obtain ⟨hReads, -, hReports⟩ := queries_are_told_their_places calledAndAlone vacantScope
  have hRead : (Outcome.result? (calledAndAlone.readSource vacantScope)).isSome = true := by
    decide +kernel
  have hPlaces : calledAndAlone.invocations.map (fun i => (i.start, i.stop)) =
      {(0, 3), (9, 12)} := by
    decide +kernel
  have hProblem : Query.argumentProblem? (calledAndAlone.setting.written 0 3) [] 1 =
      some (.argumentCount "q.f" 1 0) := by decide +kernel
  cases hSource : calledAndAlone.readSource vacantScope with
  | error =>
    rw [hSource] at hRead
    cases hRead
  | ok e s =>
    rw [hSource] at hReads
    obtain ⟨e, h, hHear, -, -, hHeard⟩ := hReads.of_ok_right
    rw [← hHeard] at hPlaces
    exact ⟨e, h, hHear, hPlaces, hReports (.host "f" 1 1) [] 1 0 3 _ rfl hProblem⟩

/-- A source in which a query that asks for an argument stands alone. -/
def aloneForOne : Dictionary := ⟨Setting.of "1 + query.f" [] [], [("q.f", .host "f" 1 1)], []⟩

/-- **A missing argument is reported under a part of the name**, three characters of seven. -/
theorem part_of_a_name_is_reported :
    (match aloneForOne.readSource vacantScope with
      | .ok _ _ => none
      | .error failure _ => some failure) =
        some (.source ⟨.argumentCount "que" 1 0, "1 + query.f", 4, 7⟩) ∧
      aloneForOne.setting.written 4 11 = "query.f" := by
  decide +kernel

end Dictionary

end MolangCompiler
