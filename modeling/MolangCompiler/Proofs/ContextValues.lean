import MolangCompiler.Proofs.SharedNames

/-!
# Context values and their names

The names of context values are kept in canonical form: in lower case, and the long form of a head
is replaced by the short form.  What a source writes behind `c.` is put into lower case only.  So
the two meet for every name that is no long form.  A context value that is called `variable` is kept
under `v`: it cannot be read under its own name, and takes the place of an earlier one that is
called `v`.
-/

namespace MolangCompiler

/-! ## Identifiers -/

/-- A word: a letter or an underscore, and then letters, digits and underscores. -/
def IsIdentifier (n : String) : Prop :=
  n.toList.head?.any isNameStart = true ∧ n.toList.all isNamePart = true

instance (n : String) : Decidable (IsIdentifier n) := inferInstanceAs (Decidable (_ ∧ _))

private theorem nameLength_word {cs : List Char} (h : cs.all isNamePart = true) :
    nameLength true cs = cs.length := by
  induction cs with
  | nil => rfl
  | cons c cs ih =>
    rw [List.all_cons, Bool.and_eq_true] at h
    unfold nameLength
    rw [if_pos rfl, if_pos h.1, ih h.2, List.length_cons, Nat.add_comm]

namespace IsIdentifier

variable {n : String} (h : IsIdentifier n)
include h

theorem exists_start : ∃ c rest, n.toList = c :: rest ∧ isNameStart c = true := by
  have hHead := h.1
  cases hChars : n.toList with
  | nil => simp [hChars] at hHead
  | cons c rest => exact ⟨c, rest, rfl, by simpa [hChars] using hHead⟩

theorem nameLength_context :
    nameLength false ('c' :: '.' :: n.toList) = ('c' :: '.' :: n.toList).length := by
  obtain ⟨c, rest, hChars, hStart⟩ := h.exists_start
  have hAll := h.2
  rw [hChars, List.all_cons, Bool.and_eq_true] at hAll
  rw [hChars]
  show 1 + (if isNameStart c then 2 + nameLength true rest else 0) = _
  rw [if_pos hStart, nameLength_word hAll.2]
  simp only [List.length_cons]
  omega

theorem plainText : PlainText n.toList := by
  have hPlain := nameLength_plain false ('c' :: '.' :: n.toList)
  rw [h.nameLength_context, List.take_length] at hPlain
  exact fun c hc => hPlain c (List.mem_cons_of_mem _ (List.mem_cons_of_mem _ hc))

theorem toList_lower : (lowerText n).toList = n.toList.map Char.toLower := by
  unfold lowerText
  rw [String.toList_ofList, h.plainText.lowerChars_eq]

theorem lower_facts : ∀ c ∈ (lowerText n).toList, c ≠ '.' ∧ c.toLower = c := by
  intro c hc
  rw [h.toList_lower] at hc
  obtain ⟨d, hd, rfl⟩ := List.mem_map.mp hc
  refine ⟨fun hDot => ?_, (isName_toLower d).2.2.2⟩
  rw [(isName_toLower d).2.2.1] at hDot
  exact absurd (hDot ▸ List.all_eq_true.mp h.2 d hd) (by decide)

theorem canonicalName_eq : canonicalName n = String.ofList (shortHead (lowerText n).toList) := by
  have hAll : ∀ c ∈ (lowerText n).toList, (c != '.') = true := by
    intro c hc
    simpa using (h.lower_facts c hc).1
  have hTake := @List.takeWhile_append_of_pos _ _ _ [] hAll
  have hDrop := @List.dropWhile_append_of_pos _ _ _ [] hAll
  simp only [List.append_nil, List.takeWhile_nil, List.dropWhile_nil] at hTake hDrop
  unfold canonicalName
  simp only [hTake, hDrop, List.append_nil]

/-- **The name under which a context value is kept**: the short form of a head for its long form,
and the name itself for all others. -/
theorem contextKey_cases :
    (∃ p ∈ longHeads, p.2 = lowerText n ∧ contextKey n = p.1) ∨
      ((∀ p ∈ longHeads, p.2 ≠ lowerText n) ∧ contextKey n = lowerText n) := by
  have hKey (key : String) (hPoint : '.' ∉ key.toList)
      (hShort : shortHead (lowerText n).toList = key.toList) : contextKey n = key := by
    unfold contextKey
    rw [h.canonicalName_eq, hShort, String.toList_ofList]
    split
    · rename_i hChars
      exact absurd (by simp [hChars]) hPoint
    · exact String.ofList_toList
  rcases shortHead_cases (lowerText n).toList with ⟨p, hp, hLong, hShort⟩ | ⟨hOther, hShort⟩
  · refine .inl ⟨p, hp, String.toList_injective hLong, hKey p.1 ?_ hShort⟩
    have hNone : ∀ p ∈ longHeads, '.' ∉ p.1.toList := by decide
    exact hNone p hp
  · refine .inr ⟨fun p hp hSame => hOther p hp (congrArg _ hSame), hKey _ ?_ hShort⟩
    exact fun hPoint => (h.lower_facts _ hPoint).1 rfl

theorem nameParts_context :
    nameParts (canonicalName ("c." ++ lowerText n)) = ("c", lowerText n) := by
  have hChars : ("c." ++ lowerText n).toList = 'c' :: '.' :: (lowerText n).toList := by simp
  have hPlain : PlainText ('c' :: '.' :: (lowerText n).toList) := by
    have hLower := h.plainText.lower
    rw [← h.toList_lower] at hLower
    simp only [PlainText, List.forall_mem_cons]
    exact ⟨by decide, by decide, hLower⟩
  have hSame : (lowerText n).toList.map Char.toLower = (lowerText n).toList :=
    (List.map_congr_left fun c hc => (h.lower_facts c hc).2).trans (List.map_id' _)
  have hCanonical : canonicalName ("c." ++ lowerText n) = "c." ++ lowerText n := by
    unfold canonicalName
    rw [lowerText, String.toList_ofList, hChars, hPlain.lowerChars_eq, List.map_cons, List.map_cons,
      hSame]
    apply String.toList_injective
    rw [String.toList_ofList, hChars]
    rfl
  rw [hCanonical, nameParts, hChars]
  show (String.ofList ['c'], String.ofList (lowerText n).toList) = ("c", lowerText n)
  rw [String.ofList_toList]

theorem scan_context (line : Nat) :
    scan line ("c." ++ n) = ⟨[⟨.name ("c." ++ lowerText n), 0, line⟩], .finished, line⟩ := by
  have hSource : "c." ++ n = String.ofList ('c' :: '.' :: n.toList) := by
    apply String.toList_injective
    simp
  have hText : String.ofList (('c' :: '.' :: n.toList).map Char.toLower) = "c." ++ lowerText n := by
    apply String.toList_injective
    simp [h.toList_lower]
  have hWord : wordLexeme ('c' :: '.' :: n.toList) = .name ("c." ++ lowerText n) := by
    unfold wordLexeme
    rw [hText]
    have hOther : ("c." ++ lowerText n == "return") = false := by
      rw [beq_eq_false_iff_ne]
      intro hSame
      have hChars := congrArg String.toList hSame
      simp at hChars
    simp only [hOther, Bool.false_eq_true, if_false]
  rw [hSource, scan_name h.nameLength_context, hWord]

end IsIdentifier

/-! ## Which context value a name stands for -/

private theorem lastOf?_append {α : Type} (pairs : List (String × α)) (p : String × α)
    (key : String) :
    lastOf? (pairs ++ [p]) key = if p.1 == key then some p.2 else lastOf? pairs key := by
  unfold lastOf?
  split <;> simp_all

def keyed (names : List String) : List (String × Nat) :=
  names.zipIdx.map fun (name, i) => (contextKey name, i)

private theorem keyed_append (names : List String) (n : String) :
    keyed (names ++ [n]) = keyed names ++ [(contextKey n, names.length)] := by
  simp [keyed, List.zipIdx_append]

variable {n : String}

private theorem lastOf?_keyed_eq_some {before after : List String} {key : String}
    (hKey : contextKey n = key) (hAfter : ∀ m ∈ after, contextKey m ≠ key) :
    lastOf? (keyed (before ++ n :: after)) key = some before.length := by
  induction after using List.reverseRecOn with
  | nil => simp [keyed_append, lastOf?_append, hKey]
  | append_singleton after m ih =>
    rw [List.forall_mem_append] at hAfter
    have hOther : contextKey m ≠ key := hAfter.2 m List.mem_cons_self
    rw [← List.cons_append, ← List.append_assoc, keyed_append, lastOf?_append]
    simpa [hOther] using ih hAfter.1

private theorem lastOf?_keyed_eq_none {names : List String} {key : String}
    (hNone : ∀ n ∈ names, contextKey n ≠ key) : lastOf? (keyed names) key = none := by
  induction names using List.reverseRecOn with
  | nil => rfl
  | append_singleton names n ih =>
    rw [List.forall_mem_append] at hNone
    have hOther : contextKey n ≠ key := hNone.2 n List.mem_cons_self
    rw [keyed_append, lastOf?_append]
    simpa [hOther] using ih hNone.1

/-- A context value is kept under a name if that is its own, or the short form of its own. -/
theorem IsIdentifier.contextKey_eq_iff {m : String} (h : IsIdentifier m) (n : String) :
    contextKey m = lowerText n ↔ (lowerText n, lowerText m) ∈ longHeads ∨
      (lowerText m = lowerText n ∧ ∀ p ∈ longHeads, p.2 ≠ lowerText n) := by
  have hUnique : ∀ p ∈ longHeads, ∀ q ∈ longHeads, p.2 = q.2 → p.1 = q.1 := by decide
  rcases h.contextKey_cases with ⟨p, hp, hLong, hKey⟩ | ⟨hOther, hKey⟩
  · rw [hKey]
    constructor
    · intro hShort
      left
      rw [← hShort, ← hLong]
      exact hp
    · rintro (hPair | ⟨hSame, hNone⟩)
      · exact hUnique p hp _ hPair hLong
      · exact absurd (hLong.trans hSame) (hNone p hp)
  · rw [hKey]
    constructor
    · intro hSame
      exact .inr ⟨hSame, hSame ▸ hOther⟩
    · rintro (hPair | ⟨hSame, -⟩)
      · exact absurd rfl (hOther _ hPair)
      · exact hSame

section

variable {before after : List String} {m : String}

private theorem lower_ne_of_mem_after (hDifferent : ((before ++ m :: after).map lowerText).Nodup) :
    ∀ n ∈ after, lowerText n ≠ lowerText m := by
  intro n hn hSame
  rw [List.map_append, List.map_cons, List.nodup_append] at hDifferent
  exact (List.nodup_cons.mp hDifferent.2.1).1 (hSame ▸ List.mem_map_of_mem hn)

variable (hIdentifiers : ∀ n ∈ before ++ m :: after, IsIdentifier n)
  (hDifferent : ((before ++ m :: after).map lowerText).Nodup)
include hIdentifiers hDifferent

/-- **A context value is found under its own name** if that is no long form and no later one takes
its place. -/
theorem context_of_own (hOther : ∀ p ∈ longHeads, p.2 ≠ lowerText m)
    (hAfter : ∀ n ∈ after, (lowerText m, lowerText n) ∉ longHeads) :
    lastOf? (keyed (before ++ m :: after)) (lowerText m) = some before.length := by
  apply lastOf?_keyed_eq_some
  · exact ((hIdentifiers m (by simp)).contextKey_eq_iff m).mpr (.inr ⟨rfl, hOther⟩)
  · intro n hn hKey
    rcases ((hIdentifiers n (by simp [hn])).contextKey_eq_iff m).mp hKey with hPair | ⟨hSame, -⟩
    · exact hAfter n hn hPair
    · exact lower_ne_of_mem_after hDifferent n hn hSame

/-- **A long form takes the place of its short form** if it comes later. -/
theorem context_of_long (hn : n ∈ before) (hPair : (lowerText n, lowerText m) ∈ longHeads) :
    lastOf? (keyed (before ++ m :: after)) (lowerText n) = some before.length := by
  have hUnique : ∀ p ∈ longHeads, ∀ q ∈ longHeads, p.1 = q.1 → p.2 = q.2 := by decide
  apply lastOf?_keyed_eq_some
  · exact ((hIdentifiers m (by simp)).contextKey_eq_iff n).mpr (.inl hPair)
  · intro k hk hKey
    rcases ((hIdentifiers k (by simp [hk])).contextKey_eq_iff n).mp hKey with hPair' | ⟨hSame, -⟩
    · exact lower_ne_of_mem_after hDifferent k hk (hUnique _ hPair' _ hPair rfl)
    · rw [List.map_append, List.nodup_append] at hDifferent
      exact hDifferent.2.2 _ (List.mem_map_of_mem hn) _
        (List.mem_map_of_mem (List.mem_cons_of_mem m hk)) hSame.symm

end

/-- **A long form is not found** under its own name. -/
theorem context_of_hidden {names : List String} (hIdentifiers : ∀ m ∈ names, IsIdentifier m)
    (hLong : ∃ p ∈ longHeads, p.2 = lowerText n) :
    lastOf? (keyed names) (lowerText n) = none := by
  have hApart : ∀ p ∈ longHeads, ∀ q ∈ longHeads, p.1 ≠ q.2 := by decide
  obtain ⟨p, hp, hSame⟩ := hLong
  apply lastOf?_keyed_eq_none
  intro m hm hKey
  rcases ((hIdentifiers m hm).contextKey_eq_iff n).mp hKey with hPair | ⟨-, hNone⟩
  · exact hApart _ hPair p hp hSame.symm
  · exact hNone p hp hSame

/-! ## A source that consists of the name of a context value -/

namespace Dictionary

variable {dict : Dictionary} {n : String} (h : IsIdentifier n)
  (hSource : dict.setting.source = "c." ++ n)
include h hSource

theorem readSource_of_context (s : Scope) : dict.readSource s =
    (match lastOf? dict.setting.context (lowerText n) with
      | some index => return .localRead index (canonicalName ("c." ++ lowerText n))
      | none => Reading.fail dict.setting (.unknownContext (lowerText n)) 0 (n.length + 2) :
        Reading Expr) s := by
  have hText : dict.setting.source.toList.all isBlank = false := by
    rw [hSource, String.toList_append, List.all_append]
    rfl
  have hScan : scan 1 dict.setting.source = ⟨[⟨.name ("c." ++ lowerText n), 0, 1⟩],
      .finished, 1⟩ := by
    rw [hSource]
    exact h.scan_context 1
  have hSome : lowerText n ≠ "" := by
    intro hEmpty
    obtain ⟨c, rest, hChars, -⟩ := h.exists_start
    have hLower := h.toList_lower
    rw [hEmpty, hChars] at hLower
    cases hLower
  have hLength : 0 + ("c." ++ lowerText n).length = n.length + 2 := by
    rw [← String.length_toList, String.toList_append, List.length_append, h.toList_lower,
      List.length_map, String.length_toList]
    show 0 + (2 + n.length) = _
    omega
  rw [readSource_of_name hText hScan]
  dsimp only [actions]
  unfold name
  rw [h.nameParts_context, hLength]
  dsimp only
  rw [if_neg (by simp), if_neg (by simp)]
  exact congrFun (if_pos (⟨rfl, hSome⟩ : "c" = "c" ∧ lowerText n ≠ "")) s

end Dictionary

namespace Workshop

variable {r : Request} {n : String} (h : IsIdentifier n) (hSource : r.source = "c." ++ n)
    {w : Workshop}
include h hSource

variable {index : Nat}

theorem read_context (hFound : lastOf? (keyed r.context) (lowerText n) = some index) :
    read r w = .ok (.localRead index (canonicalName ("c." ++ lowerText n)), 0) w := by
  refine read_eq_ok.mpr ⟨.start w.tenant, ?_, rfl, rfl⟩
  have hRead : (w.dictionary r).readSource (.start w.tenant) = _ :=
    Dictionary.readSource_of_context h hSource _
  rw [show lastOf? (w.dictionary r).setting.context (lowerText n) = some index from hFound] at hRead
  exact hRead

/-- **A name that no context value is kept under** cannot be compiled. -/
theorem compile_unknown_context (hContext : r.context.length ≤ maxContextValues)
    (hMissing : lastOf? (keyed r.context) (lowerText n) = none) (home : Nat) :
    compile home r w =
      .error (.source ⟨.unknownContext (lowerText n), r.source, 0, (n.length + 2 : Nat)⟩) w := by
  have hScope : (w.dictionary r).readSource (.start w.tenant) = _ :=
    Dictionary.readSource_of_context h hSource _
  rw [show lastOf? (w.dictionary r).setting.context (lowerText n) = none from hMissing] at hScope
  have hRead : read r w = .error
      (.source ⟨.unknownContext (lowerText n), r.source, 0, (n.length + 2 : Nat)⟩) w := by
    unfold read
    rw [get_bind]
    unfold onPart
    dsimp only
    rw [bind_of_error hScope]
    rfl
  unfold compile
  rw [if_neg (Nat.not_lt.mpr hContext)]
  exact bind_of_error hRead

/-- **The name of a context value can be compiled** if bytes are not limited. -/
theorem compile_context_succeeds (hIndex : index < r.context.length)
    (hFound : lastOf? (keyed r.context) (lowerText n) = some index)
    (hContext : r.context.length ≤ maxContextValues) (hUnlimited : w.books.Unlimited) (home : Nat) :
    ∃ a w', compile home r w = .ok a w' := by
  have hWF : (Expr.localRead index (canonicalName ("c." ++ lowerText n))).Compilable
      ⟨r.context.length, 0, 0⟩ := by
    refine ⟨⟨?_, ?_⟩, trivial⟩
    · exact Nat.ne_of_lt hIndex
    · show index < r.context.length + 1 + 0
      omega
  exact compile_of_shallow home hContext (read_context h hSource hFound) hUnlimited hWF trivial
    (Nat.zero_le _)

theorem compile_context (hIndex : index < r.context.length)
    (hFound : lastOf? (keyed r.context) (lowerText n) = some index) (hSound : w.inst.space.Sound)
    {home : Nat} {a : Artifact} {w' : Workshop} (hCompile : compile home r w = .ok a w') :
    a.Renders (.localRead index (canonicalName ("c." ++ lowerText n))) 0 w'.inst := by
  obtain ⟨-, -, p, w₁, d, hCompiled⟩ := (compile_keeps home r w).of_ok hSound hCompile
  cases (read_context h hSource hFound).symm.trans hCompiled.read
  apply hCompiled.renders_of_compilable (Nat.zero_le _)
  refine ⟨⟨?_, ?_⟩, trivial⟩
  · exact Nat.ne_of_lt hIndex
  · show index < r.context.length + 1 + 0
    omega

end Workshop

namespace Session

variable {index : Nat}

/-- **An argument** is what a tree that consists of its local stands for. -/
theorem evaluate_argument {ω : Type} (surroundings : Surroundings ω) {args : List Float} {x : Float}
    (hx : args[index]? = some x) (name : String) (temps : Nat) (world : ω) :
    (Expr.localRead index name).evaluate surroundings (args.map single) temps world =
      .ok [single x] world := by
  have hLocal : startLocals (args.map single) temps index = some (single x) := by
    have hLess : index < (args.map single).length := by
      rw [List.length_map]
      exact (List.getElem?_eq_some_iff.mp hx).1
    rw [startLocals, if_pos hLess, List.getElem?_map, hx]
    rfl
  have hRead : readLocal index (⟨startLocals (args.map single) temps, world⟩ : Activation ω) =
      .ok (single x) ⟨startLocals (args.map single) temps, world⟩ := by
    unfold readLocal
    rw [get_bind]
    dsimp only
    rw [hLocal]
    rfl
  have hValues : (Expr.localRead index name).outcome surroundings
      ⟨startLocals (args.map single) temps, world⟩ =
      .ok [single (single x)] ⟨startLocals (args.map single) temps, world⟩ := bind_of_ok hRead
  unfold Expr.evaluate
  rw [hValues, single_single]

/-- A source can be compiled on an instance, unless bytes are limited, and what is compiled returns
one of its arguments in single precision, now and later, whenever nothing hinders its evaluation. -/
structure ReturnsArgument (s : Session) (number : Nat) (r : Request) (index : Nat) : Prop where
  compiles : (s.workshop number).books.Unlimited →
    ∃ a s', onInstance number (Workshop.compile number r) s = .ok a s'
  returns : ∀ {a : Artifact} {s' t : Session} {i j : Instance} {args : List Float},
    onInstance number (Workshop.compile number r) s = .ok a s' → s'.instance? number = some i →
    t.instance? number = some j → i.Precedes j → t.Sound → t.Unhindered number →
    args.length = r.context.length → ∀ (host : Host) (limit : Nat),
    ∃ x t', args[index]? = some x ∧ hosted host (limit + 1) a args t = .ok [single x] t'

variable {s : Session} {number : Nat} {i : Instance}

/-- **The name of a context value returns its argument.** -/
theorem returnsArgument_of_found (hSound : s.Sound) (hAt : s.instance? number = some i)
    {r : Request} (h : IsIdentifier n) (hSource : r.source = "c." ++ n)
    (hIndex : index < r.context.length) (hContext : r.context.length ≤ maxContextValues)
    (hFound : lastOf? (keyed r.context) (lowerText n) = some index) :
    s.ReturnsArgument number r index where
  compiles hUnlimited := by
    obtain ⟨a, w, hRun⟩ :=
      Workshop.compile_context_succeeds h hSource hIndex hFound hContext hUnlimited number
    exact ⟨a, s.setWorkshop number w, onPart_of_ok hRun⟩
  returns := by
    intro a s' t i' j args hCompile hAt' hLaterAt hLater hSound' hFree hArgs host limit
    obtain ⟨-, -, hHoused⟩ := (compile_keeps hAt r).of_ok hSound hCompile
    obtain ⟨hRun, hThere, p, w₁, d, hCompiled⟩ := compiled_of_compile hAt hSound hCompile
    have hRenders := Workshop.compile_context h hSource hIndex hFound (hSound.workshop hAt) hRun
    cases hThere.symm.trans hAt'
    obtain rfl : a.home = number := hCompiled.home
    obtain ⟨j', hj', hFree⟩ := hFree
    cases hLaterAt.symm.trans hj'
    have hHoused' : t.Houses a := by
      obtain ⟨i₁, hi₁, hSuits⟩ := hHoused
      cases hThere.symm.trans hi₁
      exact ⟨j, hLaterAt, hSuits.mono hLater.space.cursor hLater.buffer hLater.queries⟩
    obtain ⟨x, hx⟩ : ∃ x, args[index]? = some x :=
      ⟨_, List.getElem?_eq_getElem (hArgs ▸ hIndex)⟩
    have hRenders' : a.Renders (.localRead index (canonicalName ("c." ++ lowerText n))) 0 j :=
      hRenders.mono hLater.space.cursor hLater.buffer
    have hDenotes := hosted_denotes (mute_impartial a.home) limit hRenders' trivial hSound' hHoused'
      hLaterAt hFree (hArgs.trans hCompiled.args.symm)
    rw [evaluate_argument _ hx] at hDenotes
    obtain ⟨ys, t', hHosted, rfl, -⟩ := hDenotes.of_ok_left
    exact ⟨x, t', hx, hosted_of_mute host hHosted⟩

/-- **Context values are read by their names**, but for long forms of heads.  Let up to eight
context values have identifiers for names, which are different in lower case.

If the name of one of them is no long form, and none of the later ones is called by its long form,
then the name behind `c.` can be compiled as long as bytes are not limited, and evaluating it
returns just this argument in single precision.  If a later one is called by its long form, it
returns the argument of that one instead.  A context value that is called by a long form cannot be
read under its own name: it is unknown. -/
theorem context_values_are_read_by_name (hSound : s.Sound) (hAt : s.instance? number = some i)
    {names : List String} (hIdentifiers : ∀ n ∈ names, IsIdentifier n)
    (hDifferent : (names.map lowerText).Nodup) (hFew : names.length ≤ 8) {k : Nat} {n : String}
    (hk : names[k]? = some n) (constants : List (String × List Float)) :
    ((∀ p ∈ longHeads, p.2 ≠ lowerText n) →
      (∀ j m, k < j → names[j]? = some m → (lowerText n, lowerText m) ∉ longHeads) →
      s.ReturnsArgument number ⟨"c." ++ n, names, constants⟩ k) ∧
    (∀ j m, k < j → names[j]? = some m → (lowerText n, lowerText m) ∈ longHeads →
      s.ReturnsArgument number ⟨"c." ++ n, names, constants⟩ j) ∧
    ((∃ p ∈ longHeads, p.2 = lowerText n) →
      ∃ s', onInstance number (Workshop.compile number ⟨"c." ++ n, names, constants⟩) s =
        .error (.source ⟨.unknownContext (lowerText n), "c." ++ n, 0, (n.length + 2 : Nat)⟩)
        s') := by
  have hIdentifier : IsIdentifier n := hIdentifiers n (List.mem_of_getElem? hk)
  -- the names before and behind one of them
  have hSplit {j : Nat} {m : String} (hj : names[j]? = some m) :
      ∃ before after, names = before ++ m :: after ∧ before.length = j := by
    obtain ⟨hLess, hAtJ⟩ := List.getElem?_eq_some_iff.mp hj
    refine ⟨names.take j, names.drop (j + 1), ?_, List.length_take_of_le (Nat.le_of_lt hLess)⟩
    rw [← hAtJ, ← List.drop_eq_getElem_cons hLess, List.take_append_drop]
  refine ⟨fun hOther hAfter => ?_, fun j m hLater hj hPair => ?_, fun hLong => ?_⟩
  · obtain ⟨before, after, rfl, rfl⟩ := hSplit hk
    apply returnsArgument_of_found hSound hAt hIdentifier rfl (by simp) hFew
    apply context_of_own hIdentifiers hDifferent hOther
    intro m hm
    obtain ⟨j, hj⟩ := List.getElem?_of_mem hm
    refine hAfter (before.length + 1 + j) m (by omega) ?_
    rw [List.getElem?_append_right (by omega), ← hj,
      show before.length + 1 + j - before.length = j + 1 by omega, List.getElem?_cons_succ]
  · obtain ⟨before, after, rfl, rfl⟩ := hSplit hj
    apply returnsArgument_of_found hSound hAt hIdentifier rfl (by simp) hFew
    apply context_of_long hIdentifiers hDifferent _ hPair
    rw [List.getElem?_append_left hLater] at hk
    exact List.mem_of_getElem? hk
  · have hHidden := context_of_hidden hIdentifiers hLong
    exact ⟨_, onPart_of_error
      (Workshop.compile_unknown_context hIdentifier rfl hFew hHidden number)⟩

/-- On an idle instance whose bytes are not limited, such a source is compiled and evaluated. -/
theorem ReturnsArgument.run {r : Request} (h : s.ReturnsArgument number r index) (hSound : s.Sound)
    (hAt : s.instance? number = some i) (hIdle : i.depth = 0)
    (hUnlimited : (s.workshop number).books.Unlimited) (args : List Float)
    (hArgs : args.length = r.context.length) (host : Host) (limit : Nat) :
    ∃ a s' x t, onInstance number (Workshop.compile number r) s = .ok a s' ∧ args[index]? = some x ∧
      hosted host (limit + 1) a args s' = .ok [single x] t := by
  obtain ⟨a, s', hCompile⟩ := h.compiles hUnlimited
  obtain ⟨hSound', hGrows, -⟩ := (compile_keeps hAt r).of_ok hSound hCompile
  obtain ⟨i', hAt', hMore⟩ := hGrows.some hAt
  have hFree : s'.Unhindered number := ⟨i', hAt', .inl (hMore.depth.trans hIdle)⟩
  obtain ⟨x, t, hx, hHosted⟩ :=
    h.returns hCompile hAt' hAt' (.refl i') hSound' hFree hArgs host limit
  exact ⟨a, s', x, t, hCompile, hx, hHosted⟩

/-- Of three context values the last one is called by the long form of the second one's name. -/
def threeNames : List String := ["X_1", "v", "Variable"]

/-- The first one is read under its name, the second name reads the third one, and the third name is
unknown. -/
theorem three_context_values : defaultSession.Sound ∧ (∀ n ∈ threeNames, IsIdentifier n) ∧
    (threeNames.map lowerText).Nodup ∧
    (∃ a s' t, onInstance 0 (Workshop.compile 0 ⟨"c.X_1", threeNames, []⟩) defaultSession =
      .ok a s' ∧ hosted .mute 256 a [0.1, 2, 3] s' = .ok [single 0.1] t) ∧
    (∃ a s' t, onInstance 0 (Workshop.compile 0 ⟨"c.v", threeNames, []⟩) defaultSession = .ok a s' ∧
      hosted .mute 256 a [0.1, 2, 3] s' = .ok [single 3] t) ∧
    ∃ s', onInstance 0 (Workshop.compile 0 ⟨"c.Variable", threeNames, []⟩) defaultSession =
      .error (.source ⟨.unknownContext "variable", "c.Variable", 0, 10⟩) s' := by
  have hSound : defaultSession.Sound := (reached_obeyAll "a" _ _).atRest.sound
  have hAt : defaultSession.instance? 0 = some (.fresh Query.defaults [] false) := rfl
  have hUnlimited : (defaultSession.workshop 0).books.Unlimited := fun _ hLedger => nomatch hLedger
  have hIdentifiers : ∀ n ∈ threeNames, IsIdentifier n := by decide
  have hDifferent : (threeNames.map lowerText).Nodup := by decide +kernel
  have hReads {k : Nat} {n : String} (hk : threeNames[k]? = some n) :=
    context_values_are_read_by_name hSound hAt hIdentifiers hDifferent (by decide) hk []
  have hFirst : defaultSession.ReturnsArgument 0 ⟨"c.X_1", threeNames, []⟩ 0 := by
    apply (hReads (k := 0) rfl).1
    · decide +kernel
    · intro j m _ _ hPair
      have hNone : ∀ p ∈ longHeads, p.1 ≠ lowerText "X_1" := by decide +kernel
      exact hNone _ hPair rfl
  have hSecond : defaultSession.ReturnsArgument 0 ⟨"c.v", threeNames, []⟩ 2 :=
    (hReads (k := 1) rfl).2.1 2 "Variable" (by decide) rfl (by decide +kernel)
  have hThird := (hReads (k := 2) rfl).2.2 (by decide +kernel)
  obtain ⟨a, s', x, t, hCompile, hx, hValue⟩ :=
    hFirst.run hSound hAt rfl hUnlimited [0.1, 2, 3] rfl .mute 255
  obtain ⟨a', s'', x', t', hCompile', hx', hValue'⟩ :=
    hSecond.run hSound hAt rfl hUnlimited [0.1, 2, 3] rfl .mute 255
  cases hx
  cases hx'
  exact ⟨hSound, hIdentifiers, hDifferent, ⟨a, s', t, hCompile, hValue⟩,
    ⟨a', s'', t', hCompile', hValue'⟩, hThird⟩

/-- What a source returns on the first instance, or whether it has an unknown context value. -/
def outcomeOf (source : String) (names : List String) (args : List Float) (s : Session) :
    Option (List Float) × Bool :=
  match (do
    let a ← onInstance 0 (Workshop.compile 0 ⟨source, names, []⟩)
    hosted .mute 256 a args : Act Session (List Float)) s with
  | .ok xs _ => (some xs, false)
  | .error (.source ⟨.unknownContext _, _, _, _⟩) _ => (none, true)
  | .error _ _ => (none, false)

/-- **Long forms are not read under their own names**, and they take the places of short ones. -/
theorem long_context_names_go_astray :
    ((outcomeOf "c.variable" ["variable"] [5] defaultSession).2 = true) ∧
    ((outcomeOf "c.v" ["v", "variable"] [5, 7] defaultSession).1 == some [7]) = true :=
  ⟨by decide +kernel, by decide +kernel⟩

end Session

end MolangCompiler
