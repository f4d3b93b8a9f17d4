import MolangCompiler.Proofs.Lookup
import MolangCompiler.Proofs.Refusals
import MolangCompiler.Proofs.Spans
import MolangCompiler.Proofs.Unbilled

/-!
# Widths in trees that are read

The reader checks widths wherever a single value or equal widths are needed.  Two things need more
than a look at each node.  A sequence is as wide as its returns: the width that is kept in the scope
comes from a return that is among the statements.  And a source never asks for a variable of an
impossible size: every expression has at least one value, the size that is put in front of a name is
read back as it was written, and a name without a size stands for a single value.  A size of more
than `maxDigits` digits can be neither written nor read, and is reported as such.  Problems are
reported where a token stands, or at the end of the source.
-/

namespace MolangCompiler

/-! ## Sizes in names -/

private theorem digitValue?_of_isDigit {c : Char} (h : c.isDigit = true) :
    digitValue? c = some (c.toNat - 48) := by
  obtain ⟨hLow, hHigh⟩ : 48 ≤ c.toNat ∧ c.toNat ≤ 57 := by
    simpa [Char.isDigit, UInt32.le_iff_toNat_le] using h
  unfold digitValue?
  rw [if_pos (by omega), if_pos ⟨hLow, hHigh⟩]

private theorem isMargin_of_isDigit {c : Char} (h : c.isDigit = true) : isMargin c = false := by
  have hAscii : c.toNat < 128 := by
    have hHigh : 48 ≤ c.toNat ∧ c.toNat ≤ 57 := by
      simpa [Char.isDigit, UInt32.le_iff_toNat_le] using h
    omega
  exact ascii_forall (p := fun c => c.isDigit = true → isMargin c = false) (by decide) hAscii h

private theorem numeralDigits?_of_digits {cs : List Char} (hSome : cs ≠ [])
    (h : ∀ c ∈ cs, c.isDigit = true) : numeralDigits? cs = some (cs.map fun c => c.toNat - 48) := by
  induction cs using numeralDigits?.induct with
  | case1 => exact absurd rfl hSome
  | case2 c =>
    simp only [numeralDigits?, digitValue?_of_isDigit (h c List.mem_cons_self)]
    rfl
  | case3 c rest ih =>
    exact absurd (h '_' (List.mem_cons_of_mem c List.mem_cons_self)) (by decide)
  | case4 c d rest hUnderscore ih =>
    have hRest := ih (List.cons_ne_nil d rest) fun x hx => h x (List.mem_cons_of_mem c hx)
    unfold numeralDigits?
    simp [digitValue?_of_isDigit (h c List.mem_cons_self), hRest]

private theorem readNatural?_toDigits (n : Nat) : readNatural? (Nat.toDigits 10 n) =
    if (Nat.toDigits 10 n).length ≤ maxDigits then some n else none := by
  have hDigits : ∀ c ∈ Nat.toDigits 10 n, c.isDigit = true := fun c hc =>
    Nat.isDigit_of_mem_toDigits (by decide) (by decide) hc
  have hValue := Nat.ofDigitChars_toDigits (b := 10) (n := n) (by decide) (by decide)
  unfold readNatural?
  rw [numeralDigits?_of_digits Nat.toDigits_ne_nil hDigits]
  simp only [Option.bind_eq_bind, Option.bind_some, List.length_map, List.foldl_map]
  split
  · exact congrArg some hValue
  · rfl

/-- **A number that is written is read back**, unless it is too long. -/
theorem readInteger?_toString (n : Nat) : readInteger? (toString (n : Int)).toList =
    if (Nat.toDigits 10 n).length ≤ maxDigits then some (n : Int) else none := by
  have hDigits : ∀ c ∈ Nat.toDigits 10 n, c.isDigit = true := fun c hc =>
    Nat.isDigit_of_mem_toDigits (by decide) (by decide) hc
  have hText : (toString (n : Int)).toList = Nat.toDigits 10 n := Nat.toList_repr
  -- digits are no margin, so nothing is trimmed at either end
  have hTrim {cs : List Char} (h : ∀ c ∈ cs, c.isDigit = true) : cs.dropWhile isMargin = cs := by
    cases cs with
    | nil => rfl
    | cons c rest =>
      rw [List.dropWhile_cons_of_neg]
      rw [isMargin_of_isDigit (h c List.mem_cons_self)]
      decide
  have hReverse : ∀ c ∈ (Nat.toDigits 10 n).reverse, c.isDigit = true := fun c hc =>
    hDigits c (List.mem_reverse.mp hc)
  unfold readInteger?
  rw [hText, hTrim hDigits, hTrim hReverse, List.reverse_reverse]
  dsimp only
  split
  · rename_i rest hMinus
    exact absurd (hDigits '-' (hMinus ▸ List.mem_cons_self)) (by decide)
  · rename_i rest hPlus
    exact absurd (hDigits '+' (hPlus ▸ List.mem_cons_self)) (by decide)
  · rw [readNatural?_toDigits, apply_ite (Option.map Int.ofNat)]
    rfl

variable {name : String}

theorem encodedSize?_sizedName (hPlain : '$' ∉ name.toList) (n : Nat) :
    encodedSize? (sizedName name n) = if n = 1 then none else
      some (if (Nat.toDigits 10 n).length ≤ maxDigits then (n : Int) else -1) := by
  unfold sizedName
  by_cases hOne : n = 1
  · rw [if_pos hOne, if_pos (by omega), encodedSize?, if_neg (by simpa using hPlain)]
  · have hDollar : (toString (n : Int) ++ "$" ++ name).toList.contains '$' = true := by simp
    have hDigits : ∀ c ∈ (toString (n : Int)).toList, (c != '$') = true := fun c hc =>
      bne_iff_ne.mpr fun hSame => dollar_not_mem_toString n (hSame ▸ hc)
    have hCut : (cutAt '$' (toString (n : Int) ++ "$" ++ name).toList).1 =
        (toString (n : Int)).toList := by
      unfold cutAt
      rw [String.toList_append, String.toList_append, List.append_assoc,
        List.takeWhile_append_of_pos hDigits]
      exact List.append_nil _
    rw [if_neg hOne, if_neg (by omega), encodedSize?, if_pos hDollar, hCut, readInteger?_toString]
    split <;> rfl

/-- **The size in a name** is the size that is asked for, unless its numeral is too long. -/
theorem sizeProblem?_sizedName (hPlain : '$' ∉ name.toList) {n : Nat} (hPositive : 1 ≤ n) :
    (Namespace.sizeProblem? (sizedName name n) n).map SizeProblem.failure =
      if (Nat.toDigits 10 n).length ≤ maxDigits then none else some (.tree .numeralLength) := by
  unfold Namespace.sizeProblem?
  rw [encodedSize?_sizedName hPlain, if_neg (by omega)]
  by_cases hShort : (Nat.toDigits 10 n).length ≤ maxDigits
  · rw [if_pos hShort, if_pos hShort, if_neg]
    · rfl
    · by_cases hOne : n = 1 <;> simp [hOne]
  · have hMany : n ≠ 1 := by
      rintro rfl
      exact hShort (by decide)
    rw [if_neg hShort, if_neg hShort, if_neg hMany, if_pos (by simp)]
    exact congrArg some (if_neg hShort)

/-! ## Making a variable -/

namespace Tenant

/-- **Making a variable** fails only if its bytes are refused. -/
theorem create_concludes (name : String) {size : Nat} (hSize : 0 < size) (t : Tenant) :
    Concludes (fun _ _ => True) (fun f _ => ∃ r, f = .refused r) (create name size t) := by
  have hShadows := create_unbilled name size t trivial
  rcases create_pays hSize (nofun : t.unbilled.Owned) with ⟨v, t', hCreate, -⟩ | ⟨r, t', -, hNo, -⟩
  · rw [hCreate] at hShadows
    rcases hShadows.of_ok with ⟨r, t', hRefused⟩ | ⟨t', hPaid, -⟩
    · rw [hRefused]
      exact .error ⟨r, rfl⟩
    · rw [hPaid]
      exact .ok trivial
  · cases hNo

/-- **A variable that is missing is made** under its name with its size in front, unless the size is
too long to be written. -/
theorem obtain_sizedName {t : Tenant} (hPlain : '$' ∉ name.toList) (hSome : name ≠ "")
    (hMissing : t.space.find? name = none) {n : Nat} (hPositive : 1 ≤ n) :
    obtain (sizedName name n) n t =
      if (Nat.toDigits 10 n).length ≤ maxDigits then create (sizedName name n) n t
      else .error (.tree .numeralLength) t := by
  have hFree : t.space.get? (sizedName name n) = none :=
    Namespace.get?_sizedName hPlain hSome hMissing
  have hProblem := sizeProblem?_sizedName hPlain hPositive
  split
  · rename_i hShort
    rw [if_pos hShort, Option.map_eq_none_iff] at hProblem
    exact obtain_eq_create hFree hProblem
  · rename_i hLong
    rw [if_neg hLong, Option.map_eq_some_iff] at hProblem
    obtain ⟨problem, hProblem, hFailure⟩ := hProblem
    unfold obtain
    rw [get_bind, hFree, hProblem, ← hFailure]
    rfl

end Tenant

/-! ## Places -/

/-- A problem within a source, about no character only if the source is blank or ends too early. -/
structure SourceError.Within (source : String) (e : SourceError) : Prop where
  source_eq : e.source = source
  start_le : e.start ≤ e.stop
  stop_le : e.stop ≤ source.length
  about : e.start = e.stop → e.problem = .unexpectedEnd ∨
    e.problem = .emptySource ∧ source.toList.all isBlank = true

namespace Setting

variable {st : Setting} {pos n : Nat}

theorem allows_within (h : 0 < n ∧ pos + n ≤ st.source.length) :
    st.Allows (SourceError.Within st.source) pos (pos + n) := fun _ =>
  ⟨rfl, Nat.le_add_right _ _, h.2, fun hSame =>
    absurd hSame (Nat.ne_of_lt (Nat.lt_add_of_pos_right h.1))⟩

/-- A token that stands in the source. -/
def Carries (st : Setting) (l : Lexeme) (pos : Nat) : Prop :=
  l.Named Spelled ∧ 0 < l.extent ∧ pos + l.extent ≤ st.source.length

theorem Carries.allows {l : Lexeme} (h : st.Carries l pos) :
    st.Allows (SourceError.Within st.source) pos (pos + l.extent) := allows_within h.2

theorem carries_of_mem_scan {t : Token} (ht : t ∈ (scan 1 st.source).tokens) :
    st.Carries t.lexeme t.start := by
  obtain ⟨n, hNext⟩ := nextLexeme?_of_mem_scan ht
  obtain ⟨-, hLe, hSome, hExtent⟩ := nextLexeme?_bounds hNext
  rw [List.length_drop, String.length_toList] at hLe
  exact ⟨named_of_mem_scan ht, hSome, by omega⟩

theorem allows_of_marks {start stop : Nat} (h : Lexeme.Marks st.Carries start stop) :
    st.Allows (SourceError.Within st.source) start stop := by
  cases h with
  | token hCarries => exact allows_within hCarries.2
  | canonical hCarries =>
    obtain ⟨hSpelled, hWritten⟩ := hCarries
    have hShort := hSpelled.canonicalName_within hWritten.1
    exact allows_within ⟨hShort.1, Nat.le_trans (Nat.add_le_add_left hShort.2 start) hWritten.2⟩

/-- **Problems in the order of tokens** have their place in the source. -/
theorem Blamed.within {problem : SourceProblem} {start stop : Nat}
    (h : st.Blamed problem start stop) :
    SourceError.Within st.source ⟨problem, st.source, start, stop⟩ := by
  cases h with
  | empty hBlank => exact ⟨rfl, Nat.le_refl _, Nat.zero_le _, fun _ => .inr ⟨rfl, hBlank⟩⟩
  | ended => exact ⟨rfl, Nat.le_refl _, Nat.le_refl _, fun _ => .inl rfl⟩
  | token ht => exact (carries_of_mem_scan ht).allows _
  | illegal hStop =>
    obtain ⟨spans, stop, hSpans, -⟩ := scanFrom_partition st.source.toList 0 1 (Nat.zero_le _)
    have hEnd := hSpans.ended
    rw [List.drop_zero, show (scanFrom 0 1 0 st.source.toList).stop = _ from hStop] at hEnd
    obtain ⟨hLess, -⟩ := List.getElem?_eq_some_iff.mp hEnd.2.1
    rw [String.length_toList] at hLess
    exact allows_within ⟨Nat.one_pos, hLess⟩ _

end Setting

/-! ## What is known while a source is read -/

/-- What is known of a scope while the given statements are finished: the namespace is sound,
expressions have values, and the width that is kept is that of a return among the statements. -/
structure Scope.Tidy (statements : List Stmt) (s : Scope) : Prop where
  space : s.tenant.space.Sound
  filled : ∀ t ∈ statements, t.expr.Each Expr.Filled
  width : ∀ w, s.returnWidth = some w → 1 ≤ w ∧ ∃ value, Stmt.ret value ∈ statements

/-- What is known of a whole source: every expression has values, and so has the source; a sequence
without a return has one. -/
structure Expr.Rounded (e : Expr) : Prop where
  filled : e.EachNode Filled
  width : 1 ≤ e.width
  single : ∀ statements width, e = .sequence statements width →
    (∀ value, Stmt.ret value ∉ statements) → width = 1

namespace Scope.Tidy

variable {l : List Stmt} {s s' : Scope}

theorem congr (h : s.Tidy l) (hTenant : s'.tenant = s.tenant)
    (hWidth : s'.returnWidth = s.returnWidth) : s'.Tidy l :=
  ⟨hTenant ▸ h.space, h.filled, hWidth ▸ h.width⟩

theorem snoc (h : s.Tidy l) {t : Stmt} (hT : t.expr.Each Expr.Filled) : s.Tidy (l ++ [t]) := by
  refine ⟨h.space, forall_mem_snoc h.filled hT, fun w hw => ?_⟩
  obtain ⟨hPositive, value, hMem⟩ := h.width w hw
  exact ⟨hPositive, value, List.mem_append_left _ hMem⟩

end Scope.Tidy

/-- Tidy scopes, as a view of readings that fail for other reasons than sizes. -/
def Scope.tidying (st : Setting) : View Scope Scope Scope Expr Stmt where
  rel p x _ s := Concludes p (fun f _ => f.Other (SourceError.Within st.source)) (x s)
  pure h := .ok h
  bind h hNext := .bind h hNext
  later _ _ := True
  refl _ := trivial
  fits _ e := e.Each Expr.Filled
  mono _ h := h
  stands := st.Carries
  pending _ _ l s := s.Tidy l
  whole _ _ e := e.Rounded
  whole_of_fits {_ _ e} h _ := by
    refine ⟨?_, Expr.one_le_width e h, ?_⟩
    · cases e with
      | sequence => exact absurd h id
      | _ => exact h
    · rintro statements width rfl
      exact absurd h id
  fails _ := True
  fails_of_pending _ := trivial
  fails_of_whole _ := trivial

/-! ## Queries -/

/-- A query that is no template, and that returns at least one value if it calls the host. -/
def Query.Supplies : Query → Prop
  | .host _ _ width => 1 ≤ width
  | .template .. => False
  | _ => True

instance : DecidablePred Query.Supplies
  | .host _ _ width => inferInstanceAs (Decidable (1 ≤ width))
  | .template .. => inferInstanceAs (Decidable False)
  | .helper .. | .constant _ | .clamp | .lerp => inferInstanceAs (Decidable True)

theorem Query.Supplies.obeys {query : Query} (h : query.Supplies) : query.Obeys .any := by
  cases query with
  | helper => exact fun _ _ => trivial
  | clamp => exact ⟨trivial, trivial⟩
  | constant | host | lerp => trivial
  | template => exact h

/-- **What a query expands to** has values if its arguments have. -/
theorem Query.Expands.filled {query : Query} {first : Nat} {s s' : Scope} {args : List Expr}
    {e : Expr} (hExpands : query.Expands first s args e s') (h : query.Supplies)
    (hArgs : ∀ e ∈ args, e.Each Expr.Filled) : e.Each Expr.Filled := by
  have hAll : Expr.EachOf Expr.Filled args := (Expr.eachOf_iff args).mpr hArgs
  cases hExpands with
  | helper => exact ⟨trivial, hAll⟩
  | constant hSome => exact hSome
  | host => exact ⟨h, hAll⟩
  | clamp =>
    obtain ⟨hValue, hLow, hHigh, -⟩ := hAll
    exact ⟨trivial, ⟨trivial, hValue, hLow, trivial⟩, hHigh, trivial⟩
  | lerp =>
    obtain ⟨hA, hB, hT, -⟩ := hAll
    exact ⟨trivial, hA, trivial, trivial, trivial, ⟨trivial, hB, trivial⟩, hT⟩

/-! ## The actions of a dictionary -/

namespace Scope

variable {l : List Stmt} {s s' : Scope} {name : String} {size : Int}

theorem Gets.tidy {v : Variable} (h : s.Gets name size v s') (hS : s.Tidy l) :
    1 ≤ v.size ∧ s'.Tidy l := by
  cases h with
  | found hFound => exact ⟨(hS.space.sized v (Namespace.mem_of_find? hFound)).1, hS⟩
  | made _ hMade =>
    obtain ⟨t, hObtain, rfl⟩ := onPart_eq_ok.mp hMade
    obtain ⟨hSpace, -, hMem, -⟩ := (Tenant.obtain_keeps _ _ _).of_ok hS.space hObtain
    exact ⟨(hSpace.sized v hMem).1, hSpace, hS.filled, hS.width⟩

/-- **A variable that is named** cannot be made for other reasons than its size. -/
theorem Misses.other {f : Failure} (h : s.Misses name size f s')
    (hPlain : '$' ∉ name.toList) (hSome : name ≠ "") (hPositive : 1 ≤ size)
    (P : SourceError → Prop) :
    f.Other P := by
  obtain ⟨n, rfl⟩ := Int.eq_ofNat_of_zero_le (Int.le_trans (by decide) hPositive)
  have hFails : Concludes (fun _ _ => True) (fun f _ => f.Other P)
      (Tenant.obtain (sizedName name n) n s.tenant) := by
    rw [Tenant.obtain_sizedName hPlain hSome h.1 (by omega)]
    split
    · refine .mono (Tenant.create_concludes _ (by omega) _) (fun _ _ h => h) ?_
      rintro f t ⟨r, rfl⟩
      trivial
    · exact .error trivial
  have hFailed := h.2
  unfold Reading.obtainVariable onPart at hFailed
  generalize Tenant.obtain (sizedName name n) n s.tenant = out at hFails hFailed
  cases hFails with
  | ok => cases hFailed
  | error hOther =>
    cases hFailed
    exact hOther

theorem Tidy.rounded (hS : s.Tidy l) : (Expr.sequence l s.resultWidth).Rounded := by
  have hWidth : 1 ≤ s.resultWidth := by
    unfold resultWidth
    cases hReturn : s.returnWidth with
    | none => exact Int.le_refl 1
    | some w =>
      have hPositive := (hS.width w hReturn).1
      dsimp only
      split <;> omega
  refine ⟨hS.filled, hWidth, ?_⟩
  rintro statements width hSame hNone
  cases hSame
  cases hReturn : s.returnWidth with
  | none => rw [resultWidth, hReturn]
  | some w =>
    obtain ⟨-, value, hMem⟩ := hS.width w hReturn
    exact absurd hMem (hNone value)

end Scope

namespace Dictionary

open Reading

variable {dict : Dictionary}

theorem templateless_of_supplies (hQueries : ∀ q ∈ dict.queries, q.2.Supplies) :
    dict.Templateless := by
  intro q hq arity report tree hSame
  exact (hSame ▸ hQueries q hq : (Query.template arity report tree).Supplies)

theorem Builds.filled (hQueries : ∀ q ∈ dict.queries, q.2.Supplies) {s s' : Scope}
    {parts : List Expr} {e : Expr} (h : dict.Builds s parts e s')
    (hParts : ∀ e ∈ parts, e.Each Expr.Filled) : e.Each Expr.Filled := by
  have hAll : Expr.EachOf Expr.Filled parts := (Expr.eachOf_iff parts).mpr hParts
  cases h with
  | constant hSome | folded hSome => exact hSome
  | temp | context => trivial
  | query hMem hExpand =>
    obtain ⟨e, hNode, -, hExpands⟩ :=
      Query.expands_of_ok (templateless_of_supplies hQueries _ hMem) hExpand
    cases hNode
    exact hExpands.filled (hQueries _ hMem) hParts
  | negate | not => exact ⟨trivial, hAll.1⟩
  | binary | logical => exact ⟨trivial, hAll.1, hAll.2.1⟩
  | ternary => exact ⟨trivial, hAll.1, hAll.2.1, hAll.2.2.1⟩
  | vector hSome => exact ⟨hSome, hAll⟩

/-- **The actions of a dictionary** keep scopes tidy, and fail for other reasons than sizes. -/
theorem tidying_honoured (hQueries : ∀ q ∈ dict.queries, q.2.Supplies) :
    dict.Honours (Scope.tidying dict.setting)
      fun f _ => f.Other (SourceError.Within dict.setting.source) where
  rel h := h
  forms hForms hFits hS := by
    cases hForms with
    | quiet _ hBuilds =>
      obtain ⟨hTenant, hWidth⟩ := hBuilds.aside (templateless_of_supplies hQueries)
      exact ⟨trivial, hBuilds.filled hQueries hFits, hS.congr hTenant hWidth⟩
    | named _ _ hGets => exact ⟨trivial, hGets.tidy hS⟩
  closes hCloses hValue hS := by
    cases hCloses with
    | discard | again => exact hS.snoc hValue
    | temp _ _ hLends =>
      obtain ⟨hTenant, hWidth⟩ := hLends.aside
      exact (hS.congr hTenant hWidth).snoc hValue
    | named _ _ hGets => exact (hGets.tidy hS).2.snoc hValue
    | first =>
      refine ⟨hS.space, forall_mem_snoc hS.filled hValue, fun w hw => ?_⟩
      cases hw
      exact ⟨Expr.one_le_width _ hValue, _, List.mem_append_right _ List.mem_cons_self⟩
  fails hFails hFits _ := by
    rcases hFails.cases (templateless_of_supplies hQueries) fun _ _ => Setting.allows_of_marks with
      ⟨-, hOther⟩ | ⟨text, p, name, size, hText, hName, hSize, hMisses⟩
    · exact hOther
    · refine hMisses.other (plain_of_variableName? hText.1.name hName)
        (variableName?_eq_some hName).2.2 ?_ _
      rcases hSize with rfl | ⟨e, he, rfl⟩
      · exact Int.le_refl 1
      · exact Expr.one_le_width e (hFits e he)
  sequence hS := hS.rounded

end Dictionary

/-! ## Trees -/

namespace Workshop

/-- **Reading a source** makes an expression with values, or fails for other reasons than sizes; if
the source is to blame, then at a place in it. -/
theorem read_rounded {w : Workshop} (hSound : w.inst.space.Sound)
    (hQueries : ∀ q ∈ w.inst.queries, q.2.Supplies) (r : Request) :
    Concludes (fun p _ => p.1.Rounded) (fun f _ => f.Other (SourceError.Within r.source))
      (read r w) := by
  have hStart : (Scope.start w.tenant).Tidy [] :=
    ⟨hSound, List.forall_mem_nil _, nofun⟩
  have hDict : ∀ q ∈ (w.dictionary r).queries, q.2.Supplies := hQueries
  have hSource : Concludes (fun e _ => e.Rounded) (fun f _ => f.Other (SourceError.Within r.source))
      ((w.dictionary r).readSource (.start w.tenant)) :=
    (Dictionary.tidying_honoured hDict).readSource (fun hBlamed _ => hBlamed.within)
      (fun _ => Setting.carries_of_mem_scan) hStart
  rw [read_eq]
  generalize (w.dictionary r).readSource _ = out at hSource ⊢
  cases hSource with
  | ok h => exact .ok h
  | error h => exact .error h

/-- **Sources become well-formed trees.**  Take an instance whose namespace is sound and whose
queries are no templates and return something.  Whatever source is read, with whatever context
values and constants: the parts of every node fit together, lists of values are not empty, sequences
stand at the root only, and returns are as wide as their sequence, which has width one if there are
none. Reading never fails because of the size of a variable. -/
theorem sources_become_well_formed_trees {w : Workshop} (hSound : w.inst.space.Sound)
    (hQueries : ∀ q ∈ w.inst.queries, q.2.Supplies) (r : Request) :
    (∀ e temps w', read r w = .ok (e, temps) w' →
      e.Compilable ⟨r.context.length, temps, w'.inst.space.cursor⟩ ∧ e.EachNode Expr.Filled ∧
      ∀ statements width, e = .sequence statements width →
        (∀ value, Stmt.ret value ∉ statements) → width = 1) ∧
    ∀ problem w', read r w ≠ .error (.variableSize problem) w' := by
  have hRounded := read_rounded hSound hQueries r
  refine ⟨fun e temps w' hRead => ?_, fun problem w' hRead => ?_⟩
  · rw [hRead] at hRounded
    cases hRounded with
    | ok hE =>
      obtain ⟨s, hSpace, -, hLocals, hTree⟩ :=
        read_obeys (k := .any) hSound (fun q hq => (hQueries q hq).obeys) hRead
      have hDelivers : e.EachNode Expr.Delivers := hE.filled.mono fun e h => by
        cases e with
        | hostCall => exact h
        | _ => trivial
      have hWF := hTree.compilable hDelivers (Int.le_trans (by decide) hE.width)
      rw [← hSpace, ← show s.locals = temps from hLocals]
      exact ⟨hWF, hE.filled, hE.single⟩
  · rw [hRead] at hRounded
    cases hRounded with
    | error hOther => exact hOther

/-- A session with a host function that returns two values. -/
def pairSession : Session :=
  (Session.start none).obeyAll .mute "a"
    [.create "a" ⟨some [("q.f", .host "f" 1 2)], false, [], true, false⟩]

theorem pairSession_supplies : (pairSession.workshop 0).inst.space.Sound ∧
    ∀ q ∈ (pairSession.workshop 0).inst.queries, q.2.Supplies := by
  have hReached : pairSession.Reached := Session.reached_obeyAll "a" _ _
  have hAt : pairSession.instance? 0 = some (pairSession.workshop 0).inst := rfl
  exact ⟨hReached.atRest.sound.spaces hAt, by decide +kernel⟩

/-- A source that assigns what the host function returns, and then returns it itself. -/
def returnedPair : Request := ⟨"v.n = q.f(c.x); return v.n;", ["x"], []⟩

/-- The sequence that it becomes is as wide as what it returns. -/
theorem returned_pair_is_well_formed :
    (pairSession.workshop 0).inst.space.Sound ∧
      (∀ q ∈ (pairSession.workshop 0).inst.queries, q.2.Supplies) ∧
      ∃ e temps w', read returnedPair (pairSession.workshop 0) = .ok (e, temps) w' ∧ e.width = 2 ∧
        e.Compilable ⟨1, temps, w'.inst.space.cursor⟩ := by
  obtain ⟨hSound, hQueries⟩ := pairSession_supplies
  have hRead : (Outcome.result? (read returnedPair (pairSession.workshop 0))).map (·.1.width) =
      some 2 := by decide +kernel
  obtain ⟨p, hResult, hWidth⟩ := Option.map_eq_some_iff.mp hRead
  obtain ⟨w', hOk⟩ := Outcome.ok_of_result? hResult
  obtain ⟨hTrees, -⟩ := sources_become_well_formed_trees hSound hQueries returnedPair
  exact ⟨hSound, hQueries, p.1, p.2, w', hOk, hWidth, (hTrees _ _ _ hOk).1⟩

end Workshop

end MolangCompiler
