import MolangCompiler.Token.Lexer

/-!
# The tokens of a source cover it

The tokens of a source and the blanks between them take up the whole source, or all of it up to the
first character that no token starts with (`Partition`).  What a token is does not depend on blanks
behind it, so blanks may be put between any two tokens.
-/

namespace MolangCompiler

/-- The characters that may stand between tokens. -/
def isGap (c : Char) : Bool := c == ' ' || c == '\t' || c == '\r' || c == '\n'

variable {b c : Char} {cs rest tail : List Char} {m n k : Nat} {l : Lexeme}

/-! ## Texts that go on with a blank -/

private theorem takeWhile_cut {p : Char → Bool} (hTail : ∀ b ∈ tail.head?, p b = false)
    (h : (cs.takeWhile p).length ≤ m) : (cs.take m ++ tail).takeWhile p = cs.takeWhile p := by
  induction cs generalizing m with
  | nil => cases tail <;> simp_all
  | cons c cs ih => cases m <;> cases tail <;> by_cases hc : p c = true <;> simp_all

private theorem drop_cut (hk : k ≤ cs.length) :
    (cs.take (k + m) ++ tail).drop k = (cs.drop k).take m ++ tail := by
  rw [List.drop_append_of_le_length (by grind), List.drop_take, Nat.add_sub_cancel_left]

private theorem drop_insertIdx (hk : k ≤ cs.length) :
    (cs.insertIdx (k + m) b).drop k = (cs.drop k).insertIdx m b := by
  ext1 i
  grind

private theorem gap_facts (h : isGap b = true) : isDigit b = false ∧ isNamePart b = false ∧
    isNameStart b = false ∧ b ≠ '.' ∧ b ≠ '=' ∧ b ≠ 'f' ∧ b ≠ 'F' := by
  simp only [isGap, Bool.or_eq_true, beq_iff_eq] at h
  rcases h with ((rfl | rfl) | rfl) | rfl <;> decide

/-! ## Names and numbers -/

private theorem isNamePart_of_isNameStart (h : isNameStart c = true) : isNamePart c = true := by
  unfold isNameStart at h
  unfold isNamePart Char.isAlphanum
  grind

/-- How the characters of a name are counted: one by one, a dot together with the next one. -/
theorem nameLength_induct {motive : Bool → List Char → Prop} (nil : ∀ inWord, motive inWord [])
    (word : ∀ inWord c cs, isNamePart c = true →
      (∀ rest, nameLength inWord (c :: rest) = 1 + nameLength true rest) → motive true cs →
      motive inWord (c :: cs))
    (dot : ∀ d cs, isNamePart d = true →
      (∀ rest, nameLength true ('.' :: d :: rest) = 2 + nameLength true rest) → motive true cs →
      motive true ('.' :: d :: cs))
    (stop : ∀ inWord c cs, nameLength inWord (c :: cs) = 0 → motive inWord (c :: cs))
    (inWord : Bool) (cs : List Char) : motive inWord cs := by
  induction hLength : cs.length using Nat.strongRecOn generalizing inWord cs with
  | ind n ih =>
  subst hLength
  cases cs with
  | nil => exact nil inWord
  | cons c cs =>
    have hRest := ih cs.length (Nat.lt_succ_self _) true cs rfl
    cases inWord with
    | false =>
      by_cases hStart : isNameStart c = true
      · refine word _ c cs (isNamePart_of_isNameStart hStart) (fun rest => ?_) hRest
        rw [nameLength.eq_def]
        exact (if_neg Bool.false_ne_true).trans (if_pos hStart)
      · refine stop _ c cs ?_
        rw [nameLength.eq_def]
        exact (if_neg Bool.false_ne_true).trans (if_neg hStart)
    | true =>
      by_cases hPart : isNamePart c = true
      · refine word _ c cs hPart (fun rest => ?_) hRest
        rw [nameLength.eq_def]
        exact (if_pos rfl).trans (if_pos hPart)
      by_cases hDot : c = '.' ∧ ∃ d cs', cs = d :: cs' ∧ isNameStart d = true
      · obtain ⟨rfl, d, cs', rfl, hStart⟩ := hDot
        refine dot d cs' (isNamePart_of_isNameStart hStart) (fun rest => ?_)
          (ih cs'.length (by simp only [List.length_cons]; omega) true cs' rfl)
        simp [nameLength, hPart, hStart]
      · refine stop _ c cs ?_
        unfold nameLength
        rw [if_pos rfl, if_neg hPart]
        split
        · exact if_neg fun hStart => hDot ⟨rfl, _, _, rfl, hStart⟩
        · rfl

private theorem nameLength_stop {inWord : Bool} {cs' : List Char}
    (h : nameLength inWord (c :: cs) = 0)
    (hHead : ∀ d ∈ cs'.head?, isNameStart d = true → d ∈ cs.head?) :
    nameLength inWord (c :: cs') = 0 := by
  unfold nameLength at h ⊢
  cases cs <;> cases cs' <;> grind

theorem nameLength_gap (hb : isGap b = true) (inWord : Bool) (cs : List Char) :
    nameLength inWord (b :: cs) = 0 := by
  obtain ⟨-, hPart, hStart, hDot, -⟩ := gap_facts hb
  unfold nameLength
  grind

theorem nameLength_cut (hTail : ∀ inWord, nameLength inWord tail = 0) (inWord : Bool)
    (cs : List Char) (h : nameLength inWord cs ≤ m) :
    nameLength inWord (cs.take m ++ tail) = nameLength inWord cs := by
  induction inWord, cs using nameLength_induct generalizing m with
  | nil inWord => simp [hTail, nameLength]
  | word inWord c cs _ hCount ih =>
    obtain ⟨m, rfl⟩ : ∃ j, m = j + 1 := ⟨m - 1, by grind⟩
    rw [List.take_succ_cons, List.cons_append, hCount, hCount, ih (by grind)]
  | dot d cs _ hCount ih =>
    obtain ⟨m, rfl⟩ : ∃ j, m = j + 1 + 1 := ⟨m - 2, by grind⟩
    rw [List.take_succ_cons, List.take_succ_cons, List.cons_append, List.cons_append,
      hCount, hCount, ih (by grind)]
  | stop inWord c cs hCount =>
    rw [hCount]
    cases m with
    | zero => exact hTail inWord
    | succ m =>
      refine nameLength_stop hCount fun d hd hStart => ?_
      have hOther (rest : List Char) : tail ≠ d :: rest := by
        rintro rfl
        have hZero := hTail false
        unfold nameLength at hZero
        simp [hStart] at hZero
      cases m <;> cases cs <;> cases tail <;> simp_all

theorem numeral?_bounds {w f : List Char} (h : numeral? cs = some (w, f, n)) :
    w = cs.takeWhile isDigit ∧ w.length ≤ n ∧ 0 < n ∧ n ≤ cs.length := by
  have hLe := (List.takeWhile_sublist isDigit (l := cs)).length_le
  unfold numeral? at h
  dsimp only at h
  split at h
  · rename_i rest hRest
    have hLength := congrArg List.length hRest
    have hFraction := (List.takeWhile_sublist isDigit (l := rest)).length_le
    grind
  · grind

theorem numeral?_cut (hTail : ∀ b ∈ tail.head?, isGap b = true) (hm : 0 < m)
    (h : ∀ r ∈ numeral? cs, r.2.2 ≤ m) : numeral? (cs.take m ++ tail) = numeral? cs := by
  have hDigit : ∀ b ∈ tail.head?, isDigit b = false := fun b hb => (gap_facts (hTail b hb)).1
  have hDot : ∀ b ∈ tail.head?, b ≠ '.' := fun b hb => (gap_facts (hTail b hb)).2.2.2.1
  have hWhole : (cs.takeWhile isDigit).length ≤ m := by
    cases hRead : numeral? cs with
    | some r =>
      obtain ⟨hW, hLe, -⟩ := numeral?_bounds hRead
      exact hW ▸ Nat.le_trans hLe (h r hRead)
    | none =>
      unfold numeral? at hRead
      grind
  unfold numeral? at h ⊢
  dsimp only at h ⊢
  rw [takeWhile_cut hDigit hWhole]
  obtain ⟨j, rfl⟩ := Nat.exists_eq_add_of_le hWhole
  rw [drop_cut (List.takeWhile_sublist _).length_le]
  generalize cs.takeWhile isDigit = w at h hm ⊢
  generalize cs.drop w.length = rest at h ⊢
  cases rest with
  | nil => cases tail <;> grind
  | cons c rest =>
    by_cases hPoint : c = '.'
    · subst hPoint
      have hTaken := h (w, rest.takeWhile isDigit, w.length + 1 + (rest.takeWhile isDigit).length)
      cases j with
      | zero => cases tail <;> grind
      | succ j =>
        have hFraction (h : (rest.takeWhile isDigit).length ≤ j) := takeWhile_cut hDigit h
        rw [List.take_succ_cons, List.cons_append]
        grind
    · cases j <;> cases tail <;> grind

private theorem number?_bounds {x : Float} (h : number? cs = some (x, n)) :
    ∃ r ∈ numeral? cs, r.2.2 ≤ n ∧ 0 < n ∧ n ≤ cs.length := by
  unfold number? at h
  obtain ⟨⟨w, f, k⟩, hRead, hTaken⟩ := Option.map_eq_some_iff.mp h
  have hBounds := numeral?_bounds hRead
  have hLength := List.length_drop (l := cs) (i := k)
  refine ⟨_, hRead, ?_⟩
  cases hRest : cs.drop k <;> grind

private theorem number?_cut (hTail : ∀ b ∈ tail.head?, isGap b = true) (hm : 0 < m)
    (h : ∀ r ∈ number? cs, r.2 ≤ m) : number? (cs.take m ++ tail) = number? cs := by
  unfold number? at h ⊢
  cases hRead : numeral? cs with
  | none => rw [numeral?_cut hTail hm (by simp [hRead]), hRead]; rfl
  | some r =>
    obtain ⟨w, f, k⟩ := r
    rw [hRead] at h
    have hLe := h _ rfl
    dsimp only at hLe
    obtain ⟨j, rfl⟩ := Nat.exists_eq_add_of_le (Nat.le_trans (Nat.le_add_right _ _) hLe)
    rw [numeral?_cut hTail hm (by simp [hRead]), hRead]
    simp only [Option.map_some, drop_cut (numeral?_bounds hRead).2.2.2]
    have hSuffix : ∀ b ∈ tail.head?, b ≠ 'f' ∧ b ≠ 'F' := fun b hb =>
      (gap_facts (hTail b hb)).2.2.2.2.2
    generalize cs.drop k = rest at hLe ⊢
    cases j <;> cases rest <;> cases tail <;> simp_all <;> grind

/-! ## Tokens -/

private theorem mark?_cut (hTail : ∀ b ∈ tail.head?, isGap b = true) (h : mark? cs = some (l, n))
    (hm : n ≤ m) : mark? (cs.take m ++ tail) = some (l, n) := by
  have hEq : ∀ b ∈ tail.head?, b ≠ '=' := fun b hb => (gap_facts (hTail b hb)).2.2.2.2.1
  unfold mark? at h
  split at h
  all_goals cases h
  all_goals obtain ⟨m, rfl⟩ := Nat.exists_eq_add_of_le' hm
  all_goals try rfl
  all_goals
    rename_i rest hOther
    have hOther' (tail' : List Char) : rest.take m ++ tail ≠ '=' :: tail' := by
      cases m <;> cases rest <;> cases tail <;> simp_all
    rw [List.take_succ_cons, List.cons_append]
    generalize rest.take m ++ tail = rest' at hOther' ⊢
    unfold mark?
    split
    all_goals simp_all

private theorem nameLength_le (inWord : Bool) (cs : List Char) :
    nameLength inWord cs ≤ cs.length := by
  induction inWord, cs using nameLength_induct with
  | nil => exact Nat.le_refl _
  | word | dot | stop => grind

private theorem wordLexeme_extent (text : List Char) : (wordLexeme text).extent = text.length := by
  have hLower : (String.ofList (text.map Char.toLower)).length = text.length := by simp
  unfold wordLexeme
  dsimp only
  split
  · rename_i hReturn
    rw [← hLower, beq_iff_eq.mp hReturn]
    rfl
  · exact hLower

theorem nextLexeme?_bounds (h : nextLexeme? cs = some (l, n)) :
    0 < n ∧ n ≤ cs.length ∧ 0 < l.extent ∧ l.extent ≤ n := by
  unfold nextLexeme? at h
  split at h
  · rename_i value k hNumber
    cases h
    obtain ⟨-, -, -, hPos, hLe⟩ := number?_bounds hNumber
    exact ⟨hPos, hLe, Nat.one_pos, hPos⟩
  · split at h
    · unfold mark? at h
      split at h
      all_goals cases h
      all_goals exact ⟨by decide, by simp, by decide, by decide⟩
    · rename_i hName
      cases h
      have hLe := nameLength_le false cs
      rw [wordLexeme_extent, List.length_take_of_le hLe]
      exact ⟨Nat.pos_of_ne_zero hName, hLe, Nat.pos_of_ne_zero hName, Nat.le_refl _⟩

/-- **What stands behind a token** does not change it, if it is blank. -/
theorem nextLexeme?_cut (hTail : ∀ b ∈ tail.head?, isGap b = true)
    (h : nextLexeme? cs = some (l, n)) (hm : n ≤ m) :
    nextLexeme? (cs.take m ++ tail) = some (l, n) := by
  obtain ⟨hPos, hLe, -⟩ := nextLexeme?_bounds h
  have hStop (inWord : Bool) : nameLength inWord tail = 0 := by
    cases tail with
    | nil => rfl
    | cons b => exact nameLength_gap (hTail b rfl) inWord _
  unfold nextLexeme? at h ⊢
  rw [number?_cut hTail (Nat.lt_of_lt_of_le hPos hm) (by grind)]
  split
  · grind
  · rename_i hNumber
    rw [hNumber] at h
    dsimp only at h
    rw [nameLength_cut hStop false cs (by grind)]
    split at h
    · exact mark?_cut hTail h hm
    · cases h
      rw [List.take_append_of_le_length (by grind), List.take_take, Nat.min_eq_left hm]

private theorem nextLexeme?_insertIdx (hb : isGap b = true) (h : nextLexeme? cs = some (l, n))
    (hm : n ≤ m) : nextLexeme? (cs.insertIdx m b) = some (l, n) := by
  rcases Nat.lt_or_ge cs.length m with hLt | hGe
  · rwa [List.insertIdx_of_length_lt hLt]
  · have hText : cs.insertIdx m b = cs.take m ++ b :: cs.drop m := by
      ext1 i
      grind
    rw [hText]
    exact nextLexeme?_cut (by simpa using hb) h hm

/-! ## Sources -/

theorem scanFrom_append (pos line : Nat) (front rest : List Char) :
    scanFrom pos line front.length (front ++ rest) = scanFrom (pos + front.length) line 0 rest := by
  induction front generalizing pos with
  | nil => rfl
  | cons c front ih =>
    rw [List.length_cons, List.cons_append, scanFrom, ih, Nat.add_assoc, Nat.add_comm 1]

/-- **The tokens of a text** do not depend on where it begins. -/
theorem scanFrom_lexemes (pos line skip : Nat) (cs : List Char) (position' line' : Nat) :
    (scanFrom position' line' skip cs).tokens.map Token.lexeme =
      (scanFrom pos line skip cs).tokens.map Token.lexeme := by
  induction cs generalizing pos line skip position' line' with
  | nil => cases skip <;> rfl
  | cons c rest ih =>
    cases skip with
    | succ skip => exact ih _ _ _ _ _
    | zero =>
      unfold scanFrom
      split
      · exact ih _ _ _ _ _
      · split
        · exact ih _ _ _ _ _
        · split
          · rfl
          · simp only [List.map_cons, ih (pos + 1) line]

private theorem scanFrom_skip (pos line : Nat) (h : n ≤ cs.length) :
    scanFrom pos line n cs = scanFrom (pos + n) line 0 (cs.drop n) := by
  have hFront := scanFrom_append pos line (cs.take n) (cs.drop n)
  rwa [List.take_append_drop, List.length_take_of_le h] at hFront

private theorem scanFrom_gap (h : isGap c = true) (pos line : Nat) :
    ∃ line', ∀ rest, scanFrom pos line 0 (c :: rest) = scanFrom (pos + 1) line' 0 rest := by
  unfold isGap at h
  by_cases hLine : c = '\n'
  · exact ⟨line + 1, fun rest => by simp [scanFrom, hLine]⟩
  · exact ⟨line, fun rest => by simp_all [scanFrom]⟩

private theorem scanFrom_token (h : isGap c = false) (hNext : nextLexeme? (c :: rest) = some (l, n))
    (pos line : Nat) : ∃ after, after = scanFrom (pos + n) line 0 ((c :: rest).drop n) ∧
      scanFrom pos line 0 (c :: rest) = { after with tokens :=
        ⟨l, pos, line⟩ :: after.tokens } := by
  obtain ⟨hPos, hLe, -⟩ := nextLexeme?_bounds hNext
  obtain ⟨n, rfl⟩ := Nat.exists_eq_add_of_le' hPos
  refine ⟨_, rfl, ?_⟩
  rw [List.drop_succ_cons, ← Nat.add_assoc, Nat.add_right_comm,
    ← scanFrom_skip _ _ (Nat.le_of_succ_le_succ hLe)]
  unfold isGap at h
  simp_all [scanFrom]

/-- What the reading `r` of a source from `pos` on finds: tokens, each with its width, up to `stop`.
Tokens do not overlap, what stands between them is blank, and reading goes on to the end of the
source or to a character that is not blank and starts no token. -/
structure Partition (cs : List Char) (pos : Nat) (r : Scan) (spans : List (Token × Nat))
    (stop : Nat) : Prop where
  tokens : spans.map Prod.fst = r.tokens
  bounds : ∀ s ∈ spans, pos ≤ s.1.start ∧ 0 < s.2 ∧ s.1.start + s.2 ≤ stop
  read : ∀ s ∈ spans, nextLexeme? (cs.drop s.1.start) = some (s.1.lexeme, s.2)
  ordered : spans.Pairwise fun s t => s.1.start + s.2 ≤ t.1.start
  gaps : ∀ i, pos ≤ i → i < stop → (∀ s ∈ spans, i < s.1.start ∨ s.1.start + s.2 ≤ i) →
    ∃ c ∈ cs[i]?, isGap c = true
  ended : match r.stop with
    | .finished => stop = cs.length
    | .illegal c i => i = stop ∧ cs[i]? = some c ∧ isGap c = false ∧ nextLexeme? (cs.drop i) = none

theorem scanFrom_partition (cs : List Char) (pos line : Nat) (h : pos ≤ cs.length) :
    ∃ spans stop, Partition cs pos (scanFrom pos line 0 (cs.drop pos)) spans stop ∧
      pos ≤ stop ∧ ∀ b m, isGap b = true → pos + m ≤ stop →
        (∀ s ∈ spans, pos + m ≤ s.1.start ∨ s.1.start + s.2 ≤ pos + m) →
        (scanFrom pos line 0 ((cs.drop pos).insertIdx m b)).tokens.map Token.lexeme =
          spans.map (·.1.lexeme) := by
  induction hLeft : cs.length - pos using Nat.strongRecOn generalizing pos line with
  | ind left ih =>
  suffices hSuffices : ∃ spans stop, Partition cs pos (scanFrom pos line 0 (cs.drop pos))
      spans stop ∧ pos ≤ stop ∧ ∀ b m, isGap b = true → pos + (m + 1) ≤ stop →
        (∀ s ∈ spans, pos + (m + 1) ≤ s.1.start ∨ s.1.start + s.2 ≤ pos + (m + 1)) →
        (scanFrom pos line 0 ((cs.drop pos).insertIdx (m + 1) b)).tokens.map Token.lexeme =
          spans.map (·.1.lexeme) by
    obtain ⟨spans, stop, hSpans, hStop, hInsert⟩ := hSuffices
    refine ⟨spans, stop, hSpans, hStop, fun b m hb hm hOut => ?_⟩
    cases m with
    | zero =>
      obtain ⟨line', hStep⟩ := scanFrom_gap hb pos line
      rw [List.insertIdx_zero, hStep, scanFrom_lexemes pos line, ← hSpans.tokens, List.map_map]
      rfl
    | succ m => exact hInsert b m hb hm hOut
  cases hText : cs.drop pos with
  | nil =>
    have hEnd : pos = cs.length := Nat.le_antisymm h (List.drop_eq_nil_iff.mp hText)
    exact ⟨[], pos, ⟨rfl, by simp, by simp, .nil, by omega, hEnd⟩, Nat.le_refl _, by omega⟩
  | cons c rest =>
    have hAt : cs[pos]? = some c := by
      rw [← Nat.add_zero pos, ← List.getElem?_drop, hText]
      rfl
    have hRest : rest = cs.drop (pos + 1) := by
      rw [← List.drop_drop, hText]
      rfl
    have hLength := congrArg List.length hText
    rw [List.length_drop] at hLength
    by_cases hGap : isGap c = true
    · obtain ⟨line', hStep⟩ := scanFrom_gap hGap pos line
      obtain ⟨spans, stop, hSpans, hStop, hInsert⟩ := ih _ (by grind) (pos + 1) line' (by grind) rfl
      rw [hStep, hRest]
      refine ⟨spans, stop, { hSpans with bounds := ?_, gaps := ?_ }, by omega,
        fun b m hb hm hOut => ?_⟩
      · exact fun s hs => (hSpans.bounds s hs).imp_left Nat.le_of_succ_le
      · intro i hi hEnd hOut
        rcases Nat.eq_or_lt_of_le hi with rfl | hi
        · exact ⟨c, hAt, hGap⟩
        · exact hSpans.gaps i hi hEnd hOut
      · rw [List.insertIdx_succ_cons, hStep]
        rw [Nat.add_left_comm, Nat.add_comm] at hm hOut
        exact hInsert b m hb hm hOut
    · rw [Bool.not_eq_true] at hGap
      cases hNext : nextLexeme? (c :: rest) with
      | none =>
        have hStop : scanFrom pos line 0 (c :: rest) = ⟨[], .illegal c pos, line⟩ := by
          unfold isGap at hGap
          simp_all [scanFrom]
        rw [hStop]
        exact ⟨[], pos, ⟨rfl, by simp, by simp, .nil, by omega, rfl, hAt, hGap, hText ▸ hNext⟩,
          Nat.le_refl _, by omega⟩
      | some r =>
        obtain ⟨l, n⟩ := r
        obtain ⟨hPos, hLe, -⟩ := nextLexeme?_bounds hNext
        obtain ⟨after, hAfter, hStep⟩ := scanFrom_token hGap hNext pos line
        obtain ⟨spans, stop, hSpans, hStop, hInsert⟩ :=
          ih _ (by grind) (pos + n) line (by grind) rfl
        rw [← List.drop_drop, hText, ← hAfter] at hSpans
        rw [hStep]
        refine ⟨(⟨l, pos, line⟩, n) :: spans, stop, ⟨?_, ?_, ?_, ?_, ?_, hSpans.ended⟩, by omega,
          fun b m hb hm hOut => ?_⟩
        · exact congrArg _ hSpans.tokens
        · exact List.forall_mem_cons.mpr ⟨⟨Nat.le_refl _, hPos, hStop⟩, fun s hs =>
            (hSpans.bounds s hs).imp_left (Nat.le_trans (Nat.le_add_right _ _))⟩
        · exact List.forall_mem_cons.mpr ⟨hText ▸ hNext, hSpans.read⟩
        · exact List.pairwise_cons.mpr ⟨fun s hs => (hSpans.bounds s hs).1, hSpans.ordered⟩
        · intro i hi hEnd hOut
          obtain ⟨hHead, hTail⟩ := List.forall_mem_cons.mp hOut
          exact hSpans.gaps i (hHead.resolve_left (Nat.not_lt.mpr hi)) hEnd hTail
        · obtain ⟨hHead, hTail⟩ := List.forall_mem_cons.mp hOut
          have hBehind : n ≤ m + 1 := by
            dsimp only at hHead
            omega
          obtain ⟨j, hj⟩ := Nat.exists_eq_add_of_le hBehind
          have hNext' := nextLexeme?_insertIdx hb hNext hBehind
          rw [List.insertIdx_succ_cons] at hNext' ⊢
          obtain ⟨after', hAfter', hStep'⟩ := scanFrom_token hGap hNext' pos line
          rw [hStep', hAfter', ← List.insertIdx_succ_cons, hj, drop_insertIdx hLe, ← hText,
            List.drop_drop, List.map_cons, hInsert b j hb (by omega) (by grind)]
          rfl

/-- The operators of two characters. -/
def doubleMarks : List (String × Lexeme) :=
  [("||", .operator (.logical .or)), ("&&", .operator (.logical .and)),
    ("==", .operator (.binary .eq)), ("!=", .operator (.binary .ne)),
    ("<=", .operator (.binary .le)), (">=", .operator (.binary .ge))]

private theorem nextLexeme?_doubleMark {p : String × Lexeme} (hp : p ∈ doubleMarks)
    (rest : List Char) : nextLexeme? (p.1.toList ++ rest) = some (p.2, 2) := by
  obtain rfl | rfl | rfl | rfl | rfl | rfl := by simpa [doubleMarks] using hp
  all_goals rfl

/-- **The tokens of a source** cover it but for blanks.  Of two operators the longer one is read,
and a blank that is put between two tokens does not change them. -/
theorem source_is_partitioned (line : Nat) (source : String) :
    ∃ spans stop, Partition source.toList 0 (scan line source) spans stop ∧
      (∀ s ∈ spans, ∀ p ∈ doubleMarks, p.1.toList <+: source.toList.drop s.1.start →
        s.1.lexeme = p.2 ∧ s.2 = 2) ∧
      ∀ b i, isGap b = true → i ≤ stop →
        (∀ s ∈ spans, i ≤ s.1.start ∨ s.1.start + s.2 ≤ i) →
        (scan line (String.ofList (source.toList.insertIdx i b))).tokens.map Token.lexeme =
          (scan line source).tokens.map Token.lexeme := by
  obtain ⟨spans, stop, hSpans, -, hInsert⟩ :=
    scanFrom_partition source.toList 0 line (Nat.zero_le _)
  refine ⟨spans, stop, hSpans, fun s hs p hp hHere => ?_, fun b i hb hi hOut => ?_⟩
  · obtain ⟨rest, hRest⟩ := hHere
    have hNext := hSpans.read s hs
    rw [← hRest, nextLexeme?_doubleMark hp] at hNext
    exact (Prod.mk.inj (Option.some.inj hNext)).imp Eq.symm Eq.symm
  · have hLexemes := hInsert b i hb (by rwa [Nat.zero_add]) (by rwa [Nat.zero_add])
    unfold scan
    rw [String.toList_ofList, ← List.drop_zero (l := source.toList), hLexemes, ← hSpans.tokens,
      List.map_map]
    rfl

end MolangCompiler
