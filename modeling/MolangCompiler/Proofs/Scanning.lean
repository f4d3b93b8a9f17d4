import MolangCompiler.Proofs.Replaying

/-!
# Tokens of variables and assignments

A source that consists of the name of a variable has one token, and an assignment has the tokens of
its right-hand side behind the name and the equals sign.
-/

namespace MolangCompiler

/-! ## Names of variables -/

/-- What can follow `v.` in the name of a variable: words joined by points. -/
def IsNameTail (n : String) : Prop := nameLength false ('v' :: '.' :: n.toList) = n.length + 2

/-- A text that is kept as it is where names are put into lower case. -/
def IsLowerCase (n : String) : Prop := n.toList.map Char.toLower = n.toList

instance (n : String) : Decidable (IsNameTail n) := inferInstanceAs (Decidable (_ = _))

instance (n : String) : Decidable (IsLowerCase n) := inferInstanceAs (Decidable (_ = _))

variable {rest cs : List Char} {c : Char} {n : String}

private theorem nameLength_nil (inWord : Bool) : nameLength inWord [] = 0 := rfl

theorem nameStart_facts (h : isNameStart c = true) :
    isDigit c = false ∧ c ≠ '.' ∧ c ≠ ' ' ∧ c ≠ '\t' ∧ c ≠ '\r' ∧ c ≠ '\n' := by
  have hAscii : c.toNat < 128 := by
    have hPlain := nameLength_plain false [c]
    unfold nameLength at hPlain
    rw [if_neg (by decide), if_pos h] at hPlain
    exact (hPlain c List.mem_cons_self).1
  exact ascii_forall (p := fun c => isNameStart c = true → isDigit c = false ∧ c ≠ '.' ∧ c ≠ ' ' ∧
    c ≠ '\t' ∧ c ≠ '\r' ∧ c ≠ '\n') (by decide) hAscii h

theorem number?_eq_none (hDigit : isDigit c = false) (hPoint : c ≠ '.') (rest : List Char) :
    number? (c :: rest) = none := by
  have hNumeral : numeral? (c :: rest) = none := by
    unfold numeral?
    simp only [List.takeWhile_cons, hDigit, Bool.false_eq_true, if_false, List.length_nil,
      List.drop_zero]
    split
    · rename_i hChars
      exact absurd (List.cons.inj hChars).1 hPoint
    · rfl
  unfold number?
  rw [hNumeral]
  rfl

private theorem isNameStart_of_nameLength (h : nameLength false (c :: cs) = (c :: cs).length) :
    isNameStart c = true := by
  unfold nameLength at h
  rw [if_neg (by decide)] at h
  split at h
  · assumption
  · simp at h

/-- **A name** is read as one token. -/
theorem nextLexeme?_name (hName : nameLength false (c :: cs) = (c :: cs).length)
    (hStop : ∀ inWord, nameLength inWord rest = 0) :
    nextLexeme? (c :: (cs ++ rest)) = some (wordLexeme (c :: cs), cs.length + 1) := by
  have hLength : nameLength false (c :: (cs ++ rest)) = cs.length + 1 := by
    have hCut := nameLength_cut hStop false (c :: cs) (Nat.le_of_eq hName)
    rwa [List.take_length, hName] at hCut
  have hTake : (c :: (cs ++ rest)).take (cs.length + 1) = c :: cs := by
    rw [List.take_succ_cons, List.take_left]
  unfold nextLexeme?
  obtain ⟨hDigit, hPoint, -⟩ := nameStart_facts (isNameStart_of_nameLength hName)
  rw [number?_eq_none hDigit hPoint, hLength]
  show some (wordLexeme ((c :: (cs ++ rest)).take (cs.length + 1)), cs.length + 1) = _
  rw [hTake]

private theorem wordLexeme_variable (hLower : IsLowerCase n) :
    wordLexeme ('v' :: '.' :: n.toList) = .name ("v." ++ n) := by
  have hText : String.ofList (('v' :: '.' :: n.toList).map Char.toLower) = "v." ++ n := by
    rw [List.map_cons, List.map_cons, show n.toList.map Char.toLower = n.toList from hLower]
    apply String.toList_injective
    simp
  unfold wordLexeme
  rw [hText]
  have hOther : ("v." ++ n == "return") = false := by
    rw [beq_eq_false_iff_ne]
    intro hSame
    have hChars := congrArg String.toList hSame
    simp at hChars
  simp only [hOther, Bool.false_eq_true, if_false]

/-! ## Sources -/

private theorem scan_behind_name (hName : nameLength false (c :: cs) = (c :: cs).length)
    (hStop : ∀ inWord, nameLength inWord rest = 0) (pos line : Nat) :
    scanFrom pos line 0 (c :: (cs ++ rest)) =
      ⟨⟨wordLexeme (c :: cs), pos, line⟩ :: (scanFrom (pos + 1 + cs.length) line 0 rest).tokens,
        (scanFrom (pos + 1 + cs.length) line 0 rest).stop,
        (scanFrom (pos + 1 + cs.length) line 0 rest).line⟩ := by
  obtain ⟨-, -, hSpace, hTab, hReturn, hLine⟩ := nameStart_facts (isNameStart_of_nameLength hName)
  rw [scanFrom, if_neg (by simp [hSpace, hTab, hReturn]), if_neg (by simp [hLine]),
    nextLexeme?_name hName hStop]
  rw [← scanFrom_append (pos + 1) line cs rest]
  rfl

theorem scan_name (hName : nameLength false (c :: cs) = (c :: cs).length) (line : Nat) :
    scan line (String.ofList (c :: cs)) = ⟨[⟨wordLexeme (c :: cs), 0, line⟩], .finished, line⟩ := by
  have hScan := scan_behind_name hName nameLength_nil 0 line
  rw [List.append_nil] at hScan
  unfold scan
  rw [String.toList_ofList, hScan]
  rfl

private theorem scan_behind_variable (hTail : IsNameTail n) (hLower : IsLowerCase n)
    (hStop : ∀ inWord, nameLength inWord rest = 0) (line : Nat) :
    scanFrom 0 line 0 ('v' :: '.' :: (n.toList ++ rest)) =
      ⟨⟨.name ("v." ++ n), 0, line⟩ :: (scanFrom (n.length + 2) line 0 rest).tokens,
        (scanFrom (n.length + 2) line 0 rest).stop,
        (scanFrom (n.length + 2) line 0 rest).line⟩ := by
  have hLength : ('.' :: n.toList).length = n.length + 1 := by simp [String.length_toList]
  have hName : nameLength false ('v' :: '.' :: n.toList) = ('v' :: '.' :: n.toList).length := by
    exact hTail
  rw [← List.cons_append, scan_behind_name hName hStop, wordLexeme_variable hLower, hLength,
    show 0 + 1 + (n.length + 1) = n.length + 2 by omega]

theorem scan_variable (hTail : IsNameTail n) (hLower : IsLowerCase n) (line : Nat) :
    scan line ("v." ++ n) = ⟨[⟨.name ("v." ++ n), 0, line⟩], .finished, line⟩ := by
  have hChars : ("v." ++ n).toList = 'v' :: '.' :: (n.toList ++ []) := by simp
  unfold scan
  rw [hChars, scan_behind_variable hTail hLower nameLength_nil]
  rfl

/-- **The tokens of an assignment** are its target, the equals sign and the tokens of its right-hand
side. -/
theorem scan_assignment (hTail : IsNameTail n) (hLower : IsLowerCase n) (line : Nat) (e : String) :
    ∃ place tokens, (scan line ("v." ++ n ++ " = " ++ e)).tokens =
      ⟨.name ("v." ++ n), 0, line⟩ :: ⟨.assign, place, line⟩ :: tokens ∧
        (scan line e).tokens.map Token.lexeme = tokens.map Token.lexeme := by
  have hChars : ("v." ++ n ++ " = " ++ e).toList =
      'v' :: '.' :: (n.toList ++ ' ' :: '=' :: ' ' :: e.toList) := by simp
  have hEquals : nextLexeme? ('=' :: ' ' :: e.toList) = some (.assign, 1) := rfl
  refine ⟨n.length + 3, (scanFrom (n.length + 5) line 0 e.toList).tokens, ?_,
    scanFrom_lexemes _ _ _ _ _ _⟩
  unfold scan
  rw [hChars, scan_behind_variable hTail hLower fun inWord => nameLength_gap rfl inWord _]
  rw [scanFrom, if_pos (by decide), scanFrom, if_neg (by decide), if_neg (by decide), hEquals]
  rfl

/-! ## Semicolons -/

private theorem mark?_semicolon {n : Nat} (h : mark? (c :: rest) = some (.semicolon, n)) :
    c = ';' := by
  unfold mark? at h
  split at h
  all_goals cases h
  rename_i hChars
  exact (List.cons.inj hChars).1

private theorem nextLexeme?_semicolon {n : Nat}
    (h : nextLexeme? (c :: rest) = some (.semicolon, n)) : c = ';' := by
  unfold nextLexeme? at h
  split at h
  · cases h
  · split at h
    · exact mark?_semicolon h
    · unfold wordLexeme at h
      dsimp only at h
      split at h <;> cases h

theorem semicolon_mem_of_scan {line : Nat} {source : String} {t : Token}
    (ht : t ∈ (scan line source).tokens) (hSemicolon : t.lexeme = .semicolon) :
    ';' ∈ source.toList := by
  obtain ⟨n, hNext⟩ := nextLexeme?_of_mem_scan ht
  rw [hSemicolon] at hNext
  refine List.mem_of_mem_drop (i := t.start) ?_
  cases hRest : source.toList.drop t.start with
  | nil =>
    rw [hRest] at hNext
    cases hNext
  | cons c rest =>
    rw [hRest] at hNext
    rw [nextLexeme?_semicolon hNext]
    exact List.mem_cons_self

end MolangCompiler
