import MolangCompiler.Proofs.Mentions
import MolangCompiler.Proofs.Respelling

/-!
# Sources that differ in spelling

Two sources may have the same tokens although they are written differently: with other blanks, other
letters in capitals, an `f` behind a number, or long heads of names for short ones.  They still come
to the same tree, make the same temps and variables, or fail alike.
-/

namespace MolangCompiler

variable {cs : List Char} {c : Char} {n : Nat} {l : Lexeme}

/-! ## Words -/

private theorem nameLength_lower : ∀ (inWord : Bool) (cs : List Char),
    nameLength inWord (cs.map Char.toLower) = nameLength inWord cs
  | _, [] => rfl
  | inWord, [c] => by
    have hLower := isName_toLower c
    rw [List.map_cons, List.map_nil, nameLength.eq_def, nameLength.eq_def inWord [c]]
    grind
  | inWord, c :: d :: rest => by
    have hNext := nameLength_lower true (d :: rest)
    have hRest := nameLength_lower true rest
    have hLower := isName_toLower c
    have hLower' := isName_toLower d
    rw [List.map_cons, List.map_cons] at *
    rw [nameLength.eq_def, nameLength.eq_def inWord (c :: _)]
    grind

/-- A word in lower case, or a number without the `f` behind it. -/
def plainWord (word : List Char) : List Char :=
  match numeral? word with
  | some (_, _, n) => word.take n
  | none => word.map Char.toLower

/-- **A word stands for the same token as its plain form**, whatever follows it. -/
theorem nextLexeme?_plainWord (h : nextLexeme? cs = some (l, n)) :
    ∃ m, nextLexeme? (plainWord (cs.take n)) = some (l, m) := by
  have hWord : nextLexeme? (cs.take n) = some (l, n) := by
    rw [← List.append_nil (cs.take n)]
    exact nextLexeme?_cut (by simp) h (Nat.le_refl n)
  unfold plainWord
  cases hNumeral : numeral? (cs.take n) with
  | some r =>
    obtain ⟨w, f, k⟩ := r
    have hAlone : numeral? ((cs.take n).take k) = some (w, f, k) := by
      rw [← hNumeral, ← List.append_nil (List.take k _)]
      exact numeral?_cut (by simp) (numeral?_bounds hNumeral).2.2.1 (by simp [hNumeral])
    unfold nextLexeme? number? at hWord ⊢
    rw [hNumeral] at hWord
    simp_all
  | none =>
    have hNumber : number? (cs.take n) = none := by rw [number?, hNumeral]; rfl
    have hShort := List.length_take_le n cs
    generalize cs.take n = word at hWord hNumber hShort ⊢
    unfold nextLexeme? at hWord
    rw [hNumber] at hWord
    dsimp only at hWord ⊢
    split at hWord
    · unfold mark? at hWord
      split at hWord
      all_goals cases hWord
      all_goals
        obtain rfl := by simpa using hShort
        exact ⟨_, rfl⟩
    · rename_i hName
      cases hWord
      refine ⟨nameLength false word, ?_⟩
      have hNone : number? (word.map Char.toLower) = none := by
        cases word with
        | nil => rfl
        | cons c rest =>
          have hStart : isNameStart c.toLower = true := by
            unfold nameLength at hName
            grind [isName_toLower]
          exact number?_eq_none (nameStart_facts hStart).1 (nameStart_facts hStart).2.1 _
      have hTwice : Char.toLower ∘ Char.toLower = Char.toLower :=
        funext fun c => (isName_toLower c).2.2.2
      unfold nextLexeme?
      rw [hNone, nameLength_lower]
      simp_all [wordLexeme]

/-- The text of a token. -/
def Token.word (source : String) (t : Token) : List Char :=
  let text := source.toList.drop t.start
  text.take ((nextLexeme? text).elim 0 Prod.snd)

abbrev Lexeme.canonical : Lexeme → Lexeme := rename canonicalName

/-- **Sources that differ only in spelling**: their tokens are the same but for the spelling of
names, or their words are the same but for capital letters and the `f` behind numbers, whatever
blanks stand between them.  Either all of both sources is read, or of none. -/
structure SameSpelling (source source' : String) : Prop where
  tokens : (scan 1 source).tokens.map (·.lexeme.canonical) =
      (scan 1 source').tokens.map (·.lexeme.canonical) ∨
    (scan 1 source).tokens.map (fun t => plainWord (t.word source)) =
      (scan 1 source').tokens.map (fun t => plainWord (t.word source'))
  stop : (scan 1 source).stop = .finished ↔ (scan 1 source').stop = .finished

private theorem scan_words (source : String) : (scan 1 source).tokens.map (fun t => some t.lexeme) =
    ((scan 1 source).tokens.map fun t => plainWord (t.word source)).map
      fun word => (nextLexeme? word).map Prod.fst := by
  rw [List.map_map]
  refine List.map_congr_left fun t ht => ?_
  obtain ⟨n, hNext⟩ := nextLexeme?_of_mem_scan ht
  obtain ⟨m, hPlain⟩ := nextLexeme?_plainWord hNext
  simp only [Function.comp_apply, Token.word, hNext, Option.elim_some, hPlain, Option.map_some]

theorem SameSpelling.bare {source source' : String} (h : SameSpelling source source') :
    (scan 1 source).tokens.map Token.bare = (scan 1 source').tokens.map Token.bare := by
  have hSame : (scan 1 source).tokens.map (·.lexeme.canonical) =
      (scan 1 source').tokens.map (·.lexeme.canonical) := by
    refine h.tokens.elim id fun hWords => ?_
    have hLexemes := scan_words source
    rw [hWords, ← scan_words source'] at hLexemes
    have hAll := congrArg (List.map fun l => (l.map Lexeme.canonical).getD .ret) hLexemes
    rw [List.map_map, List.map_map] at hAll
    exact hAll
  have hBare : Token.bare =
      (⟨·.rename (Function.invFun canonicalName), 0, 0⟩) ∘ (·.lexeme.canonical) := by
    funext t
    cases ht : t.lexeme <;> simp [ht, Token.bare, oneSpelling]
  rw [hBare, ← List.map_map, hSame, List.map_map]

/-- **A source and its respelling** come to the same tree and the same scope, or fail alike. -/
theorem Dictionary.readSource_respelled (dict : Dictionary) {source : String}
    (h : SameSpelling dict.setting.source source) :
    dict.readSource.hushed = (dict.respelled source).readSource.hushed := by
  have hNone : (scan 1 dict.setting.source).tokens = [] ↔ (scan 1 source).tokens = [] := by
    rw [← List.map_eq_nil_iff (f := Token.bare), h.bare, List.map_eq_nil_iff]
  rw [dict.readSource_bare, (dict.respelled source).readSource_bare]
  simp only [h.bare, hNone, h.stop, ne_eq]
  rfl

namespace Workshop

/-- **Spelling does not matter.**  Two sources that differ only in spelling, read on the same
instance with the same context and constants, come to the same tree and the same scope, that is the
same temps with the same locals and the same variables at the same places; or they both fail, with
failures of the same kind. -/
theorem spelling_does_not_matter (w : Workshop) (context : List String)
    (constants : List (String × List Float)) {source source' : String}
    (h : SameSpelling source source') :
    (∃ e s, (w.dictionary ⟨source, context, constants⟩).readSource (.start w.tenant) = .ok e s ∧
      (w.dictionary ⟨source', context, constants⟩).readSource (.start w.tenant) = .ok e s) ∨
    ∃ f g s, (w.dictionary ⟨source, context, constants⟩).readSource (.start w.tenant) = .error f s ∧
      (w.dictionary ⟨source', context, constants⟩).readSource (.start w.tenant) = .error g s ∧
      f.kind = g.kind := by
  have hSame := congrFun ((w.dictionary ⟨source, context, constants⟩).readSource_respelled h)
    (.start w.tenant)
  change _ = (w.dictionary ⟨source', context, constants⟩).readSource.hushed _ at hSame
  unfold Reading.hushed at hSame
  revert hSame
  cases (w.dictionary ⟨source, context, constants⟩).readSource (.start w.tenant) <;>
    cases (w.dictionary ⟨source', context, constants⟩).readSource (.start w.tenant) <;>
    simp +contextual

/-- An assignment with capital letters and a suffix, and without them. -/
theorem capitals_do_not_matter : SameSpelling "V.X=1F" "v.x = 1" ∧
    ∃ e s, (bare.dictionary ⟨"V.X=1F", [], []⟩).readSource (.start bare.tenant) = .ok e s ∧
      (bare.dictionary ⟨"v.x = 1", [], []⟩).readSource (.start bare.tenant) = .ok e s := by
  have hSame : SameSpelling "V.X=1F" "v.x = 1" := ⟨.inr (by decide +kernel), by decide +kernel⟩
  have hRead : (Outcome.result? ((bare.dictionary ⟨"v.x = 1", [], []⟩).readSource
      (.start bare.tenant))).isSome = true := by decide +kernel
  refine ⟨hSame, (spelling_does_not_matter bare [] [] hSame).resolve_right ?_⟩
  rintro ⟨f, g, s, -, hFailed, -⟩
  rw [hFailed] at hRead
  cases hRead

end Workshop

end MolangCompiler
