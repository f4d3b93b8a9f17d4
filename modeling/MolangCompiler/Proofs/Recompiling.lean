import MolangCompiler.Proofs.Reached
import MolangCompiler.Proofs.Replaying
import MolangCompiler.Proofs.Stages

/-!
# Compiling the same thing again

A source that has been compiled is compiled again at once.  The second time all variables are there
already, and so is the room in the scratch buffer: the instance goes on as it was, except that the
next routine has a new name and that its text is paid for.  The second reading finds what the first
one made (`Dictionary.readSource_replays`), and the lines of a routine are those of its outline.
-/

namespace MolangCompiler

/-! ## The second reading -/

/-- An instance whose templates fail. -/
def Instance.disarmed (i : Instance) : Instance := { i with queries := Query.disarm i.queries }

theorem Instance.disarmed_templateless (i : Instance) : i.disarmed.Templateless := by
  intro q hq arity report tree hSame
  obtain ⟨p, -, rfl⟩ := List.mem_map.mp hq
  rcases p.2.disarmed_cases with ⟨-, hDisarmed⟩ | ⟨hOther, hDisarmed⟩
  · cases hDisarmed.symm.trans hSame
  · exact hOther arity report tree (hDisarmed.symm.trans hSame)

variable {r : Request} {a : Artifact} {s : Session} {m : Nat}

namespace Workshop

/-- The same books and the instance with templates that fail. -/
def disarmed (w : Workshop) : Workshop := { w with inst := w.inst.disarmed }

/-- What is read although templates fail is read in the same way when they do not. -/
theorem read_of_disarmed {w w₀ : Workshop} {p : Expr × Nat} (h : read r w.disarmed = .ok p w₀) :
    ∃ t, read r w = .ok p (w.setTenant t) ∧ w₀ = w.disarmed.setTenant t := by
  obtain ⟨s, hSource, hLocals, rfl⟩ := read_eq_ok.mp h
  have hSame := (Dictionary.readSource_disarmed (w.dictionary r) hSource).2
  exact ⟨s.tenant, read_eq_ok.mpr ⟨s, hSame, hLocals, rfl⟩, rfl⟩

/-- **The second reading** makes the same tree as the first one, and changes nothing. -/
theorem read_again {w w₀ w' : Workshop} {p : Expr × Nat} (h : read r w.disarmed = .ok p w₀)
    (hQueries : w'.inst.queries = w.inst.queries) (hActor : w'.inst.actor = w.inst.actor)
    (hSpace : w'.inst.space = w₀.inst.space) :
    read r w' = .ok p w' := by
  obtain ⟨s, hSource, hLocals, rfl⟩ := read_eq_ok.mp h
  have hDictionary : w'.dictionary r = w.dictionary r := by
    unfold dictionary
    rw [hQueries, hActor]
  obtain ⟨-, -, hAgain⟩ := Dictionary.readSource_replays (w.dictionary r) hSource
  have hSettled : s.tenant.space.Settles w'.tenant.space := by
    show s.tenant.space.Settles w'.inst.space
    rw [hSpace]
    exact .refl _
  refine read_eq_ok.mpr ⟨{ s with tenant := w'.tenant }, ?_, hLocals, rfl⟩
  rw [hDictionary]
  exact hAgain w'.tenant hSettled

end Workshop

/-! ## The second routine -/

theorem Routine.load_renamed {name other : String} {params : Nat} {body : List Step} {r : Routine}
    (h : load ((0, .define name params) :: Step.listing 1 body) = .ok r) :
    load ((0, .define other params) :: Step.listing 1 body) = .ok ⟨other, params, body⟩ := by
  have hSame : firstProblem? 1 (0, .define other params) (Step.listing 1 body) =
      firstProblem? 1 (0, .define name params) (Step.listing 1 body) := by
    cases Step.listing 1 body <;> rfl
  have hRead := ofLines?_define other params body
  unfold load at h ⊢
  dsimp only at h ⊢
  rw [hSame, hRead]
  cases hProblem : firstProblem? 1 (0, .define name params) (Step.listing 1 body) with
  | none => rfl
  | some problem =>
    rw [hProblem] at h
    cases h

theorem Draft.text_define (params : Nat) (lines : List (Nat × Line)) (level : Nat)
    (layout : Layout) : ∃ rest : String, ∀ name : String,
      (⟨⟨(0, .define name params) :: lines, level⟩, layout⟩ : Draft).text = "def " ++ name ++
      rest := by
  let header := Code.argumentText ("_depth" :: (List.range params).map Layout.localName) ++ ":"
  have hFirst (name : String) : String.join (List.replicate 0 "    ") ++
      Line.text layout.scratchLocal (.define name params) = "def " ++ name ++ header := by
    show "" ++ ("def " ++ name ++ _ ++ ":") = _
    rw [String.empty_append, String.append_assoc]
  have hText (name : String) : (⟨⟨(0, .define name params) :: lines, level⟩, layout⟩ : Draft).text =
      String.intercalate "\n" (("def " ++ name ++ header) ::
        (⟨lines, level⟩ : Listing Line).texts "    " (Line.text layout.scratchLocal)) ++ "\n" := by
    rw [← hFirst]
    rfl
  generalize (⟨lines, level⟩ : Listing Line).texts "    " (Line.text layout.scratchLocal) =
    texts at hText
  cases texts with
  | nil =>
    refine ⟨header ++ "\n", fun name => ?_⟩
    rw [hText, String.intercalate_singleton, String.append_assoc]
  | cons text others =>
    refine ⟨header ++ ("\n" ++ String.intercalate "\n" (text :: others) ++ "\n"), fun name => ?_⟩
    rw [hText, String.intercalate_cons_cons]
    simp only [String.append_assoc]

theorem ScratchRoom.ensure_of_le {slots : Int} {r : ScratchRoom}
    (h : slots.toNat ≤ r.scratch.buffer.size) : ensure slots r = .ok () r := by
  have hMissing : (slots - r.scratch.buffer.size).toNat = 0 := by omega
  unfold ensure
  rw [get_bind]
  rw [hMissing]
  rfl

/-! ## The second compiling -/

theorem Workshop.Makes.compilable {home : Nat} {w w' : Workshop} (hSound : w.inst.space.Sound)
    (hTemplateless : w.inst.Templateless) (h : Makes home r w a w') :
    ∃ p w₁ b, read r w = .ok p w₁ ∧ p.1.Compilable b := by
  obtain ⟨-, p, w₁, d, room, t, routine, hRead, hWrite, -, -, hLoad, -, -⟩ := h
  obtain ⟨s, -, -, -, hTree⟩ := read_obeys hSound hTemplateless.obeys hRead
  obtain ⟨-, -, s', -, -, -, hPlaced⟩ :=
    (read_keeps r w (w.dictionary r).placed_rules).of_ok hSound hRead
  exact ⟨p, w₁, _, hRead, hTree.compilable_of_write hPlaced hWrite hLoad⟩

/-- **Compiling the same thing again** succeeds.  The text has a new name in its first line, and
otherwise the instance only goes on to the next number and pays for the text. -/
theorem Workshop.compile_again {home : Nat} {w w' : Workshop} (hSound : w.inst.space.Sound)
    (hUnlimited : w.books.Unlimited) (hCompile : compile home r w = .ok a w')
    (hPlain : ∃ a₀ w₀, compile home r w.disarmed = .ok a₀ w₀) :
    ∃ a' b rest results slots, a.text = "def " ++ a.name ++ rest ∧
      a'.text = "def " ++ a'.name ++ rest ∧
      b = (if w'.inst.owner.isSome then w'.books.enter (Expense.code a'.text.length).bytes
        else w'.books) ∧
      compile home r w' = .ok a' ⟨a'.noted r w'.inst.trace results slots b,
        { w'.inst with
          nextRoutine := w'.inst.nextRoutine + 1
          owner := w'.inst.owner.map (·.add (.code a'.text.length)) }⟩ := by
  have hLimit : w'.books.Unlimited :=
    ((compile_books Books.unlimited_bookkeeping home r w).of_ok hUnlimited hCompile).1
  obtain ⟨a₀, w₀, hDisarmed⟩ := hPlain
  obtain ⟨p, w₁, b, hReadFirst, hWF⟩ :=
    Makes.compilable (w := w.disarmed) hSound w.inst.disarmed_templateless
      (compile_eq_ok.mp hDisarmed)
  obtain ⟨t₁, hRead, rfl⟩ := read_of_disarmed hReadFirst
  obtain ⟨hContext, p', w₂, d, room, t, routine, hRead', hWrite, hEnsure, hCharge, hLoad,
    rfl, rfl⟩ :=
    compile_eq_ok.mp hCompile
  cases hRead.symm.trans hRead'
  have hOutline (name : String) := Routine.write_outline hWF.writable name r.context.length p.2
  cases (hOutline _).symm.trans hWrite
  -- the second routine differs from the first one in its name only
  obtain ⟨rest, hText⟩ := Draft.text_define r.context.length
    (Step.listing 1 (Routine.outline "" p.1 r.context.length p.2).body) 0
    (p.1.body p.2 (.start r.context.length (r.context.length + 1 + p.2) 0)).2
  have hRoom := ((ScratchRoom.ensure_keeps _ _).of_ok trivial hEnsure).2.2
  have hSpace := Tenant.space_of_chargeOwner hCharge
  refine ⟨_, _, rest, p.1.width, _, hText _, hText (routineName (w.inst.nextRoutine + 1)), rfl,
    compile_eq_ok.mpr ⟨hContext, p, _, _, _, _, _, read_again hReadFirst rfl rfl hSpace, hOutline _,
      ScratchRoom.ensure_of_le hRoom, Tenant.chargeOwner_unlimited hLimit _,
      Routine.load_renamed hLoad, rfl, rfl⟩⟩

/-! ## Instances of a session -/

def Books.uncounted : Course Books where
  ok b := b.ledger = none
  le _ _ := True
  refl _ := trivial
  trans _ _ := trivial

theorem Books.uncounted_bookkeeping : Bookkeeping uncounted where
  charge bytes b hOk := by
    have hUnlimited : b.Unlimited := fun l hLedger => by
      rw [show b.ledger = none from hOk] at hLedger
      cases hLedger
    rw [hUnlimited.charge bytes]
    refine .ok ⟨?_, trivial, trivial⟩
    unfold enter
    rw [show b.ledger = none from hOk]
    exact hOk
  note _ _ _ hOk := ⟨hOk, trivial⟩
  owe _ _ _ hOk := ⟨hOk, trivial⟩

namespace Session

theorem workshop_setWorkshop {i : Instance} {w : Workshop} (hAt : s.instance? m = some i)
    (hBooks : w.inst.owner = none → w.books.ledger = none) :
    (s.setWorkshop m w).workshop m = w := by
  have hLook : (s.setWorkshop m w).instance? m = some w.inst := by
    rw [instance?_setWorkshop, if_pos rfl, hAt]
    rfl
  obtain ⟨books, inst⟩ := w
  have hSeen : booksFor inst (setWorkshop m ⟨books, inst⟩ s).books = books := by
    rw [books_setWorkshop]
    unfold booksFor
    cases hOwner : inst.owner with
    | none =>
      obtain ⟨ledger, journal, owed⟩ := books
      cases hBooks hOwner
      rfl
    | some account => rfl
  show (⟨booksFor (((setWorkshop m ⟨books, inst⟩ s).instance? m).getD default) _,
    ((setWorkshop m ⟨books, inst⟩ s).instance? m).getD default⟩ : Workshop) = _
  rw [hLook]
  show (⟨booksFor inst _, inst⟩ : Workshop) = _
  rw [hSeen]

theorem used?_setWorkshop (s : Session) (m : Nat) (w : Workshop) :
    (s.setWorkshop m w).books.used? =
      if w.inst.owner.isSome then w.books.used? else s.books.used? := by
  rw [books_setWorkshop]
  split <;> rfl

theorem journal_setWorkshop (s : Session) (m : Nat) (w : Workshop) :
    (s.setWorkshop m w).books.journal = w.books.journal := by
  rw [books_setWorkshop]
  split <;> rfl

theorem used?_workshop {i : Instance} (hAt : s.instance? m = some i) (hOwner : i.owner.isSome) :
    (s.workshop m).books.used? = s.books.used? := by
  obtain ⟨account, hOwner⟩ := Option.isSome_iff_exists.mp hOwner
  have hInst := workshop_inst hAt
  show (booksFor (s.workshop m).inst s.books).used? = _
  rw [hInst]
  unfold booksFor
  rw [hOwner]

end Session

theorem Books.Unlimited.workshop (h : s.books.Unlimited) (m : Nat) :
    (s.workshop m).books.Unlimited := by
  show (Session.booksFor (s.workshop m).inst s.books).Unlimited
  unfold Session.booksFor
  split
  · exact fun l hLedger => nomatch hLedger
  · exact h

theorem Session.ledger_of_compile {w' : Workshop}
    (h : Workshop.compile m r (s.workshop m) = .ok a w') (hOwner : w'.inst.owner = none) :
    w'.books.ledger = none := by
  have hSome := ((Workshop.compile_books .any m r _).of_ok trivial h).2.1.2
  rw [hOwner] at hSome
  have hNone : (s.workshop m).inst.owner = none :=
    Option.isNone_iff_eq_none.mp (Option.isSome_eq_false_iff.mp hSome.symm)
  have hLedger : (s.workshop m).books.ledger = none := by
    show (booksFor (s.workshop m).inst s.books).ledger = none
    unfold booksFor
    rw [hNone]
  exact ((Workshop.compile_books Books.uncounted_bookkeeping m r _).of_ok hLedger h).1

theorem Expense.bytes_code (characters : Nat) :
    (code characters).bytes = 4 * (characters : Int) := Int.mul_comm _ _

theorem Books.charges_enter (bytes : Int) (b : Books) :
    (b.enter bytes).journal.filter Note.isCharge = b.journal.filter Note.isCharge ++
      b.used?.toList.map fun used => Note.charged bytes (used + bytes) := by
  cases h : b.ledger <;> simp [enter, note, used?, Note.isCharge, h]

theorem Artifact.used?_noted (a : Artifact) (r : Request) (trace : Bool) (results slots : Int)
    (b : Books) : (a.noted r trace results slots b).used? = b.used? := by
  cases trace <;> rfl

theorem Artifact.charges_noted (a : Artifact) (r : Request) (trace : Bool) (results slots : Int)
    (b : Books) : (a.noted r trace results slots b).journal.filter Note.isCharge =
      b.journal.filter Note.isCharge := by
  cases trace <;> simp [noted, Books.note, Note.isCharge]

open Session in
/-- **Recompiling adds only the text.**  On an instance that is charged without limit, or not at
all, a source that was compiled without the help of templates is compiled again.  The second text
differs in the name of the routine, which stands in its first line.  Variables, their values and the
scratch buffer stay as they are; only the next routine has a new number, and the text is paid for
with four bytes for each of its characters, in a single charge. -/
theorem recompiling_adds_only_text {s s₁ : Session} {number : Nat} {i : Instance} {r : Request}
    {a : Artifact} (hSound : s.Sound) (hAt : s.instance? number = some i)
    (hUnlimited : s.books.Unlimited)
    (hCompile : onInstance number (Workshop.compile number r) s = .ok a s₁)
    (hPlain : ∃ a₀ s₀, onInstance number (Workshop.compile number r)
      (s.changeInstance number Instance.disarmed) = .ok a₀ s₀) :
    ∃ a' s₂ i₁ rest, s₁.instance? number = some i₁ ∧
      onInstance number (Workshop.compile number r) s₁ = .ok a' s₂ ∧
      a.text = "def " ++ a.name ++ rest ∧ a'.text = "def " ++ a'.name ++ rest ∧
      (∀ n, s₂.instance? n = if n = number then
        some { i₁ with
          nextRoutine := i₁.nextRoutine + 1
          owner := i₁.owner.map (·.add (.code a'.text.length)) } else s₁.instance? n) ∧
      s₂.books.used? = (if i₁.owner.isSome then
        s₁.books.used?.map (· + 4 * (a'.text.length : Int)) else s₁.books.used?) ∧
      s₂.books.journal.filter Note.isCharge = s₁.books.journal.filter Note.isCharge ++
        (if i₁.owner.isSome then s₁.books.used?.toList.map fun used =>
          Note.charged (4 * (a'.text.length : Int)) (used + 4 * (a'.text.length : Int))
          else []) := by
  obtain ⟨w', hFirst, rfl⟩ := onPart_eq_ok.mp hCompile
  obtain ⟨a₀, s₀, hDisarmed⟩ := hPlain
  obtain ⟨w₀, hDisarmed, -⟩ := onPart_eq_ok.mp hDisarmed
  have hInst := workshop_inst hAt
  have hSpace : (s.workshop number).inst.space.Sound := by
    rw [hInst]
    exact hSound.spaces hAt
  have hLook : (s.changeInstance number Instance.disarmed).workshop number =
      (s.workshop number).disarmed := by
    show (⟨booksFor (((s.changeInstance number _).instance? number).getD default) s.books,
      ((s.changeInstance number _).instance? number).getD default⟩ : Workshop) =
      ⟨booksFor ((s.instance? number).getD default) s.books,
        ((s.instance? number).getD default).disarmed⟩
    rw [instance?_changeInstance, if_pos rfl, hAt]
    rfl
  rw [hLook] at hDisarmed
  obtain ⟨a', b, rest, results, slots, hText, hText', rfl, hSecond⟩ :=
    Workshop.compile_again hSpace (hUnlimited.workshop number) hFirst ⟨a₀, w₀, hDisarmed⟩
  -- the second compiling starts from what the first one left
  have hAt₁ : (s.setWorkshop number w').instance? number = some w'.inst := by
    rw [instance?_setWorkshop, if_pos rfl, hAt]
    rfl
  have hSame : (s.setWorkshop number w').workshop number = w' :=
    workshop_setWorkshop hAt (ledger_of_compile hFirst)
  have hAgain : onInstance number (Workshop.compile number r) (s.setWorkshop number w') =
      .ok a' ((s.setWorkshop number w').setWorkshop number _) :=
    onPart_of_ok ((congrArg _ hSame).trans hSecond)
  refine ⟨a', _, w'.inst, rest, hAt₁, hAgain, hText, hText', fun n => ?_, ?_, ?_⟩
  · rw [instance?_setWorkshop _ number n, hAt₁]
    rfl
  · rw [used?_setWorkshop _ number ⟨_, _⟩]
    dsimp only
    rw [Option.isSome_map]
    by_cases hOwner : w'.inst.owner.isSome
    · rw [if_pos hOwner, if_pos hOwner, if_pos hOwner, Artifact.used?_noted, Books.used?_enter,
        ← used?_workshop hAt₁ hOwner, hSame]
      rw [Expense.bytes_code]
    · rw [if_neg hOwner, if_neg hOwner]
  · rw [journal_setWorkshop, Artifact.charges_noted]
    by_cases hOwner : w'.inst.owner.isSome
    · rw [if_pos hOwner, if_pos hOwner, Books.charges_enter, ← used?_workshop hAt₁ hOwner, hSame,
        journal_setWorkshop, Expense.bytes_code]
    · rw [if_neg hOwner, if_neg hOwner, journal_setWorkshop, List.append_nil]

/-- A session with one instance, whose bytes are counted without a limit.  It has a template and a
host function with two values in addition to the default queries. -/
def countedSession : Session :=
  (Session.start (some ⟨none, 0, false⟩)).obeyAll .mute "a" [.create "a"
    ⟨some [("q.m", .template none none (.argument 0)), ("q.two", .host "two" 1 2)], true, [],
      true, false⟩]

/-- Reads and assigns variables that are not there yet, one of them a vector. -/
def swapRequest : Request := ⟨"v.a = q.two(v.b); v.b = t.n + c.x; return v.a;", ["x"], []⟩

open Session in
/-- A source with a vector and a host function is compiled twice. -/
theorem vector_is_recompiled :
    countedSession.Sound ∧ ∃ a s₁ a' s₂ i₁ used rest,
      onInstance 0 (Workshop.compile 0 swapRequest) countedSession = .ok a s₁ ∧
      onInstance 0 (Workshop.compile 0 swapRequest) s₁ = .ok a' s₂ ∧
      a.text = "def " ++ a.name ++ rest ∧ a'.text = "def " ++ a'.name ++ rest ∧
      s₁.instance? 0 = some i₁ ∧ s₁.books.used? = some used ∧
      s₂.books.used? = some (used + 4 * (a'.text.length : Int)) := by
  have hSound : countedSession.Sound :=
    (reached_obeyAll "a" _ (some ⟨none, 0, false⟩)).atRest.sound
  have hChecks : Outcome.passes (fun _ s' => (s'.instance? 0).any (·.owner.isSome) &&
      s'.books.used?.isSome) (onInstance 0 (Workshop.compile 0 swapRequest) countedSession) =
        true := by
    decide +kernel
  have hDisarmed : Outcome.passes (fun _ _ => true) (onInstance 0 (Workshop.compile 0 swapRequest)
      (countedSession.changeInstance 0 Instance.disarmed)) = true := by decide +kernel
  obtain ⟨a, s₁, hCompile, hChecks⟩ := Outcome.of_passes hChecks
  obtain ⟨hOwner, hUsed⟩ := Bool.and_eq_true_iff.mp hChecks
  obtain ⟨a₀, s₀, hPlain, -⟩ := Outcome.of_passes hDisarmed
  obtain ⟨i, hAt⟩ : ∃ i, countedSession.instance? 0 = some i :=
    Option.isSome_iff_exists.mp (by decide +kernel)
  have hBudget : countedSession.books.ledger.map (·.budget) = some none := by decide +kernel
  have hUnlimited : countedSession.books.Unlimited := by
    intro l hLedger
    rw [hLedger] at hBudget
    exact Option.some.inj hBudget
  obtain ⟨a', s₂, i₁, rest, hAt₁, hAgain, hText, hText', -, hPaid, -⟩ :=
    recompiling_adds_only_text hSound hAt hUnlimited hCompile ⟨a₀, s₀, hPlain⟩
  rw [hAt₁, Option.any_some] at hOwner
  rw [if_pos hOwner] at hPaid
  obtain ⟨used, hUsed⟩ := Option.isSome_iff_exists.mp hUsed
  rw [hUsed] at hPaid
  exact ⟨hSound, a, s₁, a', s₂, i₁, used, rest, hCompile, hAgain, hText, hText', hAt₁, hUsed, hPaid⟩

end MolangCompiler
