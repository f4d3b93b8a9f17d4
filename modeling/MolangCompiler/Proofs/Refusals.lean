import MolangCompiler.Proofs.Levels

/-!
# Variables that cannot be paid for

Making a variable is charged in up to four steps: slots that the store lacks, an entry of the map,
the record and its name.  If one of them is refused, what the earlier steps have done is undone in
part only:

* the store stays as long as it has become, and its new slots stay charged;
* the entry of the map stays charged, though the map has no entry for it;
* the record is owed back, and its bytes are refunded once the failure has unwound.

A step is refused if and only if the bytes of all steps so far exceed what the budget allows
(`Books.affords`).  Therefore the same variable is refused again when it is asked for a second time:
then the store is long enough, but another entry is charged if there is room for it.
-/

namespace MolangCompiler

open Books

open Namespace

/-! ## What the budget allows -/

/-- An operation is carried out if it is allowed, and refused if not. -/
def Pays {σ α : Type} (allowed : Bool) (paid refused : σ → Prop) (out : Outcome σ α) : Prop :=
  (∃ a s, out = .ok a s ∧ allowed = true ∧ paid s) ∨
    ∃ r s, out = .error (.refused r) s ∧ allowed = false ∧ refused s

variable {debts : List Int}

namespace Books

/-- Whether the budget, if there is one, allows further bytes. -/
def affords (b : Books) (bytes : Int) : Bool :=
  match b.ledger with
  | some ⟨some budget, used, _⟩ => used + bytes ≤ budget
  | _ => true

variable {b : Books} {bytes : Int}

theorem affords_of_le {more : Int} (hLe : bytes ≤ more) (h : b.affords more) : b.affords bytes := by
  unfold affords at h ⊢
  split at h
  · simp only [decide_eq_true_eq] at h ⊢
    omega
  · rfl

theorem affords_enter (b : Books) (bytes more : Int) :
    (b.enter bytes).affords more = b.affords (bytes + more) := by
  obtain ⟨ledger, journal, owed⟩ := b
  cases ledger with
  | none => rfl
  | some l =>
    obtain ⟨budget, used, byHost⟩ := l
    cases budget with
    | none => rfl
    | some limit => simp [affords, enter, note, Int.add_assoc]

theorem not_affords_of_le {less : Int} (hLe : less ≤ bytes) (h : b.affords less = false) :
    b.affords bytes = false :=
  Bool.eq_false_iff.mpr fun hMore => Bool.eq_false_iff.mp h (affords_of_le hLe hMore)

theorem charge_pays (hPos : 0 < bytes) (b : Books) :
    Pays (b.affords bytes) (· = b.enter bytes) (b = ·) (charge bytes b) := by
  obtain ⟨ledger, journal, owed⟩ := b
  cases ledger with
  | none => exact .inl ⟨(), _, rfl, rfl, rfl⟩
  | some l =>
    obtain ⟨budget, used, byHost⟩ := l
    cases budget with
    | none => exact .inl ⟨(), _, rfl, rfl, rfl⟩
    | some limit =>
      unfold charge
      by_cases hLe : used + bytes ≤ limit
      · refine .inl ⟨(), _, ?_, by simpa [affords] using hLe, rfl⟩
        simp [Ledger.refusal?, Int.not_lt.mpr hLe]
      · refine .inr ⟨⟨bytes, used, limit, byHost⟩, _, ?_, by simpa [affords] using hLe, rfl⟩
        simp [Ledger.refusal?, hPos, Int.not_le.mp hLe]

theorem isSome_of_not_affords (h : b.affords bytes = false) : b.ledger.isSome = true := by
  obtain ⟨ledger, journal, owed⟩ := b
  cases ledger with
  | none => cases h
  | some l => rfl

/-! ## Spending -/

/-- Refunds the debts behind the oldest ones, which an operation has run into. -/
def unwind (older : Nat) (b : Books) : Books :=
  refundAll (b.owed.drop older) { b with owed := b.owed.take older }

/-- From some books to others bytes were spent, apart from those that are owed back. -/
structure Spends (bytes : Int) (debts : List Int) (b b' : Books) : Prop where
  owed : b'.owed = b.owed ++ debts
  used : b'.used? = b.used?.map (· + (bytes + debts.sum))
  affords : ∀ more, b'.affords more = b.affords (bytes + debts.sum + more)

theorem Spends.refl (b : Books) : b.Spends 0 [] b where
  owed := (List.append_nil _).symm
  used := by simp
  affords more := by simp

theorem Spends.trans {bytes' : Int} {debts' : List Int} {b' b'' : Books}
    (h : b.Spends bytes debts b') (h' : b'.Spends bytes' debts' b'') :
    b.Spends (bytes + bytes') (debts ++ debts') b'' where
  owed := by rw [h'.owed, h.owed, List.append_assoc]
  used := by
    rw [h'.used, h.used, Option.map_map, List.sum_append]
    congr 1
    funext used
    simp only [Function.comp_apply]
    omega
  affords more := by
    rw [h'.affords, h.affords, List.sum_append]
    congr 1
    omega

theorem affords_refundAll (charges : List Int) (b : Books) (more : Int) :
    (refundAll charges b).affords more = b.affords (more - charges.sum) := by
  induction charges generalizing b with
  | nil => simp [refundAll]
  | cons bytes rest ih =>
    refine (ih _).trans ?_
    rw [affords_enter, List.sum_cons]
    congr 1
    omega

theorem spends_enter (bytes : Int) (b : Books) : b.Spends bytes [] (b.enter bytes) where
  owed := by rw [owed_enter, List.append_nil]
  used := by simp
  affords more := by simp [affords_enter]

theorem spends_note (n : Note) (b : Books) : b.Spends 0 [] (b.note n) :=
  ⟨(Spends.refl b).owed, (Spends.refl b).used, (Spends.refl b).affords⟩

theorem spends_owe (bytes : Int) (b : Books) : b.Spends (-bytes) [bytes] (b.owe bytes) where
  owed := rfl
  used := by
    simp only [List.sum_singleton, Int.add_left_neg, Int.add_zero]
    exact Option.map_id'.symm
  affords more := by simp [affords, owe]

theorem Spends.unwind {b' : Books} (h : b.Spends bytes debts b') :
    b.Spends bytes [] (b'.unwind b.owed.length) := by
  have hDebts : b'.owed.drop b.owed.length = debts := by simp [h.owed]
  have hOlder : b'.owed.take b.owed.length = b.owed := by simp [h.owed]
  unfold Books.unwind
  rw [hDebts, hOlder]
  constructor
  · rw [owed_refundAll, List.append_nil]
  · rw [used?_refundAll]
    show b'.used?.map _ = _
    rw [h.used, Option.map_map]
    congr 1
    funext used
    simp only [Function.comp_apply, List.sum_nil]
    omega
  · intro more
    rw [affords_refundAll]
    show b'.affords _ = _
    rw [h.affords, List.sum_nil]
    congr 1
    omega

end Books

theorem Books.Spends.isSome_ledger {bytes : Int} {b b' : Books} (h : b.Spends bytes debts b') :
    b'.ledger.isSome = b.ledger.isSome := by
  have hUsed := congrArg Option.isSome h.used
  simpa [used?] using hUsed

/-! ## Stores -/

namespace Namespace

/-- How many slots are added to the store for a variable. -/
def shortage (ns : Namespace) (size : Nat) : Nat :=
  if ns.store.size ≤ ns.cursor + size then 2 * (ns.cursor + size) - ns.store.size else 0

theorem lengthen_lengthen (ns : Namespace) (m n : Nat) :
    (ns.lengthen m).lengthen n = ns.lengthen (m + n) := by
  simp [lengthen, Array.append_assoc]

theorem shortage_lengthen (ns : Namespace) (size : Nat) :
    (ns.lengthen (ns.shortage size)).shortage size = 0 := by
  have hLength (slots : Nat) : (ns.lengthen slots).store.size = ns.store.size + slots := by
    simp [lengthen]
  have hCursor (slots : Nat) : (ns.lengthen slots).cursor = ns.cursor := rfl
  unfold shortage
  rw [hCursor, hLength]
  split <;> split <;> omega

end Namespace

namespace Tenant

def Owned (t : Tenant) : Prop := t.books.ledger.isSome → t.owner.isSome

/-- From a namespace to another one the store grew, and bytes were spent. -/
structure Moves (grown : Nat) (bytes : Int) (debts : List Int) (t t' : Tenant) : Prop where
  space : t'.space = t.space.lengthen grown
  owner : t'.owner.isSome = t.owner.isSome
  books : t.books.Spends bytes debts t'.books

theorem Moves.refl (t : Tenant) : t.Moves 0 0 [] t where
  space := t.space.lengthen_zero.symm
  owner := rfl
  books := .refl t.books

variable {grown size : Nat} {bytes : Int} {debts : List Int} {t' : Tenant} {name : String}

theorem Moves.trans {grown' : Nat} {bytes' : Int} {debts' : List Int} {t t'' : Tenant}
    (h : t.Moves grown bytes debts t') (h' : t'.Moves grown' bytes' debts' t'') :
    t.Moves (grown + grown') (bytes + bytes') (debts ++ debts') t'' where
  space := by rw [h'.space, h.space, lengthen_lengthen]
  owner := h'.owner.trans h.owner
  books := h.books.trans h'.books

theorem Moves.owned {t : Tenant} (h : t.Moves grown bytes debts t') (hOwned : t.Owned) :
    t'.Owned := by
  intro hCounted
  rw [h.books.isSome_ledger] at hCounted
  rw [h.owner]
  exact hOwned hCounted

/-! ## Single charges -/

variable {t : Tenant}

theorem moves_enter (bytes : Int) (t : Tenant) (owner : Option Account)
    (hOwner : owner.isSome = t.owner.isSome) :
    t.Moves 0 bytes [] ⟨t.books.enter bytes, owner, t.space⟩ where
  space := t.space.lengthen_zero.symm
  owner := hOwner
  books := spends_enter bytes t.books

theorem charge_pays (hPos : 0 < bytes) (t : Tenant) :
    Pays (t.books.affords bytes) (t.Moves 0 bytes []) (t = ·) (charge bytes t) := by
  rcases Books.charge_pays hPos t.books with ⟨_, _, hCharge, hYes, rfl⟩ | ⟨r, _, hCharge, hNo, rfl⟩
  · exact .inl ⟨(), _, onPart_of_ok hCharge, hYes, moves_enter bytes t t.owner rfl⟩
  · exact .inr ⟨r, _, onPart_of_error hCharge, hNo, rfl⟩

/-- Without an owner nothing is counted, so that nothing is spent either. -/
theorem chargeOwner_pays {expense : Expense} (hPos : 0 < expense.bytes) (hOwned : t.Owned) :
    Pays (t.books.affords expense.bytes) (t.Moves 0 expense.bytes []) (t = ·)
      (chargeOwner expense t) := by
  obtain ⟨⟨ledger, journal, owed⟩, owner, space⟩ := t
  cases owner with
  | none =>
    cases ledger with
    | none =>
      have hMoves := moves_enter expense.bytes ⟨⟨none, journal, owed⟩, none, space⟩ none rfl
      exact .inl ⟨(), _, rfl, rfl, hMoves⟩
    | some l => exact absurd (hOwned rfl) (by simp)
  | some account =>
    rcases charge_pays hPos ⟨⟨ledger, journal, owed⟩, some account, space⟩ with
      ⟨_, t₁, hCharge, hYes, hMoves⟩ | ⟨r, _, hCharge, hNo, rfl⟩
    · refine .inl ⟨(), _, bind_of_ok hCharge, hYes, hMoves.space, ?_, hMoves.books⟩
      exact (Option.isSome_map ..).trans hMoves.owner
    · exact .inr ⟨r, _, (get_bind ..).trans (bind_of_error hCharge), hNo, rfl⟩

/-! ## Steps of making a variable -/

theorem growStore_pays {slots missing : Nat} (hMissing : slots - t.space.store.size = missing)
    (hSome : 0 < missing) (hOwned : t.Owned) :
    Pays (t.books.affords (missing * wordBytes)) (t.Moves missing (missing * wordBytes) []) (t = ·)
      (growStore slots t) := by
  subst hMissing
  have hPos : 0 < (Expense.slots (slots - t.space.store.size)).bytes := by
    simp only [Expense.bytes, wordBytes]
    omega
  rcases chargeOwner_pays hPos hOwned with ⟨_, t₁, hCharge, hYes, hMoves⟩ | ⟨r, _, hCharge,
    hNo, rfl⟩
  · refine .inl ⟨(), _, bind_of_ok hCharge, hYes, ?_, hMoves.owner, ?_⟩
    · show lengthen _ t₁.space = _
      rw [hMoves.space, lengthen_lengthen, Nat.zero_add]
    · simpa [Expense.bytes] using hMoves.books.trans (spends_note _ t₁.books)
  · exact .inr ⟨r, _, (get_bind ..).trans (bind_of_error hCharge), hNo, rfl⟩

def recordCost (name : String) : Int := entryBytes + recordBytes + textBytes name

theorem textBytes_pos (name : String) : 0 < textBytes name := by
  simp only [textBytes, arrayBytes, objectBytes, wordBytes]
  omega

/-- **A record that is refused** leaves its entry charged, if that was still allowed. -/
theorem chargeRecord_pays (hOwned : t.Owned) :
    Pays (t.books.affords (recordCost name)) (fun _ => True) (fun t' => ∃ debts,
        t.Moves 0 (if t.books.affords entryBytes then entryBytes else 0) debts t')
      (chargeRecord name t) := by
  have hText := textBytes_pos name
  have hRecord : 0 < recordBytes := by decide
  have hPays : Pays (t.books.affords entryBytes) (t.Moves 0 entryBytes []) (t = ·)
      (chargeOwner .entry t) := chargeOwner_pays (by decide) hOwned
  unfold chargeRecord
  rcases hPays with ⟨_, t₁, hEntry, hFirst, hMoves₁⟩ | ⟨r, _, hEntry, hFirst, rfl⟩
  · have hAffords₁ (more : Int) : t₁.books.affords more = t.books.affords (entryBytes + more) := by
      simp [hMoves₁.books.affords]
    rw [if_pos hFirst]
    rcases charge_pays hRecord t₁ with ⟨_, t₂, hCharge, -, hMoves₂⟩ | ⟨r, _, hCharge, hSecond, rfl⟩
    · have hBoth : (chargeOwner .entry *> charge recordBytes) t = .ok () t₂ :=
        (bind_of_ok hEntry).trans hCharge
      have hThird : t₂.books.affords (textBytes name) = t.books.affords (recordCost name) := by
        simp [hMoves₂.books.affords, hAffords₁, recordCost, Int.add_assoc]
      rw [hBoth, ← hThird]
      dsimp only
      rcases charge_pays hText t₂ with ⟨_, t₃, hName, hYes, -⟩ | ⟨r, _, hName, hNo, rfl⟩
      · rw [hName]
        exact .inl ⟨(), t₃, rfl, hYes, trivial⟩
      · rw [hName]
        -- the record has been charged and is owed back
        have hOwes : t₂.Moves 0 (-recordBytes) [recordBytes]
            { t₂ with books := t₂.books.owe recordBytes } :=
          ⟨t₂.space.lengthen_zero.symm, rfl, spends_owe recordBytes t₂.books⟩
        exact .inr ⟨r, _, rfl, hNo, [recordBytes], by
          simpa using (hMoves₁.trans hMoves₂).trans hOwes⟩
    · have hBoth : (chargeOwner .entry *> charge recordBytes) t = .error (.refused r) t₁ :=
        (bind_of_ok hEntry).trans hCharge
      rw [hAffords₁] at hSecond
      rw [hBoth]
      exact .inr ⟨r, t₁, rfl, not_affords_of_le (by unfold recordCost; omega) hSecond, [], hMoves₁⟩
  · have hBoth : (chargeOwner .entry *> charge recordBytes) t = .error (.refused r) t :=
      bind_of_error hEntry
    rw [hBoth, if_neg (Bool.eq_false_iff.mp hFirst)]
    exact .inr ⟨r, t, rfl, not_affords_of_le (by unfold recordCost; omega) hFirst, [], .refl t⟩

/-! ## Making a variable -/

/-- Room is made if it is there already or can be paid for. -/
theorem makeRoom_pays (hSize : 0 < size) (hOwned : t.Owned) :
    Pays (t.space.shortage size == 0 || t.books.affords (t.space.shortage size * wordBytes))
      (t.Moves (t.space.shortage size) (t.space.shortage size * wordBytes) []) (t = ·)
      (makeRoom (t.space.cursor + size) t) := by
  show Pays _ _ _
    ((if t.space.store.size ≤ t.space.cursor + size then _ else _ : Act Tenant Unit) t)
  unfold shortage
  by_cases hShort : t.space.store.size ≤ t.space.cursor + size
  · have hSome : 0 < 2 * (t.space.cursor + size) - t.space.store.size := by omega
    simp only [if_pos hShort, beq_eq_false_iff_ne.mpr (Nat.ne_of_gt hSome), Bool.false_or]
    exact growStore_pays rfl hSome hOwned
  · simp only [if_neg hShort]
    exact .inl ⟨(), t, rfl, rfl, by simpa using Moves.refl t⟩

theorem publish_pays (v : Variable) (hOwned : t.Owned) :
    Pays (t.books.affords (recordCost v.name)) (fun _ => True) (fun t' => ∃ debts,
        t.Moves 0 (if t.books.affords entryBytes then entryBytes else 0) debts t')
        (publish v t) := by
  show Pays _ _ _ ((if t.books.ledger.isSome = true then _ else _ : Act Tenant Variable) t)
  by_cases hLedger : t.books.ledger.isSome = true
  · rw [if_pos hLedger]
    rcases chargeRecord_pays hOwned with ⟨_, t₁, hCharge, hYes, -⟩ | ⟨r, t₁, hCharge, hNo, hMoves⟩
    · exact .inl ⟨v, _, bind_of_ok hCharge, hYes, trivial⟩
    · exact .inr ⟨r, t₁, bind_of_error hCharge, hNo, hMoves⟩
  · rw [if_neg hLedger]
    refine .inl ⟨v, _, rfl, ?_, trivial⟩
    exact Bool.of_not_eq_false fun hNo => hLedger (isSome_of_not_affords hNo)

/-- The slots that are added to the store for a new variable. -/
def grownSlots (t : Tenant) (size : Nat) : Nat :=
  if t.books.affords (t.space.shortage size * wordBytes) then t.space.shortage size else 0

/-- The map entries that are charged for a new variable. -/
def chargedEntries (t : Tenant) (size : Nat) : Nat :=
  if t.books.affords (t.space.shortage size * wordBytes + entryBytes) then 1 else 0

def leftover (t : Tenant) (size : Nat) : Int :=
  t.grownSlots size * wordBytes + t.chargedEntries size * entryBytes

/-- Bytes of a new variable, with the slots that the store lacks. -/
def cost (t : Tenant) (name : String) (size : Nat) : Int :=
  t.space.shortage size * wordBytes + recordCost name

theorem recordCost_pos (name : String) : entryBytes < recordCost name := by
  have hRecord : 0 < recordBytes := by decide
  have hText := textBytes_pos name
  unfold recordCost
  omega

/-- **A variable** is made if the budget allows it, and refused if not.  Then what is left of it are
new slots and an entry of the map, as far as these were allowed. -/
theorem create_pays (hSize : 0 < size) (hOwned : t.Owned) :
    Pays (t.books.affords (t.cost name size)) (fun _ => True)
      (fun t' => ∃ debts, t.Moves (t.grownSlots size) (t.leftover size) debts t')
      (create name size t) := by
  have hEntry : 0 < entryBytes := by decide
  have hRecord := recordCost_pos name
  rw [create_eq]
  unfold leftover
  rcases makeRoom_pays hSize hOwned with ⟨_, t₁, hRoom, hFirst, hMoves⟩ | ⟨r, _, hRoom, hFirst, rfl⟩
  · have hGrown : t.grownSlots size = t.space.shortage size := by
      unfold grownSlots
      split
      · rfl
      · rename_i hRefused
        exact (show t.space.shortage size = 0 by simpa [hRefused] using hFirst).symm
    have hAffords (more : Int) :
        t₁.books.affords more = t.books.affords (t.space.shortage size * wordBytes + more) := by
      rw [hMoves.books.affords, List.sum_nil, Int.add_zero]
    rw [bind_of_ok hRoom, hGrown, cost, ← hAffords]
    rcases publish_pays ⟨name, size, t.space.cursor⟩ (hMoves.owned hOwned) with
      ⟨v, t₂, hPublish, hYes, -⟩ | ⟨r, t₂, hPublish, hNo, debts, hMoves'⟩
    · exact .inl ⟨v, t₂, hPublish, hYes, trivial⟩
    · refine .inr ⟨r, t₂, hPublish, hNo, debts, ?_⟩
      rw [hAffords] at hMoves'
      unfold chargedEntries
      split at hMoves' <;> simpa [*] using hMoves.trans hMoves'
  · obtain ⟨-, hRefused⟩ := Bool.or_eq_false_iff.mp hFirst
    have hNone : t.books.affords (t.space.shortage size * wordBytes + entryBytes) = false :=
      not_affords_of_le (by omega) hRefused
    refine .inr ⟨r, t, bind_of_error hRoom, not_affords_of_le (by unfold cost; omega) hRefused, [],
      ?_⟩
    simpa [grownSlots, chargedEntries, hRefused, hNone] using Moves.refl t

theorem failure_ne_refused (problem : SizeProblem) (r : Refusal) :
    problem.failure ≠ .refused r := by
  unfold SizeProblem.failure
  split <;> nofun

/-- Only a variable that is missing and has an admissible size is refused, and only for its bytes.
-/
theorem obtain_refused {size : Int} {r : Refusal} (hOwned : t.Owned)
    (h : Tenant.obtain name size t = .error (.refused r) t') :
    t.space.get? name = none ∧ sizeProblem? name size = none ∧
      t.books.affords (t.cost name size.toNat) = false := by
  unfold Tenant.obtain at h
  rw [get_bind] at h
  cases hGet : t.space.get? name with
  | some v =>
    rw [hGet] at h
    dsimp only at h
    split at h
    · cases h
    · exact absurd (EStateM.Result.error.inj h).1 (failure_ne_refused _ r)
  | none =>
    rw [hGet] at h
    cases hProblem : sizeProblem? name size with
    | some problem =>
      rw [hProblem] at h
      exact absurd (EStateM.Result.error.inj h).1 (failure_ne_refused problem r)
    | none =>
      rw [hProblem] at h
      have hSize := (size_of_no_problem hProblem).1
      have hPays : Pays _ _ _ (create name size.toNat t) := create_pays (by omega) hOwned
      rcases hPays with ⟨v, t₁, hCreate, -⟩ | ⟨_, _, -, hNo, -⟩
      · cases hCreate.symm.trans h
      · exact ⟨rfl, rfl, hNo⟩

theorem obtain_eq_create {size : Int} (hMissing : t.space.get? name = none)
    (hFine : sizeProblem? name size = none) :
    Tenant.obtain name size t = create name size.toNat t := by
  unfold Tenant.obtain
  rw [get_bind, hMissing, hFine]

theorem Moves.unwind (h : t.Moves grown bytes debts t') :
    t.Moves grown bytes [] { t' with books := t'.books.unwind t.books.owed.length } :=
  ⟨h.space, h.owner, h.books.unwind⟩

theorem shortage_of_moves {u : Tenant} (h : t.Moves (t.grownSlots size) bytes debts u) :
    u.space.shortage size + t.grownSlots size = t.space.shortage size := by
  rw [h.space]
  unfold grownSlots
  split
  · rw [shortage_lengthen, Nat.zero_add]
  · rw [lengthen_zero, Nat.add_zero]

section Again

variable {name : String} {size : Nat} {u : Tenant}

theorem affords_of_moves (hMoves : t.Moves (t.grownSlots size) (t.leftover size) [] u)
    (more : Int) : u.books.affords (u.space.shortage size * wordBytes + more) =
      t.books.affords
        (t.space.shortage size * wordBytes + t.chargedEntries size * entryBytes + more) := by
  have hShortage := shortage_of_moves hMoves
  have hWord : wordBytes = 4 := rfl
  rw [hMoves.books.affords, List.sum_nil, leftover, hWord]
  congr 1
  omega

/-- **A variable that was refused** is refused again. -/
theorem not_affords_again (h : t.books.affords (t.cost name size) = false)
    (hMoves : t.Moves (t.grownSlots size) (t.leftover size) [] u) :
    u.books.affords (u.cost name size) = false := by
  have hEntry : entryBytes = 32 := rfl
  unfold cost at h ⊢
  rw [affords_of_moves hMoves]
  exact not_affords_of_le (by rw [hEntry]; omega) h

theorem grownSlots_again (hMoves : t.Moves (t.grownSlots size) (t.leftover size) [] u) :
    u.grownSlots size = 0 := by
  have hShortage := shortage_of_moves hMoves
  have hEntry : entryBytes = 32 := rfl
  have hAffords := affords_of_moves hMoves 0
  simp only [Int.add_zero] at hAffords
  unfold grownSlots
  split
  · rename_i hMore
    rw [hAffords] at hMore
    have hGrown : t.grownSlots size = t.space.shortage size :=
      if_pos (affords_of_le (by rw [hEntry]; omega) hMore)
    omega
  · rfl

theorem chargedEntries_again (hMoves : t.Moves (t.grownSlots size) (t.leftover size) [] u) :
    u.chargedEntries size =
      if t.books.affords (t.space.shortage size * wordBytes + 2 * entryBytes) then 1 else 0 := by
  have hEntry : entryBytes = 32 := rfl
  have hAffords := affords_of_moves hMoves entryBytes
  unfold chargedEntries at hAffords ⊢
  rw [hAffords]
  by_cases hFirst : t.books.affords (t.space.shortage size * wordBytes + entryBytes)
  · simp only [if_pos hFirst]
    congr 3
  · have hSecond : ¬t.books.affords (t.space.shortage size * wordBytes + 2 * entryBytes) = true :=
      fun hMore => hFirst (affords_of_le (by omega) hMore)
    simp only [if_neg hFirst, if_neg hSecond, Int.natCast_zero, Int.zero_mul, Int.add_zero]

end Again

end Tenant

namespace Session

/-- The variable with a name and a size on an instance, made if there is none. -/
def declare (number : Nat) (name : String) (size : Int) : Act Session Variable :=
  onInstance number (Workshop.onTenant (Tenant.obtain name size))

/-- A session when the failure of an operation that started from another one has unwound. -/
def unwound (before s : Session) : Session :=
  { s with books := s.books.unwind before.books.owed.length }

/-- The variables of an instance with the books of the session. -/
def asTenant (s : Session) (i : Instance) : Tenant := ⟨s.books, i.owner, i.space⟩

/-- A variable of an instance is missing, and the budget does not allow it. -/
structure Lacks (s : Session) (i : Instance) (name : String) (size : Int) : Prop where
  owner : i.owner.isSome
  missing : i.space.get? name = none
  admissible : Namespace.sizeProblem? name size = none
  refused : s.books.affords ((s.asTenant i).cost name size.toNat) = false

variable {s s' : Session} {k number : Nat} {i : Instance} {name : String} {size : Int}

theorem owned_tenant (s : Session) (k : Nat) : (s.workshop k).tenant.Owned := by
  show (booksFor (s.workshop k).inst s.books).ledger.isSome → (s.workshop k).inst.owner.isSome
  unfold booksFor
  split <;> simp [*]

theorem tenant_of_owner (hAt : s.instance? k = some i) (hOwner : i.owner.isSome) :
    (s.workshop k).tenant = s.asTenant i := by
  obtain ⟨account, hAccount⟩ := Option.isSome_iff_exists.mp hOwner
  unfold Workshop.tenant asTenant
  rw [workshop_inst hAt]
  show (⟨booksFor ((s.instance? k).getD default) s.books, i.owner, i.space⟩ : Tenant) = _
  rw [hAt, Option.getD_some]
  unfold booksFor
  rw [hAccount]

theorem lacks_of_refused {r : Refusal} (hAt : s.instance? k = some i)
    (h : declare k name size s = .error (.refused r) s') : s.Lacks i name size := by
  have hOwned := owned_tenant s k
  cases hObtain : Tenant.obtain name size (s.workshop k).tenant with
  | ok v t =>
    cases (onPart_of_ok (onPart_of_ok hObtain)).symm.trans h
  | error e t =>
    cases (onPart_of_error (onPart_of_error hObtain)).symm.trans h
    obtain ⟨hMissing, hFine, hRefused⟩ := Tenant.obtain_refused hOwned hObtain
    have hOwner : i.owner.isSome := by
      have hSome := hOwned (isSome_of_not_affords hRefused)
      rwa [show (s.workshop k).tenant.owner = i.owner from
        congrArg Instance.owner (workshop_inst hAt)] at hSome
    rw [tenant_of_owner hAt hOwner] at hMissing hRefused
    exact ⟨hOwner, hMissing, hFine, hRefused⟩

/-- What is left of a variable that the budget does not allow, once the failure has unwound. -/
theorem declare_of_lacks (hAt : s.instance? k = some i) (h : s.Lacks i name size) :
    ∃ r s' i', declare k name size s = .error (.refused r) s' ∧
      (∀ n, s'.instance? n = if n = k then some i' else s.instance? n) ∧
      (s.asTenant i).Moves ((s.asTenant i).grownSlots size.toNat)
        ((s.asTenant i).leftover size.toNat) [] ((s.unwound s').asTenant i') := by
  have hTenant := tenant_of_owner hAt h.owner
  have hOwned := owned_tenant s k
  rw [hTenant] at hOwned
  have hSize : 0 < size.toNat := by
    have := (size_of_no_problem h.admissible).1
    omega
  obtain ⟨r, t', hCreate, -, debts, hMoves⟩ := (Tenant.create_pays hSize hOwned).resolve_left
    fun ⟨_, _, _, hYes, _⟩ => Bool.false_ne_true (h.refused.symm.trans hYes)
  have hObtain : Tenant.obtain name size (s.workshop k).tenant = .error (.refused r) t' := by
    rw [hTenant]
    exact (Tenant.obtain_eq_create h.missing h.admissible).trans hCreate
  refine ⟨r, _, { i with owner := t'.owner, space := t'.space },
    onPart_of_error (onPart_of_error hObtain), fun n => ?_, ?_⟩
  · rw [instance?_setWorkshop, hAt]
    show (if n = k then some ((s.workshop k).setTenant t').inst else _) = _
    unfold Workshop.setTenant
    rw [workshop_inst hAt]
  · have hBooks : (s.setWorkshop k ((s.workshop k).setTenant t')).books = t'.books := by
      rw [books_setWorkshop]
      exact if_pos (hMoves.owner.trans h.owner)
    unfold unwound
    rw [asTenant, hBooks]
    exact hMoves.unwind

/-- **A refused variable leaves slots and an entry behind.**  A variable that an instance lacks is
refused on account of the budget.  Then its records, its cursor and the values of its store are as
they were, except that the store has got the slots that it lacks, if the budget allowed them.  Once
the failure has unwound, the bytes in use have grown by those of the new slots and, if the budget
allowed it, by those of an entry of the map.  When the call is made again, it is refused again and
leaves the variables alone, but it charges another entry if there is still room for it. -/
theorem refused_variables_leave_slots_and_entries {r : Refusal} (hAt : s.instance? number = some i)
    (h : declare number name size s = .error (.refused r) s') :
    let needed := i.space.shortage size.toNat
    let grown := if s.books.affords (4 * needed) then needed else 0
    let entries : Int := if s.books.affords (4 * needed + 32) then 1 else 0
    let again : Int := if s.books.affords (4 * needed + 64) then 1 else 0
    ∃ used i' r' s'', s.books.used? = some used ∧ s'.instance? number = some i' ∧
      i'.space.records = i.space.records ∧ i'.space.cursor = i.space.cursor ∧
      i'.space.store = i.space.store ++ Array.replicate grown 0 ∧
      (s.unwound s').books.used? = some (used + 4 * grown + 32 * entries) ∧
      declare number name size (s.unwound s') = .error (.refused r') s'' ∧
      (s''.instance? number).map (·.space) = some i'.space ∧
      ((s.unwound s').unwound s'').books.used? =
        some (used + 4 * grown + 32 * entries + 32 * again) ∧
      ∀ n, n ≠ number → s'.instance? n = s.instance? n ∧ s''.instance? n = s.instance? n := by
  intro needed grown entries again
  have hLacks := lacks_of_refused hAt h
  obtain ⟨used, hUsed⟩ : ∃ used, s.books.used? = some used := by
    obtain ⟨l, hLedger⟩ := Option.isSome_iff_exists.mp (Books.isSome_of_not_affords hLacks.refused)
    exact ⟨l.used, by rw [Books.used?, hLedger]; rfl⟩
  obtain ⟨r₁, s₁, i', hFirst, hInstances, hMoves⟩ := declare_of_lacks hAt hLacks
  cases hFirst.symm.trans h
  have hAt' : s'.instance? number = some i' := (hInstances number).trans (if_pos rfl)
  have hSpace : i'.space = i.space.lengthen _ := hMoves.space
  have hLacks' : (s.unwound s').Lacks i' name size := by
    constructor
    · exact hMoves.owner.trans hLacks.owner
    · rw [hSpace]
      exact hLacks.missing
    · exact hLacks.admissible
    · exact Tenant.not_affords_again hLacks.refused hMoves
  obtain ⟨r₂, s₂, i'', hSecond, hInstances', hMoves'⟩ :=
    declare_of_lacks (s := s.unwound s') hAt' hLacks'
  have hSpace' : i''.space = i'.space := by
    have hSame : i''.space = i'.space.lengthen _ := hMoves'.space
    rw [hSame, Tenant.grownSlots_again hMoves, Namespace.lengthen_zero]
  -- the steps in bytes
  have hComm : (needed : Int) * wordBytes = 4 * needed := Int.mul_comm _ _
  have hGrown : (s.asTenant i).grownSlots size.toNat = grown := by
    show (if s.books.affords (needed * wordBytes) then needed else 0) = grown
    rw [hComm]
  have hEntries : ((s.asTenant i).chargedEntries size.toNat : Int) = entries := by
    show ((if s.books.affords (needed * wordBytes + 32) then 1 else 0 : Nat) : Int) = entries
    rw [hComm]
    exact Nat.cast_ite _ _ _
  have hAgain : (((s.unwound s').asTenant i').chargedEntries size.toNat : Int) = again := by
    rw [Tenant.chargedEntries_again hMoves]
    show ((if s.books.affords (needed * wordBytes + 64) then 1 else 0 : Nat) : Int) = again
    rw [hComm]
    exact Nat.cast_ite _ _ _
  have hUsed₁ : (s.unwound s').books.used? = some (used + 4 * grown + 32 * entries) := by
    refine hMoves.books.used.trans ?_
    show s.books.used?.map _ = _
    rw [hUsed, Tenant.leftover, hGrown, hEntries, Option.map_some, List.sum_nil]
    show some (used + (grown * 4 + entries * 32 + 0)) = _
    congr 1
    omega
  have hUsed₂ : ((s.unwound s').unwound s₂).books.used? =
      some (used + 4 * grown + 32 * entries + 32 * again) := by
    refine hMoves'.books.used.trans ?_
    show (s.unwound s').books.used?.map _ = _
    rw [hUsed₁, Tenant.leftover, Tenant.grownSlots_again hMoves, hAgain, Option.map_some,
      List.sum_nil]
    show some (_ + (0 * 4 + again * 32 + 0)) = _
    congr 1
    omega
  refine ⟨used, i', r₂, s₂, hUsed, hAt', ?_, ?_, ?_, hUsed₁, hSecond, ?_, hUsed₂,
    fun n hOther => ?_⟩
  · rw [hSpace]
    rfl
  · rw [hSpace]
    rfl
  · rw [hSpace, hGrown]
    rfl
  · rw [hInstances' number, if_pos rfl, Option.map_some, hSpace']
  · have hSame : s'.instance? n = s.instance? n := (hInstances n).trans (if_neg hOther)
    exact ⟨hSame, ((hInstances' n).trans (if_neg hOther)).trans hSame⟩

/-- A session with one variable whose budget allows 82 further bytes: two slots, a map entry and a
record, but not a name as well. -/
def tightSession : Session :=
  (start (some ⟨none, 0, false⟩)).obeyAll .mute "a"
    [.create "a" ⟨none, false, [], true, false⟩, .task "a" (.declare "x" 1), .setSlack 82]

/-- The first refusal adds two slots and charges an entry, and so does the second one. -/
theorem refused_variable_in_tight_session :
    ∃ i r s' used i' r' s'', tightSession.instance? 0 = some i ∧
      declare 0 "y" 1 tightSession = .error (.refused r) s' ∧
      tightSession.books.used? = some used ∧ s'.instance? 0 = some i' ∧
      i'.space.records = i.space.records ∧
      i'.space.store = i.space.store ++ Array.replicate 2 0 ∧
      (tightSession.unwound s').books.used? = some (used + 4 * 2 + 32) ∧
      declare 0 "y" 1 (tightSession.unwound s') = .error (.refused r') s'' ∧
      (s''.instance? 0).map (·.space) = some i'.space ∧
      ((tightSession.unwound s').unwound s'').books.used? = some (used + 4 * 2 + 32 + 32) := by
  obtain ⟨i, hAt⟩ := Option.isSome_iff_exists.mp
    (by decide +kernel : (tightSession.instance? 0).isSome = true)
  have hSteps : (tightSession.instance? 0).map (fun i =>
      let needed : Nat := i.space.shortage 1
      (needed, tightSession.books.affords (4 * needed), tightSession.books.affords
        (4 * needed + 32),
        tightSession.books.affords (4 * needed + 64))) = some (2, true, true, true) := by
    decide +kernel
  have hRefused : Outcome.failure? (declare 0 "y" 1 tightSession) =
      some (.refused ⟨22, 847, 857, false⟩) := by
    decide +kernel
  obtain ⟨s', hDeclare⟩ := Outcome.error_of_failure? hRefused
  have hLeft := refused_variables_leave_slots_and_entries hAt hDeclare
  rw [hAt] at hSteps
  obtain ⟨hNeeded, hSlots, hEntry, hAgain⟩ := by simpa using hSteps
  rw [hNeeded] at hSlots hEntry hAgain
  simp only [Int.toNat_one, hNeeded, hSlots, hEntry, hAgain, if_true, Int.mul_one] at hLeft
  obtain ⟨used, i', r', s'', hUsed, hAt', hRecords, -, hStore, hFirst, hSecond, hSpace, hMore, -⟩ :=
    hLeft
  exact ⟨i, _, s', used, i', r', s'', hAt, hDeclare, hUsed, hAt', hRecords, hStore, hFirst, hSecond,
    hSpace, hMore⟩

/-- The bytes in use, the slots of the store and the number of variables of the first instance. -/
def figures (s : Session) : Option Int × Option (Nat × Nat) :=
  (s.books.used?, (s.instance? 0).map fun i => (i.space.store.size, i.space.records.length))

/-- The figures before a variable is asked for, after it was refused, and after it was refused
again. -/
def refusedTwice (s : Session) (name : String) (size : Int) :
    Option (List (Option Int × Option (Nat × Nat))) :=
  match declare 0 name size s with
  | .error (.refused _) s' =>
    match declare 0 name size (s.unwound s') with
    | .error (.refused _) s'' =>
      some [s.figures, (s.unwound s').figures, ((s.unwound s').unwound s'').figures]
    | _ => none
  | _ => none

/-- **An entry of the map stays charged** each time the variable is refused, though the store grows
only once: the bytes in use do not grow by those of the new slots alone, and the second call is not
without effect. -/
theorem refused_entries_add_up :
    refusedTwice tightSession "y" 1 =
      some [(some 775, some (2, 1)), (some 815, some (4, 1)), (some 847, some (4, 1))] := by
  decide +kernel

end Session

end MolangCompiler
