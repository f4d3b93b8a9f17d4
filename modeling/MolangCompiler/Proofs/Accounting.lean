import MolangCompiler.Ledger.Registry
import MolangCompiler.Proofs.Reached
import MolangCompiler.Proofs.Upkeep

/-!
# What the bytes in use are for

Between commands the bytes in use are those that were charged for the instances that are there, and
those of the names of all variables that were ever made: `Session.Accounted` is the invariant, and
`Session.carryOut` keeps it, whichever charges are refused.

The scratch buffer is charged slot by slot when compiling lengthens it.  A routine that was made
from a template can write behind its room and so lengthen the buffer as well, which nobody pays for.
-/

namespace MolangCompiler

/-! ## Refused charges -/

/-- An operation that changes nothing if it fails. -/
def Atomic {σ α : Type} (act : Act σ α) : Prop := ∀ s e s', act s = .error e s' → s' = s

variable {σ α : Type}

theorem Atomic.of_ends {act : Act σ α} {p : σ → α → σ → Prop}
    (h : ∀ s, Ends (p s) (fun s' => s' = s) (act s)) : Atomic act := by
  intro s e s' hError
  have hEnd := h s
  rw [hError] at hEnd
  cases hEnd with
  | error hSame => exact hSame

theorem Atomic.ends {act : Act σ α} (h : Atomic act) (s : σ) :
    Ends (fun _ _ => True) (fun s' => s' = s) (act s) := by
  cases hAct : act s with
  | ok a s' => exact .ok trivial
  | error e s' => exact .error (h s e s' hAct)

theorem Atomic.onPart {τ : Type} {part : σ → τ} {put : τ → σ → σ} {act : Act τ α} (h : Atomic act)
    (hPut : ∀ s, put (part s) s = s) : Atomic (onPart part put act) :=
  .of_ends (p := fun _ _ _ => True) fun s => onPart_ends (.mono (h.ends (part s))
    (fun _ _ _ => trivial) fun _ hSame => hSame ▸ hPut s)

theorem Atomic.bind {β : Type} {act : Act σ α} {next : α → Act σ β} (h : Atomic act)
    (hNext : ∀ a s, ∃ b s', next a s = .ok b s') : Atomic (act >>= next) := by
  refine .of_ends (p := fun _ _ _ => True) fun s => .bind (h.ends s) fun a t _ => ?_
  obtain ⟨b, s', hOk⟩ := hNext a t
  rw [hOk]
  exact .ok trivial

theorem Atomic.get_bind {β : Type} {next : σ → Act σ β} (h : ∀ t, Atomic (next t)) :
    Atomic ((get : Act σ σ) >>= next) :=
  fun s e s' hError => h s s e s' hError

theorem Atomic.pure (a : α) : Atomic (Pure.pure a : Act σ α) :=
  fun _ _ _ hError => nomatch hError

theorem Atomic.throw (e : Failure) : Atomic (MonadExcept.throw e : Act σ α) := by
  intro s e' s' hError
  cases hError
  rfl

theorem Books.charge_atomic (bytes : Int) : Atomic (charge bytes) := .of_ends (charge_ends bytes)

theorem Tenant.chargeOwner_atomic (expense : Expense) : Atomic (chargeOwner expense) :=
  .of_ends (chargeOwner_ends expense)

namespace ScratchRoom

theorem charge_atomic (bytes : Int) : Atomic (charge bytes) := .of_ends (charge_ends bytes)

theorem establish_atomic : Atomic establish := by
  refine .get_bind fun r => ?_
  split
  · exact .bind (charge_atomic _) fun _ _ => ⟨_, _, rfl⟩
  · exact .pure _

theorem ensure_atomic (slots : Int) : Atomic (ensure slots) := .of_ends (ensure_ends slots)

theorem acquire_atomic (slots : Nat) (depth : Int) : Atomic (acquire slots depth) := by
  unfold acquire
  cases Reentrancy.ofDepth depth with
  | idle | oneActive => exact .pure _
  | multipleActive => exact .bind (charge_atomic _) fun _ _ => ⟨_, _, rfl⟩

end ScratchRoom

namespace Registry

theorem charge_atomic (bytes : Int) : Atomic (charge bytes) :=
  .onPart (Books.charge_atomic bytes) fun _ => rfl

theorem track_atomic (name : String) (item : Item) (size : Option Int) :
    Atomic (track name item size) := by
  unfold track
  split
  · exact .throw _
  · exact .bind (charge_atomic _) fun _ _ => ⟨_, _, rfl⟩

theorem change_atomic (name : String) (delta : Int) : Atomic (change name delta) := by
  refine .get_bind fun r => ?_
  split
  · exact .pure _
  · exact .bind (charge_atomic _) fun _ _ => ⟨_, _, rfl⟩

end Registry

/-! ## Tasks -/

variable {s : Session} {i : Instance}

namespace Session

section

variable {s : Session} {m : Nat} {i : Instance}

variable {evaluate : Evaluator}
  (hEvaluate : ∀ a args {s : Session}, s.Houses a → Stays upkeep (evaluate a args) s)
include hEvaluate

/-- **Every task** keeps the balance, if evaluations do. -/
theorem doTask_upkeeps (hAt : s.instance? m = some i) (task : Task) :
    Stays upkeep (doTask evaluate m task) s := by
  refine upkeep_managed.task hEvaluate ?_ ⟨i, hAt⟩ task fun name size _ => ?_
  · refine upkeep_managed.nested hEvaluate fun f s hThere hOk => ?_
    obtain ⟨i', hAt'⟩ := hThere
    exact changeDepth_upkeeps hAt' f hOk
  · exact obtain_upkeeps hAt name size

end

/-! ## Instances that come and go -/

theorem mem_instances (hNumbers : (s.instances.map (·.1)).Nodup) {p : Nat × Instance}
    (hp : p ∈ s.instances) : s.instance? p.1 = some p.2 := by
  unfold instance?
  have hFound : (s.instances.find? (·.1 == p.1)).isSome = true :=
    List.find?_isSome.mpr ⟨p, hp, beq_self_eq_true _⟩
  obtain ⟨q, hq⟩ := Option.isSome_iff_exists.mp hFound
  have hBeq := List.find?_some hq
  have hSame : q.1 = p.1 := beq_iff_eq.mp hBeq
  rw [hq, List.inj_on_of_nodup_map hNumbers (List.mem_of_find?_eq_some hq) hp hSame]
  rfl

end Session

namespace Instance

theorem bytes_eq (i : Instance) : i.bytes = 85 + 32 * i.queries.length := by
  unfold bytes objectBytes referenceBytes wordBytes flagBytes entryBytes referenceBytes
  omega

theorem Billed.refund_nonneg (h : i.Billed) : ∀ x ∈ i.refund ++ i.recordRefund, 0 ≤ x := by
  obtain ⟨a, hOwner, hCovers⟩ := h.account
  have hAccount : 0 ≤ a.bytes := by
    have hBase := hCovers.base
    have hNonneg := i.bytes_eq
    unfold Account.bytes wordBytes entryBytes referenceBytes codeFactor
    omega
  intro x hx
  rcases List.mem_append.mp hx with hx | hx
  · unfold refund at hx
    rw [hOwner, h.scratch.charged] at hx
    rcases List.mem_append.mp hx with hx | hx
    · rw [List.mem_singleton.mp hx]
      exact hAccount
    · rw [List.mem_singleton.mp hx]
      exact bufferBytes_nonneg _
  · unfold recordRefund at hx
    rw [hOwner, Option.isSome_some, if_pos rfl] at hx
    obtain ⟨_, -, rfl⟩ := List.mem_map.mp hx
    exact recordBytes_nonneg

end Instance

namespace Session

/-- **A new instance** is paid for, or it does not come about. -/
theorem create_bills (name : String) {plan : Plan} (hTracked : plan.tracked = true)
    (hRest : s.AtRest) (hBilled : s.Billed) :
    Ends (fun _ s' => s'.Billed ∧ Bills 0 s s') (fun s' => s'.Billed ∧ Bills 0 s s')
      (create name plan s) := by
  let i := Instance.fresh plan.allQueries plan.actor plan.trace
  have hBalance := Workshop.establish_balances hBilled.counted plan.allQueries plan.actor plan.trace
  have hBooks := Workshop.establish_books Books.charged_bookkeeping (w := ⟨s.books, i⟩)
    (by rw [Instance.bytes_eq]; omega) hBilled.debts
  unfold create
  rw [hTracked]
  dsimp only
  rw [if_pos rfl]
  generalize Workshop.establish ⟨s.books, i⟩ = out at hBalance hBooks ⊢
  cases hBalance with
  | error hBalance =>
    cases hBooks with
    | error hBooks =>
      refine .error ⟨⟨hBalance.1, hBooks.1, hBilled.numbers, hBilled.instances⟩, ?_, hBooks.2⟩
      show _ - s.held = s.books.net - s.held + 0
      rw [hBalance.2, Int.add_zero]
  | @ok _ w hBalance =>
    obtain ⟨hOk, hNet⟩ := hBalance
    cases hBooks with
    | ok hBooks =>
      have hNew : s.nextInstance ∉ s.instances.map (·.1) := by
        intro hMem
        obtain ⟨p, hp, hSame⟩ := List.mem_map.mp hMem
        have hLess := hRest.numbers (mem_instances hBilled.numbers hp)
        omega
      refine .ok ⟨⟨hOk.1, hBooks.1, ?_, fun {n j} hj => ?_⟩, ?_, hBooks.2.1⟩
      · show ((s.instances ++ [(s.nextInstance, w.inst)]).map (·.1)).Nodup
        rw [List.map_append, List.map_singleton]
        exact List.nodup_append'.mpr ⟨hBilled.numbers, List.nodup_singleton _,
          List.disjoint_singleton.mpr hNew⟩
      · obtain ⟨p, hp, rfl⟩ := Option.map_eq_some_iff.mp hj
        rcases List.mem_append.mp (List.mem_of_find?_eq_some hp) with hOld | hLast
        · exact hBilled.instances (mem_instances hBilled.numbers hOld)
        · rw [List.mem_singleton.mp hLast]
          exact hOk.2
      · unfold Workshop.net at hNet
        show w.books.net -
          ((s.instances ++ [(s.nextInstance, w.inst)]).map (·.2.held)).sum = s.net + 0
        rw [List.map_append, List.sum_append, List.map_singleton, List.sum_singleton]
        show _ - (s.held + w.inst.held) = s.books.net - s.held + 0
        omega

/-- **A dropped instance** is refunded; only the names of its variables stay charged. -/
theorem drop_bills (name : String) (hRest : s.AtRest) (hBilled : s.Billed) :
    (s.drop name).Billed ∧ Bills 0 s (s.drop name) := by
  unfold drop
  cases hNumber : s.number? name with
  | none => exact ⟨hBilled, .refl s⟩
  | some m =>
    obtain ⟨i, hAt⟩ := hRest.names _ (mem_of_number? hNumber)
    have hHeld := held_of_instance? hBilled.numbers hAt
    dsimp only at hAt ⊢
    rw [hAt]
    refine ⟨⟨?_, fun x hx => ?_, ?_, fun {n j} hj => ?_⟩, ?_, ?_⟩
    · exact (Books.isSome_refundAll _ _).trans hBilled.counted
    · exact hBilled.debts x (Books.owed_refundAll _ s.books ▸ hx)
    · exact (List.filter_sublist.map _).nodup hBilled.numbers
    · have hBack := (instance?_filter s m n).symm.trans hj
      split at hBack
      · cases hBack
      · exact hBilled.instances hBack
    · show (s.books.refundAll (i.refund ++ i.recordRefund)).net -
        ((s.instances.filter (·.1 != m)).map (·.2.held)).sum = s.books.net - s.held + 0
      rw [Books.net_refundAll _ hBilled.counted, List.sum_append]
      have hItems : i.held = i.refund.sum + i.recordRefund.sum := rfl
      dsimp only at hHeld
      omega
    · exact .refundAll (hBilled.instances hAt).refund_nonneg s.books

end Session

/-! ## Orders -/

/-- Notes account for the bytes in use, within the budget that there is in the end. -/
def Books.Tallied (b b' : Books) : Prop :=
  ∃ notes l l', b.ledger = some l ∧ b'.ledger = some l' ∧ b'.journal = b.journal ++ notes ∧
    Charges l'.budget l.used notes l'.used

namespace Books

theorem Charged.tallied {b b' : Books} (h : b.Charged b') (hCounted : b.ledger.isSome = true) :
    b.Tallied b' := by
  obtain ⟨l, hLedger⟩ := Option.isSome_iff_exists.mp hCounted
  obtain ⟨notes, hJournal, hCharges⟩ := h
  obtain ⟨l', hLedger', hBudget, hCharges⟩ := hCharges l hLedger
  exact ⟨notes, l, l', hLedger, hLedger', hJournal, hBudget ▸ hCharges⟩

theorem Tallied.charged {b₁ b₂ b₃ : Books} (h : b₁.Tallied b₂) (h' : b₂.Charged b₃) :
    b₁.Tallied b₃ := by
  obtain ⟨notes, l, l', hLedger, hLedger', hJournal, hFirst⟩ := h
  obtain ⟨more, hJournal', hCharges⟩ := h'
  obtain ⟨l'', hLedger'', hBudget, hSecond⟩ := hCharges l' hLedger'
  refine ⟨notes ++ more, l, l'', hLedger, hLedger'', ?_, ?_⟩
  · rw [hJournal', hJournal, List.append_assoc]
  · rw [hBudget]
    exact hFirst.append hSecond

theorem tallied_setBudget (budget : Option Int) {b : Books} (hCounted : b.ledger.isSome = true) :
    b.Tallied (b.setBudget budget) := by
  obtain ⟨l, hLedger⟩ := Option.isSome_iff_exists.mp hCounted
  refine ⟨[], l, { l with budget := budget }, hLedger, ?_, (List.append_nil _).symm, .nil⟩
  unfold setBudget
  rw [hLedger]
  rfl

theorem used?_setBudget (budget : Option Int) (b : Books) :
    (b.setBudget budget).used? = b.used? := by
  unfold setBudget used?
  cases b.ledger <;> rfl

end Books

/-- Whether the bytes of an instance that a command makes are counted. -/
def Command.tracked : Command → Bool
  | .create _ plan => plan.tracked
  | _ => true

/-- Something that is asked of a session: a command, the host functions while it is carried out, and
how deep evaluations may be nested. -/
structure Order where
  host : Host
  limit : Nat
  command : Command

namespace Session

/-- Carries out an order; what is owed in the end is refunded.  No report is made, so that nothing
of a dropped instance is kept for one. -/
def carryOut (s : Session) (o : Order) : Session :=
  let after := (outcome (obeyVia (hosted o.host o.limit) o.command) s).2
  { after with books := after.books.settle }

/-- Carries out orders one after the other. -/
def carryOutAll (s : Session) (orders : List Order) : Session := orders.foldl carryOut s

/-- All bytes in use are those of instances and of names. -/
structure Accounted (s : Session) : Prop where
  rest : s.AtRest
  billed : s.Billed
  net : s.net = 0
  owed : s.books.owed = []

/-- Charges are accounted for, and the balance is kept. -/
structure Tallies (s s' : Session) : Prop where
  billed : s'.Billed
  net : s'.net = s.net
  tallied : s.books.Tallied s'.books

variable {s : Session}

theorem Bills.tallies {s' : Session} (hCounted : s.books.ledger.isSome = true)
    (h : s'.Billed ∧ Bills 0 s s') : Tallies s s' :=
  ⟨h.1, h.2.net.trans (Int.add_zero _), h.2.charged.tallied hCounted⟩

theorem changeBudget_tallies (budget : Option Int) (hBilled : s.Billed) :
    Tallies s { s with books := s.books.setBudget budget } where
  billed := by
    refine ⟨?_, hBilled.debts, hBilled.numbers, hBilled.instances⟩
    exact (Option.isSome_map ..).trans hBilled.counted
  net := by
    show (s.books.setBudget budget).used?.getD 0 - _ - _ - _ = _
    rw [Books.used?_setBudget]
    rfl
  tallied := Books.tallied_setBudget budget hBilled.counted

/-- **Every command** keeps the balance. -/
theorem obeyVia_tallies (host : Host) (limit : Nat) {command : Command}
    (hTracked : command.tracked = true) (h : s.Accounted) :
    Ends (fun _ s' => Tallies s s') (fun s' => Tallies s s')
      (obeyVia (hosted host limit) command s) := by
  have hBills {t : Session} (hBilled : t.Billed ∧ Bills 0 s t) : Tallies s t :=
    Bills.tallies h.billed.counted hBilled
  cases command with
  | create name plan =>
    exact .mono (create_bills name hTracked h.rest h.billed) (fun _ _ => hBills) fun _ => hBills
  | drop name => exact .ok (hBills (drop_bills name h.rest h.billed))
  | setBudget budget => exact .ok (changeBudget_tallies budget h.billed)
  | setSlack slack => exact .ok (changeBudget_tallies _ h.billed)
  | task name task =>
    delta obeyVia
    dsimp only
    rw [get_bind]
    cases hNumber : s.number? name with
    | none => exact .error (hBills ⟨h.billed, .refl s⟩)
    | some m =>
      obtain ⟨i, hAt⟩ := h.rest.names _ (mem_of_number? hNumber)
      have hTask := doTask_upkeeps (fun a args _ => hosted_upkeeps host limit a args) hAt task
        ⟨h.rest.sound, h.billed⟩
      exact .mono hTask (fun _ _ hEnd => hBills ⟨hEnd.1.2, hEnd.2.1.2⟩)
        fun _ hEnd => hBills ⟨hEnd.1.2, hEnd.2.2⟩

/-- **Every order** keeps the accounts, and notes account for what it charges. -/
theorem Accounted.carryOut (h : s.Accounted) {o : Order} (hTracked : o.command.tracked = true) :
    (s.carryOut o).Accounted ∧ s.books.Tallied (s.carryOut o).books := by
  have hMoves := outcome_of_ends (obeyVia_moves
    (fun a args _ hHoused => hosted_keeps o.host o.limit args hHoused) o.command h.rest)
  have hTallies := outcome_of_ends (obeyVia_tallies o.host o.limit hTracked h)
  unfold Session.carryOut
  generalize (outcome (obeyVia (hosted o.host o.limit) o.command) s).2 = after at hMoves hTallies ⊢
  have hSettled := Books.charged_settle hTallies.billed.debts
  have hMoves' : Moves after { after with books := after.books.settle } :=
    moves_of_same hMoves.1 rfl rfl rfl rfl
  refine ⟨⟨hMoves'.1, ?_, ?_, Books.owed_settle _⟩, hTallies.tallied.charged hSettled.2⟩
  · exact ⟨(Books.isSome_refundAll _ _).trans hTallies.billed.counted, hSettled.1,
      hTallies.billed.numbers, hTallies.billed.instances⟩
  · show after.books.settle.net - after.held = 0
    rw [Books.net_settle hTallies.billed.counted]
    exact hTallies.net.trans h.net

/-- **Any orders** keep the accounts. -/
theorem Accounted.carryOutAll (h : s.Accounted) {orders : List Order}
    (hTracked : ∀ o ∈ orders, o.command.tracked = true) : (s.carryOutAll orders).Accounted := by
  induction orders generalizing s with
  | nil => exact h
  | cons o rest ih =>
    refine ih (h.carryOut (hTracked o List.mem_cons_self)).1 fun o' hMem => ?_
    exact hTracked o' (List.mem_cons_of_mem _ hMem)

theorem accounted_start (budget : Option Int) (byHost : Bool) :
    (start (some ⟨budget, 0, byHost⟩)).Accounted where
  rest := atRest_start _
  billed := ⟨rfl, List.forall_mem_nil _, .nil, (nomatch ·)⟩
  net := rfl
  owed := rfl

end Session

/-! ## Bytes in use -/

/-- The variable that a note is about, if it was made then. -/
def Note.madeVariable? : Note → Option String
  | .created name _ _ => some name
  | _ => none

/-- The names of the variables that were made. -/
def Books.madeVariables (b : Books) : List String := b.journal.filterMap Note.madeVariable?

theorem Books.nameBytes_eq (b : Books) :
    b.nameBytes = (b.madeVariables.map fun name => (20 + 2 * name.length : Int)).sum := by
  unfold nameBytes madeVariables
  induction b.journal with
  | nil => rfl
  | cons n rest ih =>
    rw [List.map_cons, List.sum_cons, ih]
    cases n with
    | created name offset size =>
      simp only [List.filterMap_cons, Note.madeVariable?, List.map_cons, List.sum_cons]
      show 16 + 4 + (name.length : Int) * 2 + _ = _
      omega
    | _ => exact Int.zero_add _

namespace Instance

/-- How many map entries were charged to an instance. -/
def chargedEntries (i : Instance) : Nat := (i.owner.map (·.entries)).getD 0

/-- How many characters of routines were charged to an instance. -/
def chargedCharacters (i : Instance) : Nat := (i.owner.map (·.characters)).getD 0

theorem Billed.records_le (h : i.Billed) : i.space.records.length ≤ i.chargedEntries := by
  obtain ⟨a, hOwner, hCovers⟩ := h.account
  unfold chargedEntries
  rw [hOwner]
  exact hCovers.entries

/-- **What is charged for an instance**, item by item. -/
theorem Billed.held_eq (h : i.Billed) :
    i.held = 85 + 32 * i.queries.length + 4 * i.space.store.size + 32 * i.chargedEntries
      + 4 * i.chargedCharacters + 32 * i.space.records.length + (20 + 4 * i.scratch.paidSlots) := by
  obtain ⟨a, hOwner, hBase, hSlots, -⟩ := h.account
  have hBytes := i.bytes_eq
  unfold chargedEntries chargedCharacters
  rw [held_of_owner hOwner, h.scratch.charged, hOwner]
  show a.base + a.slots * 4 + a.entries * 32 + a.characters * 4 +
    (16 + 4 + i.scratch.paidSlots * 4) + i.space.records.length * 32 =
      _ + 32 * (a.entries : Int) + 4 * (a.characters : Int) + _ + _
  omega

end Instance

theorem Session.Accounted.used_eq (h : s.Accounted) :
    s.books.used? = some (s.held + s.books.nameBytes) := by
  obtain ⟨l, hLedger⟩ := Option.isSome_iff_exists.mp h.billed.counted
  have hNet := h.net
  unfold Session.net Books.net at hNet
  rw [h.owed] at hNet
  unfold Books.used? at hNet ⊢
  rw [hLedger] at hNet ⊢
  simp only [Option.map_some, Option.getD_some, List.sum_nil] at hNet ⊢
  congr 1
  omega

/-- **The bytes in use are accounted for**, after any orders on one ledger: they are those charged
for the instances that are there, and those of the names of all variables that were ever made.  Of
the scratch slots those count that compiling has added, which are all of them unless there are
templates. Without instances only the names are left.

Whatever is ordered next, no charge that adds something leads beyond the budget, and a charge that
is refused changes nothing. -/
theorem bytes_in_use_are_accounted_for (budget : Option Int) (byHost : Bool) (orders : List Order)
    (hTracked : ∀ o ∈ orders, o.command.tracked = true) :
    let s := (Session.start (some ⟨budget, 0, byHost⟩)).carryOutAll orders
    let names := (s.books.madeVariables.map fun name => (20 + 2 * name.length : Int)).sum
    s.books.used? = some ((s.instances.map fun p =>
        (85 + 32 * p.2.queries.length + 4 * p.2.space.store.size + 32 * p.2.chargedEntries
          + 4 * p.2.chargedCharacters + 32 * p.2.space.records.length
          + (20 + 4 * p.2.scratch.paidSlots) : Int)).sum + names)
      ∧ (∀ p ∈ s.instances, p.2.depth = 0 ∧ p.2.space.records.length ≤ p.2.chargedEntries
          ∧ p.2.scratch.paidSlots ≤ p.2.scratch.buffer.size
          ∧ (p.2.Templateless → p.2.scratch.paidSlots = p.2.scratch.buffer.size))
      ∧ (s.instances = [] → s.books.used? = some names)
      ∧ (∀ o : Order, o.command.tracked = true → ∃ notes l l', s.books.ledger = some l
          ∧ (s.carryOut o).books.ledger = some l'
          ∧ (s.carryOut o).books.journal = s.books.journal ++ notes
          ∧ Charges l'.budget l.used notes l'.used)
      ∧ (∀ bytes, Atomic (Books.charge bytes)) ∧ (∀ expense, Atomic (Tenant.chargeOwner expense))
      ∧ Atomic ScratchRoom.establish ∧ (∀ slots, Atomic (ScratchRoom.ensure slots))
      ∧ (∀ slots depth, Atomic (ScratchRoom.acquire slots depth))
      ∧ (∀ name item size, Atomic (Registry.track name item size))
      ∧ ∀ name delta, Atomic (Registry.change name delta) := by
  intro s names
  have hAccounted : s.Accounted := (Session.accounted_start budget byHost).carryOutAll hTracked
  have hBilled {p : Nat × Instance} (hp : p ∈ s.instances) : p.2.Billed :=
    hAccounted.billed.instances (Session.mem_instances hAccounted.billed.numbers hp)
  have hNames : s.books.nameBytes = names := s.books.nameBytes_eq
  have hUsed := hAccounted.used_eq
  rw [hNames] at hUsed
  refine ⟨?_, fun p hp => ⟨?_, (hBilled hp).records_le, (hBilled hp).scratch.paid,
    (hBilled hp).scratch.exact⟩, fun hNone => ?_,
    fun o hOrder => (hAccounted.carryOut hOrder).2, Books.charge_atomic, Tenant.chargeOwner_atomic,
    ScratchRoom.establish_atomic, ScratchRoom.ensure_atomic, ScratchRoom.acquire_atomic,
    Registry.track_atomic, Registry.change_atomic⟩
  · rw [hUsed]
    unfold Session.held
    rw [List.map_congr_left fun p hp => (hBilled hp).held_eq]
  · exact hAccounted.rest.idle (Session.mem_instances hAccounted.billed.numbers hp)
  · have hHeld : s.held = 0 := by
      unfold Session.held
      rw [hNone]
      rfl
    rw [hUsed, hHeld, Int.zero_add]

/-- An order with a host function that evaluates another artifact. -/
def Order.own (command : Command) : Order := ⟨.callBack, 2, command⟩

/-- A routine calls a host function that evaluates another one.  Then a variable is made, and for a
second one the budget suffices up to its map entry. -/
def outOfBudget : List Order :=
  [.own (.create "a" ⟨some [("q.f", .host "f" 1 1)], false, [], true, false⟩),
    .own (.task "a" (.compile ⟨"7", [], []⟩)), .own (.task "a" (.compile ⟨"q.f(0)", [], []⟩)),
    .own (.task "a" (.evaluate 1 [])), .own (.task "a" (.declare "x" 1)), .own (.setSlack 40),
    .own (.task "a" (.declare "y" 1))]

open Session in
/-- The map entry of the variable that could not be made stays charged, and is accounted for. -/
theorem refused_variable_is_accounted_for :
    (∀ o ∈ outOfBudget, o.command.tracked = true) ∧
      let s := (start (some ⟨none, 0, false⟩)).carryOutAll outOfBudget
      s.instances.map (fun p => (p.2.chargedEntries, p.2.space.records.length)) = [(2, 1)] ∧
        s.books.used? = some 1147 ∧
        s.books.used? = some ((s.instances.map fun p =>
          (85 + 32 * p.2.queries.length + 4 * p.2.space.store.size + 32 * p.2.chargedEntries
            + 4 * p.2.chargedCharacters + 32 * p.2.space.records.length
            + (20 + 4 * p.2.scratch.paidSlots) : Int)).sum +
          (s.books.madeVariables.map fun name => (20 + 2 * name.length : Int)).sum) := by
  have hTracked : ∀ o ∈ outOfBudget, o.command.tracked = true := by decide
  have hValues : (fun s : Session =>
      (s.instances.map fun p => (p.2.chargedEntries, p.2.space.records.length), s.books.used?))
        ((start (some ⟨none, 0, false⟩)).carryOutAll outOfBudget) = ([(2, 1)], some 1147) := by
    decide +kernel
  exact ⟨hTracked, (Prod.mk.inj hValues).1, (Prod.mk.inj hValues).2,
    (bytes_in_use_are_accounted_for none false outOfBudget hTracked).1⟩

/-- A template that puts its arguments side by side is used on two variables of two slots each. -/
def pairedVariables : List Order :=
  [.own (.create "a" ⟨some [("q.m", .template none none (.vector [.argument 0, .argument 1]))],
      false, [], true, false⟩),
    .own (.task "a" (.set "a" [1, 2])), .own (.task "a" (.set "b" [3, 4])),
    .own (.task "a" (.compile ⟨"q.m(v.a,v.b)", [], []⟩)), .own (.task "a" (.evaluate 0 []))]

open Session in
/-- **A buffer that a routine lengthens is not paid for**: the bytes in use are not those of all
slots that it has. -/
theorem lengthened_buffer_is_not_paid_for :
    (∀ o ∈ pairedVariables, o.command.tracked = true) ∧
      let s := (start (some ⟨none, 0, false⟩)).carryOutAll pairedVariables
      s.books.used? = some 909 ∧ s.books.used? ≠ some ((s.instances.map fun p =>
          (85 + 32 * p.2.queries.length + 4 * p.2.space.store.size + 32 * p.2.chargedEntries
            + 4 * p.2.chargedCharacters + 32 * p.2.space.records.length
            + (20 + 4 * p.2.scratch.buffer.size) : Int)).sum +
          (s.books.madeVariables.map fun name => (20 + 2 * name.length : Int)).sum) :=
  ⟨by decide, by decide +kernel, by decide +kernel⟩

end MolangCompiler
