import MolangCompiler.Proofs.Balance

/-!
# Charges within the budget

`Charges` says that notes account for a change of the bytes in use: each says what was charged or
refunded and what is in use after it, and a charge that adds something does not lead beyond the
budget.  All bookkeeping is of that kind (`Books.charged_bookkeeping`).
-/

namespace MolangCompiler

/-! ## Notes on charges -/

/-- Notes lead from one number of bytes in use to another, within a budget. -/
inductive Charges (budget : Option Int) : Int → List Note → Int → Prop where
  | nil {used : Int} : Charges budget used [] used
  | charged {used bytes last : Int} {notes : List Note}
      (hFits : 0 < bytes → ∀ limit, budget = some limit → used + bytes ≤ limit) :
      Charges budget (used + bytes) notes last →
        Charges budget used (.charged bytes (used + bytes) :: notes) last
  | other {used last : Int} {n : Note} {notes : List Note} (hOther : n.isCharge = false) :
      Charges budget used notes last → Charges budget used (n :: notes) last

theorem Charges.append {budget : Option Int} {first middle last : Int} {notes more : List Note}
    (h : Charges budget first notes middle) (hMore : Charges budget middle more last) :
    Charges budget first (notes ++ more) last := by
  induction h with
  | nil => exact hMore
  | charged hFits _ ih => exact .charged hFits (ih hMore)
  | other hOther _ ih => exact .other hOther (ih hMore)

variable {b : Books} {bytes : Int}

namespace Books

/-- The journal gets longer, and its new notes account for the bytes in use. -/
def Charged (b b' : Books) : Prop :=
  ∃ notes, b'.journal = b.journal ++ notes ∧ ∀ l, b.ledger = some l →
    ∃ l', b'.ledger = some l' ∧ l'.budget = l.budget ∧ Charges l.budget l.used notes l'.used

namespace Charged

theorem of_same {b' : Books} (hJournal : b'.journal = b.journal) (hLedger : b'.ledger = b.ledger) :
    b.Charged b' :=
  ⟨[], by rw [hJournal, List.append_nil], fun l hl => ⟨l, hLedger.trans hl, rfl, .nil⟩⟩

theorem refl (b : Books) : b.Charged b := of_same rfl rfl

theorem trans {b₁ b₂ b₃ : Books} (h : b₁.Charged b₂) (h' : b₂.Charged b₃) : b₁.Charged b₃ := by
  obtain ⟨notes, hJournal, hCharges⟩ := h
  obtain ⟨more, hJournal', hCharges'⟩ := h'
  refine ⟨notes ++ more, by rw [hJournal', hJournal, List.append_assoc], fun l hl => ?_⟩
  obtain ⟨l₂, hl₂, hBudget, hFirst⟩ := hCharges l hl
  obtain ⟨l₃, hl₃, hBudget', hSecond⟩ := hCharges' l₂ hl₂
  rw [hBudget] at hSecond
  exact ⟨l₃, hl₃, hBudget'.trans hBudget, hFirst.append hSecond⟩

theorem enter (hFits : ∀ l, b.ledger = some l → 0 < bytes → ∀ limit, l.budget = some limit →
      l.used + bytes ≤ limit) : b.Charged (b.enter bytes) := by
  cases hLedger : b.ledger with
  | none =>
    have hSame : b.enter bytes = b := by
      unfold Books.enter
      rw [hLedger]
    rw [hSame]
    exact refl b
  | some l =>
    have hEntered : b.enter bytes = note (.charged bytes (l.used + bytes))
        { b with ledger := some { l with used := l.used + bytes } } := by
      unfold Books.enter
      rw [hLedger]
    rw [hEntered]
    refine ⟨_, rfl, fun l' hl' => ⟨_, rfl, ?_⟩⟩
    cases hLedger.symm.trans hl'
    exact ⟨rfl, .charged (hFits l hLedger) .nil⟩

theorem refund (h : 0 ≤ bytes) : b.Charged (b.enter (-bytes)) :=
  enter fun _ _ hPositive => absurd hPositive (by omega)

theorem refundAll {charges : List Int} (h : ∀ x ∈ charges, 0 ≤ x) (b : Books) :
    b.Charged (refundAll charges b) := by
  induction charges generalizing b with
  | nil => exact refl b
  | cons bytes rest ih =>
    refine trans (refund (h bytes List.mem_cons_self)) (ih (fun x hx => ?_) _)
    exact h x (List.mem_cons_of_mem _ hx)

end Charged

/-- Charges within the budget; all debts are of bytes that were charged. -/
def charged : Course Books where
  ok b := ∀ x ∈ b.owed, 0 ≤ x
  le := Charged
  refl := .refl
  trans h h' := h.trans h'

theorem fits_of_no_refusal {l : Ledger} (h : l.refusal? bytes = none) (hPositive : 0 < bytes)
    {limit : Int} (hBudget : l.budget = some limit) :
    l.used + bytes ≤ limit := by
  unfold Ledger.refusal? at h
  rw [hBudget] at h
  dsimp only at h
  split at h
  · cases h
  · omega

/-- **Bookkeeping** makes charges within the budget. -/
theorem charged_bookkeeping : Bookkeeping charged where
  charge bytes b hOk := by
    cases hCharge : charge bytes b with
    | error e b' =>
      rw [eq_of_charge_error hCharge]
      exact .error ⟨hOk, .refl b⟩
    | ok _ b' =>
      rw [eq_enter_of_charge hCharge]
      refine .ok ⟨fun x hx => hOk x (owed_enter bytes b ▸ hx), .enter fun l hl => ?_, trivial⟩
      have hNone : l.refusal? bytes = none := by
        unfold charge at hCharge
        rw [hl] at hCharge
        split at hCharge
        · cases hCharge
        · assumption
      exact fun hPositive limit hBudget => fits_of_no_refusal hNone hPositive hBudget
  note n hOther b hOk :=
    ⟨hOk, [n], rfl, fun l hl => ⟨l, hl, rfl, .other hOther .nil⟩⟩
  owe bytes hBytes b hOk := by
    exact ⟨List.forall_mem_append.mpr ⟨hOk, List.forall_mem_singleton.mpr hBytes⟩, .of_same rfl rfl⟩

theorem charged_settle (hOk : charged.ok b) : charged.ok b.settle ∧ b.Charged b.settle := by
  refine ⟨fun x hx => ?_, ?_⟩
  · rw [owed_settle] at hx
    cases hx
  · exact .trans (.of_same rfl rfl) (.refundAll hOk { b with owed := [] })

end Books

/-! ## Buffers and instances -/

section

variable {c : Course Books} (k : Bookkeeping c)
include k

theorem ScratchRoom.acquire_books (slots : Nat) (depth : Int) (r : ScratchRoom) :
    Stays (c.on books) (acquire slots depth) r := by
  unfold acquire
  cases Reentrancy.ofDepth depth with
  | idle | oneActive => exact .pure trivial
  | multipleActive => exact .bind_pure (charge_books k _ r)

theorem ScratchRoom.establish_books (r : ScratchRoom) : Stays (c.on books) establish r := by
  refine .get_bind ?_
  split
  · exact .bind (charge_books k _ r) fun _ r' _ _ _ => .modify_same rfl
  · exact .pure trivial

theorem Workshop.establish_books {w : Workshop} (hBytes : 0 ≤ w.inst.bytes) :
    Stays (c.on books) establish w := by
  intro hOk
  unfold establish
  split
  · exact .ok ⟨hOk, c.refl _, trivial⟩
  have hCharge := k.charge w.inst.bytes w.books hOk
  generalize Books.charge w.inst.bytes w.books = out at hCharge ⊢
  cases hCharge with
  | error hEnd => exact .error hEnd
  | @ok _ b hEnd =>
    have hScratch := ScratchRoom.establish_books k ⟨b, w.inst.scratch⟩ hEnd.1
    dsimp only [onScratch, onPart]
    generalize ScratchRoom.establish ⟨b, w.inst.scratch⟩ = out at hScratch ⊢
    cases hScratch with
    | ok hLast => exact .ok ⟨hLast.1, c.trans hEnd.2.1 hLast.2.1, trivial⟩
    | error hLast =>
      have hOwe := k.owe w.inst.bytes hBytes _ hLast.1
      exact .error ⟨hOwe.1, c.trans hEnd.2.1 (c.trans hLast.2 hOwe.2)⟩

end

theorem ScratchRoom.charged_release (failed : Bool) {loan : Loan} (h : 0 ≤ loan.bytes)
    {r : ScratchRoom} (hOk : Books.charged.ok r.books) :
    Books.charged.ok (r.release failed loan).books ∧
      r.books.Charged (r.release failed loan).books := by
  cases loan with
  | shared => exact ⟨hOk, .refl _⟩
  | own buffer bytes =>
    dsimp only [release]
    split
    · exact Books.charged_bookkeeping.owe bytes h r.books hOk
    · exact ⟨fun x hx => hOk x (Books.owed_enter _ _ ▸ hx), .refund h⟩

end MolangCompiler
