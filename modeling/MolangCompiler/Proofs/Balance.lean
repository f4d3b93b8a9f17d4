import Mathlib.Algebra.Order.Ring.Int
import MolangCompiler.Proofs.Bookkeeping
import MolangCompiler.Proofs.Compiling

/-!
# The balance of the books

`net` is what is left of the bytes in use when everything is taken away that something was charged
for: instances, variables, scratch buffers, names, and what is owed back.  Single charges change it,
but an operation as a whole does not, whether it succeeds or fails: what was charged for something
that a failure left without an owner is owed.

Slots of a scratch buffer are paid for when a routine needs them, so there are never more of them
than slots in the buffer, and just as many on an instance whose routines keep to their room.
-/

namespace MolangCompiler

open Ends

open Books

/-! ## Books -/

/-- Bytes of the name of a variable that a note says was made. -/
def Note.nameBytes : Note → Int
  | .created name _ _ => textBytes name
  | _ => 0

variable {b : Books} {a : Account} {t : Tenant}

namespace Books

/-- Bytes of the names of all variables that were made. -/
def nameBytes (b : Books) : Int := (b.journal.map Note.nameBytes).sum

/-- Bytes in use that are neither owed back nor those of names. -/
def net (b : Books) : Int := b.used?.getD 0 - b.owed.sum - b.nameBytes

theorem net_note (n : Note) (b : Books) : (b.note n).net = b.net - n.nameBytes := by
  have hNames : (b.note n).nameBytes = b.nameBytes + n.nameBytes := by
    unfold nameBytes note
    rw [List.map_append, List.sum_append, List.map_singleton, List.sum_singleton]
  show b.used?.getD 0 - b.owed.sum - (b.note n).nameBytes = _
  unfold net
  omega

theorem net_owe (bytes : Int) (b : Books) : (b.owe bytes).net = b.net - bytes := by
  show b.used?.getD 0 - (b.owed ++ [bytes]).sum - b.nameBytes = _
  rw [List.sum_append, List.sum_singleton]
  unfold net
  omega

@[simp]
theorem isSome_enter (bytes : Int) (b : Books) :
    (b.enter bytes).ledger.isSome = b.ledger.isSome := by
  unfold enter
  split
  · rfl
  · rename_i hLedger
    rw [hLedger]
    rfl

theorem net_enter (hCounted : b.ledger.isSome = true) (bytes : Int) :
    (b.enter bytes).net = b.net + bytes := by
  obtain ⟨l, hLedger⟩ := Option.isSome_iff_exists.mp hCounted
  unfold enter
  rw [hLedger]
  rw [net_note]
  show l.used + bytes - b.owed.sum - b.nameBytes - 0 = _
  unfold net used?
  rw [hLedger]
  show _ = l.used - b.owed.sum - b.nameBytes + bytes
  omega

theorem net_refundAll (charges : List Int) (hCounted : b.ledger.isSome = true) :
    (refundAll charges b).net = b.net - charges.sum := by
  induction charges generalizing b with
  | nil => simp [refundAll]
  | cons bytes rest ih =>
    show (refundAll rest (b.enter (-bytes))).net = _
    rw [ih ((isSome_enter _ b).trans hCounted), net_enter hCounted, List.sum_cons]
    omega

@[simp]
theorem isSome_refundAll (charges : List Int) (b : Books) :
    (refundAll charges b).ledger.isSome = b.ledger.isSome := by
  induction charges generalizing b with
  | nil => rfl
  | cons bytes rest ih => exact (ih _).trans (isSome_enter _ b)

theorem net_settle (hCounted : b.ledger.isSome = true) : b.settle.net = b.net := by
  unfold settle
  rw [net_refundAll _ (b := { b with owed := [] }) hCounted]
  show b.used?.getD 0 - ([] : List Int).sum - b.nameBytes - b.owed.sum = b.net
  rw [List.sum_nil]
  unfold net
  omega

theorem owed_enter (bytes : Int) (b : Books) : (b.enter bytes).owed = b.owed := by
  unfold enter
  split <;> rfl

theorem owed_refundAll (charges : List Int) (b : Books) : (refundAll charges b).owed = b.owed := by
  induction charges generalizing b with
  | nil => rfl
  | cons bytes rest ih => exact (ih _).trans (owed_enter _ b)

theorem owed_settle (b : Books) : b.settle.owed = [] := owed_refundAll b.owed { b with owed := [] }

theorem charge_ends (bytes : Int) (b : Books) :
    Ends (fun _ b' => b' = b.enter bytes) (fun b' => b' = b) (charge bytes b) := by
  cases hCharge : charge bytes b with
  | ok _ b' => exact .ok (eq_enter_of_charge hCharge)
  | error e b' => exact .error (eq_of_charge_error hCharge)

end Books

/-! ## Variables -/

/-- An account of an owner covers its variables: all slots of the store were paid for, and an entry
for every record.  Entries that were paid for before a failure count as well. -/
structure Account.Covers (a : Account) (base : Int) (space : Namespace) : Prop where
  base : a.base = base
  slots : a.slots = space.store.size
  entries : space.records.length ≤ a.entries

theorem Account.Covers.add {base : Int} {space : Namespace} (h : a.Covers base space)
    {expense : Expense} (hOther : (a.add expense).slots = a.slots) :
    (a.add expense).Covers base space where
  base := by cases expense <;> exact h.base
  slots := hOther.trans h.slots
  entries := by
    cases expense with
    | slots | code => exact h.entries
    | entry => exact Nat.le_succ_of_le h.entries

namespace Tenant

theorem charge_ends (bytes : Int) (t : Tenant) :
    Ends (fun _ t' => t' = { t with books := t.books.enter bytes }) (fun t' => t' = t)
      (charge bytes t) := by
  refine onPart_ends (mono (Books.charge_ends bytes t.books) ?_ ?_)
  · rintro _ b rfl
    rfl
  · rintro b rfl
    rfl

theorem chargeOwner_ends (expense : Expense) (t : Tenant) :
    Ends (fun _ t' => t' = { t with
        books := if t.owner.isSome then t.books.enter expense.bytes else t.books
        owner := t.owner.map (·.add expense) }) (fun t' => t' = t) (chargeOwner expense t) := by
  unfold chargeOwner
  rw [get_bind]
  obtain ⟨books, owner, space⟩ := t
  cases owner with
  | none => exact .ok rfl
  | some a =>
    refine bind (charge_ends expense.bytes ⟨books, some a, space⟩) ?_
    rintro _ t' rfl
    exact .ok rfl

/-- Bytes are counted, and the account of the owner covers the variables. -/
structure Billed (base : Int) (t : Tenant) : Prop where
  counted : t.books.ledger.isSome = true
  account : ∃ a, t.owner = some a ∧ a.Covers base t.space

/-- Bytes charged for an owner and for variable records. -/
def held (t : Tenant) : Int :=
  (t.owner.map (·.bytes)).getD 0 + t.space.records.length * recordBytes

def net (t : Tenant) : Int := t.books.net - t.held

theorem net_of_owner (h : t.owner = some a) :
    t.net = t.books.net - a.bytes - t.space.records.length * recordBytes := by
  unfold net held
  rw [h]
  show _ - (a.bytes + _) = _
  omega

def balance (base : Int) : Course Tenant where
  ok := Billed base
  le t t' := t'.net = t.net
  refl _ := rfl
  trans h h' := h'.trans h

variable {base : Int}

theorem chargeOwner_balances {expense : Expense}
    (hOther : ∀ a : Account, (a.add expense).slots = a.slots) (t : Tenant) :
    Keeps (balance base) (fun _ t' => t'.space = t.space ∧ t'.owner = t.owner.map (·.add expense))
      (chargeOwner expense) t := by
  intro hBilled
  obtain ⟨a, hOwner, hCovers⟩ := hBilled.account
  refine mono (chargeOwner_ends expense t) ?_ ?_
  · rintro _ t' rfl
    rw [hOwner]
    refine ⟨⟨?_, a.add expense, rfl, hCovers.add (hOther a)⟩, ?_, rfl, rfl⟩
    · exact (isSome_enter _ _).trans hBilled.counted
    · show net ⟨t.books.enter expense.bytes, some (a.add expense), t.space⟩ = t.net
      rw [net_of_owner hOwner, net_of_owner rfl, net_enter hBilled.counted, Account.bytes_add]
      show _ - _ - t.space.records.length * recordBytes = _
      omega
  · rintro t' rfl
    exact ⟨hBilled, rfl⟩

/-- **Further slots of the store** are paid for. -/
theorem growStore_balances (slots : Nat) (t : Tenant) :
    Keeps (balance base) (fun _ t' => t'.space.records = t.space.records) (growStore slots) t := by
  intro hBilled
  obtain ⟨a, hOwner, hCovers⟩ := hBilled.account
  unfold growStore
  rw [get_bind]
  generalize slots - t.space.store.size = missing
  have hPaid : Ends (fun _ t' => t' =
        ⟨t.books.enter (Expense.slots missing).bytes, some (a.add (.slots missing)), t.space⟩)
      (fun t' => t'.Billed base ∧ t'.net = t.net) (chargeOwner (.slots missing) t) := by
    refine mono (chargeOwner_ends (.slots missing) t) ?_ ?_
    · rintro _ t' rfl
      rw [hOwner]
      rfl
    · rintro t' rfl
      exact ⟨hBilled, rfl⟩
  refine bind hPaid ?_
  rintro _ t' rfl
  refine .ok ⟨⟨?_, _, rfl, hCovers.base, ?_, hCovers.entries⟩, ?_, rfl⟩
  · exact (isSome_enter _ _).trans hBilled.counted
  · show a.slots + missing = (t.space.store ++ Array.replicate missing 0).size
    rw [Array.size_append, Array.size_replicate, hCovers.slots]
  · show net ⟨(t.books.enter _).note (.grewStore _), some (a.add (.slots missing)), _⟩ = t.net
    rw [net_of_owner hOwner, net_of_owner rfl, net_note, net_enter hBilled.counted,
      Account.bytes_add]
    show _ - 0 - _ - t.space.records.length * recordBytes = _
    omega

/-- A record and its name are charged together, or the record is owed back.  The map entry is
charged first, and stays charged. -/
theorem chargeRecord_ends (name : String) (hBilled : t.Billed base) :
    Ends (fun _ t' => t'.Billed base ∧ t'.space = t.space ∧ t'.owner = t.owner.map (·.add .entry) ∧
        t'.net = t.net + recordBytes + textBytes name)
      (fun t' => t'.Billed base ∧ t'.net = t.net) (chargeRecord name t) := by
  have hCharge (bytes : Int) {t' : Tenant} (h : t'.Billed base) :
      Ends (fun _ t'' => t''.Billed base ∧ t''.space = t'.space ∧ t''.owner = t'.owner ∧
          t''.net = t'.net + bytes)
        (fun t'' => t'' = t') (charge bytes t') := by
    refine mono (charge_ends bytes t') ?_ fun _ hSame => hSame
    rintro _ t'' rfl
    refine ⟨⟨(isSome_enter _ _).trans h.counted, h.account⟩, rfl, rfl, ?_⟩
    show (t'.books.enter bytes).net - t'.held = t'.books.net - t'.held + bytes
    rw [net_enter h.counted]
    omega
  have hBoth : Ends (fun _ t' => t'.Billed base ∧ t'.space = t.space ∧
        t'.owner = t.owner.map (·.add .entry) ∧ t'.net = t.net + recordBytes)
      (fun t' => t'.Billed base ∧ t'.net = t.net)
      ((chargeOwner .entry >>= fun _ => charge recordBytes) t) := by
    refine bind (chargeOwner_balances (fun _ => rfl) t hBilled) ?_
    rintro _ t' ⟨hOk, hNet, hSpace, hOwner⟩
    refine mono (hCharge _ hOk) ?_ ?_
    · rintro _ t'' ⟨hOk', hSpace', hOwner', hNet'⟩
      refine ⟨hOk', hSpace'.trans hSpace, hOwner'.trans hOwner, ?_⟩
      rw [hNet', hNet]
    · rintro t'' rfl
      exact ⟨hOk, hNet⟩
  refine chargeRecord_ends_of hBoth ?_
  rintro t' ⟨hOk, hSpace, hOwner, hNet⟩
  refine mono (hCharge (textBytes name) hOk) ?_ ?_
  · rintro _ t'' ⟨hOk', hSpace', hOwner', hNet'⟩
    refine ⟨hOk', hSpace'.trans hSpace, hOwner'.trans hOwner, ?_⟩
    rw [hNet', hNet]
  · rintro t'' rfl
    refine ⟨⟨hOk.counted, hOk.account⟩, ?_⟩
    show (t''.books.owe recordBytes).net - t''.held = t.net
    rw [net_owe]
    unfold net at hNet ⊢
    omega

/-- **Publishing a variable** keeps the balance: its record is held and its name stays charged. -/
theorem publish_balances (v : Variable) (t : Tenant) : Stays (balance base) (publish v) t := by
  refine .get_bind fun hBilled => ?_
  rw [if_pos hBilled.counted]
  obtain ⟨a, hOwner, hCovers⟩ := hBilled.account
  refine bind (chargeRecord_ends v.name hBilled) ?_
  rintro _ t₁ ⟨hOk, hSpace, hOwner', hNet⟩
  rw [hOwner] at hOwner'
  refine .ok ⟨⟨hOk.counted, a.add .entry, hOwner', hCovers.base, ?_, ?_⟩, ?_, trivial⟩
  · show a.slots = t₁.space.store.size
    rw [hSpace]
    exact hCovers.slots
  · show (t₁.space.records ++ [v]).length ≤ a.entries + 1
    rw [hSpace, List.length_append]
    exact Nat.succ_le_succ hCovers.entries
  show (t₁.books.note (.created v.name v.offset v.size)).net -
    ((t₁.owner.map (·.bytes)).getD 0 + ((t₁.space.records ++ [v]).length : Nat) * recordBytes) = _
  rw [net_note, List.length_append, List.length_singleton]
  unfold net held at hNet ⊢
  show _ - textBytes v.name - _ = _
  push_cast
  rw [Int.add_mul, Int.one_mul]
  omega

theorem makeRoom_balances (stop : Nat) (t : Tenant) : Stays (balance base) (makeRoom stop) t := by
  refine .get_bind ?_
  split
  · exact .forget (growStore_balances _ t)
  · exact .pure trivial

/-- **Obtaining a variable** keeps the balance. -/
theorem obtain_balances (name : String) (size : Int) (t : Tenant) :
    Stays (balance base) (Tenant.obtain name size) t :=
  obtain_course makeRoom_balances publish_balances name size t

theorem setValues_balances (name : String) (vs : List Float) (t : Tenant) :
    Stays (balance base) (setValues name vs) t := by
  refine setValues_course (fun _ _ => trivial) (fun _ => obtain_balances _ _ t) ?_
  intro v t' _ _ hBilled
  obtain ⟨hRecords, hSize, -⟩ := t'.space.write_eq v.offset vs
  constructor
  · obtain ⟨a, hOwner, hCovers⟩ := hBilled.account
    refine ⟨hBilled.counted, a, hOwner, hCovers.base, hCovers.slots.trans hSize.symm, ?_⟩
    rw [hRecords]
    exact hCovers.entries
  · show t'.books.net - (_ + ((t'.space.write v.offset vs).records.length : Nat) * _) = _
    rw [hRecords]
    rfl

end Tenant

/-! ## Scratch space -/

private theorem bufferBytes_add (slots more : Nat) :
    bufferBytes (slots + more) = bufferBytes slots + more * wordBytes := by
  unfold bufferBytes arrayBytes
  push_cast
  rw [Int.add_mul]
  omega

theorem bufferBytes_nonneg (slots : Nat) : 0 ≤ bufferBytes slots := by
  unfold bufferBytes arrayBytes objectBytes wordBytes
  omega

namespace Scratch

/-- How many slots of a scratch buffer were paid for. -/
def paidSlots (s : Scratch) : Nat := ((s.charged.getD 0 - bufferBytes 0) / wordBytes).toNat

/-- A scratch buffer has the slots that were paid for, and no others if it is exact. -/
structure Billed (exact : Prop) (s : Scratch) : Prop where
  charged : s.charged = some (bufferBytes s.paidSlots)
  paid : s.paidSlots ≤ s.buffer.size
  exact : exact → s.paidSlots = s.buffer.size

theorem Billed.of_charged {exact : Prop} {s : Scratch} (slots : Nat)
    (hCharged : s.charged = some (bufferBytes slots)) (hPaid : slots ≤ s.buffer.size)
    (hExact : exact → slots = s.buffer.size) : s.Billed exact := by
  have hSlots : s.paidSlots = slots := by
    unfold paidSlots
    rw [hCharged]
    show ((bufferBytes slots - bufferBytes 0) / wordBytes).toNat = slots
    unfold bufferBytes arrayBytes wordBytes
    omega
  exact ⟨hSlots ▸ hCharged, hSlots ▸ hPaid, hSlots ▸ hExact⟩

end Scratch

def Loan.bytes : Loan → Int
  | shared => 0
  | own _ charged => charged

namespace ScratchRoom

theorem charge_ends (bytes : Int) (r : ScratchRoom) :
    Ends (fun _ r' => r' = { r with books := r.books.enter bytes }) (fun r' => r' = r)
      (charge bytes r) := by
  refine onPart_ends (mono (Books.charge_ends bytes r.books) ?_ ?_)
  · rintro _ b rfl
    rfl
  · rintro b rfl
    rfl

def net (r : ScratchRoom) : Int := r.books.net - r.scratch.charged.getD 0

def balance (exact : Prop) : Course ScratchRoom where
  ok r := r.books.ledger.isSome = true ∧ r.scratch.Billed exact
  le r r' := r'.net = r.net
  refl _ := rfl
  trans h h' := h'.trans h

variable {r : ScratchRoom}

theorem establish_ends (hCounted : r.books.ledger.isSome = true) :
    Ends (fun _ r' => r' = ⟨r.books.enter (bufferBytes 0),
        { r.scratch with charged := some (bufferBytes 0) }⟩) (fun r' => r' = r) (establish r) := by
  unfold establish
  rw [get_bind, if_pos hCounted]
  refine bind (charge_ends _ r) ?_
  rintro _ r' rfl
  exact .ok rfl

/-- **Making room** lengthens the buffer by as much as is paid for, or it is refused and changes
nothing. -/
theorem ensure_ends (slots : Int) (r : ScratchRoom) :
    Ends (fun _ r' => r' = r ∨ ∃ (missing : Nat) (n : Note), n.nameBytes = 0 ∧
        r' = ⟨(if r.scratch.charged.isSome then r.books.enter (missing * wordBytes)
            else r.books).note n,
          ⟨r.scratch.buffer ++ Array.replicate missing 0,
            r.scratch.charged.map (· + missing * wordBytes)⟩⟩)
      (fun r' => r' = r) (ensure slots r) := by
  have hGet : (get : Act ScratchRoom ScratchRoom) r = .ok r r := rfl
  unfold ensure
  rw [bind_of_ok hGet]
  generalize (slots - r.scratch.buffer.size).toNat = missing
  by_cases hMissing : 0 < missing
  · rw [if_pos hMissing, bind_of_ok hGet]
    by_cases hCharged : r.scratch.charged.isSome = true
    · rw [if_pos hCharged]
      refine bind (charge_ends _ r) ?_
      rintro _ r' rfl
      refine .ok
        (.inr ⟨missing, .grewScratch (r.scratch.buffer ++ .replicate missing 0).size, rfl, ?_⟩)
      rw [if_pos hCharged]
    · rw [if_neg hCharged]
      refine .ok
        (.inr ⟨missing, .grewScratch (r.scratch.buffer ++ .replicate missing 0).size, rfl, ?_⟩)
      rw [if_neg hCharged]
  · rw [if_neg hMissing]
    exact .ok (.inl rfl)

theorem ensure_balances {exact : Prop} (slots : Int) (r : ScratchRoom) :
    Stays (balance exact) (ensure slots) r := by
  rintro ⟨hCounted, hBilled⟩
  refine mono (ensure_ends slots r) ?_ ?_
  · rintro _ r' (rfl | ⟨missing, n, hNote, rfl⟩)
    · exact ⟨⟨hCounted, hBilled⟩, rfl, trivial⟩
    · have hCharged := hBilled.charged
      rw [hCharged]
      refine ⟨⟨(isSome_enter _ _).trans hCounted, ?_⟩, ?_, trivial⟩
      · refine .of_charged (r.scratch.paidSlots + missing) ?_ ?_ fun hExact => ?_
        · rw [bufferBytes_add]
          rfl
        · have hPaid := hBilled.paid
          rw [Array.size_append, Array.size_replicate]
          omega
        · show _ = (r.scratch.buffer ++ Array.replicate missing 0).size
          rw [Array.size_append, Array.size_replicate, hBilled.exact hExact]
      · show ((r.books.enter (missing * wordBytes)).note n).net -
          (bufferBytes r.scratch.paidSlots + missing * wordBytes) = _
        rw [net_note, net_enter hCounted, hNote]
        unfold net
        rw [hCharged]
        show _ = _ - bufferBytes r.scratch.paidSlots
        omega
  · rintro r' rfl
    exact ⟨⟨hCounted, hBilled⟩, rfl⟩

/-- **A buffer that is lent** is charged, unless it is the shared one; or it is refused and nothing
changes. -/
theorem acquire_ends (slots : Nat) (depth : Int) (hCounted : r.books.ledger.isSome = true) :
    Ends (fun loan r' => r' = { r with books := r'.books } ∧ r'.books.ledger.isSome = true ∧
        r'.books.net = r.books.net + loan.bytes ∧ 0 ≤ loan.bytes)
      (fun r' => r' = r) (acquire slots depth r) := by
  unfold acquire
  cases Reentrancy.ofDepth depth with
  | idle | oneActive => exact .ok ⟨rfl, hCounted, (Int.add_zero _).symm, Int.le_refl _⟩
  | multipleActive =>
    refine bind (charge_ends _ r) ?_
    rintro _ r' rfl
    exact .ok ⟨rfl, (isSome_enter _ _).trans hCounted, net_enter hCounted _,
      bufferBytes_nonneg slots⟩

theorem net_release (failed : Bool) (loan : Loan) (hCounted : r.books.ledger.isSome = true) :
    (r.release failed loan).books.net = r.books.net - loan.bytes := by
  cases loan with
  | shared => exact (Int.sub_zero _).symm
  | own buffer charged =>
    unfold release
    rw [hCounted]
    cases failed with
    | false => exact net_enter hCounted _
    | true => exact net_owe _ _

end ScratchRoom

/-! ## Instances -/

namespace Instance

/-- The account of an instance holds the instance itself and covers its variables, and its scratch
buffer is paid for. -/
structure Billed (i : Instance) : Prop where
  account : ∃ a, i.owner = some a ∧ a.Covers i.bytes i.space
  scratch : i.scratch.Billed i.Templateless

/-- Bytes charged for an instance and all that goes with it. -/
def held (i : Instance) : Int := i.refund.sum + i.recordRefund.sum

theorem sum_toList (x : Option Int) : x.toList.sum = x.getD 0 := by
  cases x <;> simp

theorem held_of_owner {i : Instance} (h : i.owner = some a) :
    i.held = a.bytes + i.scratch.charged.getD 0 + i.space.records.length * recordBytes := by
  have hRecords : i.recordRefund.sum = i.space.records.length * recordBytes := by
    unfold recordRefund
    rw [h, Option.isSome_some, if_pos rfl]
    induction i.space.records with
    | nil => simp
    | cons v rest ih =>
      rw [List.map_cons, List.sum_cons, ih, List.length_cons]
      push_cast
      rw [Int.add_mul]
      omega
  unfold held refund
  rw [hRecords, List.sum_append, sum_toList, sum_toList, h]
  rfl

end Instance

namespace Workshop

def net (w : Workshop) : Int := w.books.net - w.inst.held

def balance : Course Workshop where
  ok w := w.books.ledger.isSome = true ∧ w.inst.Billed
  le w w' := w'.net = w.net
  refl _ := rfl
  trans h h' := h'.trans h

variable {w : Workshop}

theorem net_of_owner (h : w.inst.owner = some a) :
    w.net = w.tenant.net - w.inst.scratch.charged.getD 0 := by
  unfold net
  rw [Instance.held_of_owner h, Tenant.net_of_owner (t := w.tenant) h]
  show _ = w.books.net - _ - w.inst.space.records.length * _ - _
  omega

theorem setTenant_balances (hOk : balance.ok w) (hBilled : t.Billed w.inst.bytes)
    (hNet : t.net = w.tenant.net) :
    balance.ok (w.setTenant t) ∧ balance.le w (w.setTenant t) := by
  obtain ⟨a, hOwner, hAccount⟩ := hBilled.account
  obtain ⟨a', hOwner', -⟩ := hOk.2.account
  refine ⟨⟨hBilled.counted, ⟨a, hOwner, hAccount⟩, hOk.2.scratch⟩, ?_⟩
  show (w.setTenant t).net = w.net
  rw [net_of_owner (w := w.setTenant t) hOwner, net_of_owner hOwner']
  show t.net - _ = _
  rw [hNet]
  rfl

theorem onTenant_balances {α : Type} {act : Act Tenant α} {p : α → Tenant → Prop}
    (h : Keeps (Tenant.balance w.inst.bytes) p act w.tenant) :
    Keeps balance (fun a w' => p a w'.tenant) (onTenant act) w := by
  intro hOk
  refine onPart_ends (mono (h ⟨hOk.1, hOk.2.account⟩) ?_ ?_)
  · rintro a t ⟨hBilled, hNet, hPost⟩
    obtain ⟨hOk', hLe⟩ := setTenant_balances hOk hBilled hNet
    exact ⟨hOk', hLe, hPost⟩
  · rintro t ⟨hBilled, hNet⟩
    exact setTenant_balances hOk hBilled hNet

theorem onScratch_balances {α : Type} {act : Act ScratchRoom α} {p : α → ScratchRoom → Prop}
    (h : Keeps (ScratchRoom.balance w.inst.Templateless) p act ⟨w.books, w.inst.scratch⟩) :
    Keeps balance (fun a w' => p a ⟨w'.books, w'.inst.scratch⟩) (onScratch act) w := by
  rintro ⟨hCounted, hBilled⟩
  obtain ⟨a, hOwner, hAccount⟩ := hBilled.account
  have hAfter {r : ScratchRoom} (hNet : r.net = w.books.net - w.inst.scratch.charged.getD 0) :
      net ⟨r.books, { w.inst with scratch := r.scratch }⟩ = w.net := by
    unfold net
    rw [Instance.held_of_owner hOwner,
      Instance.held_of_owner (i := { w.inst with scratch := r.scratch }) hOwner]
    unfold ScratchRoom.net at hNet
    show r.books.net - (_ + r.scratch.charged.getD 0 + w.inst.space.records.length * _) = _
    omega
  refine onPart_ends (mono (h ⟨hCounted, hBilled.scratch⟩) ?_ ?_)
  · rintro b r ⟨⟨hCounted', hScratch⟩, hNet, hPost⟩
    exact ⟨⟨hCounted', ⟨a, hOwner, hAccount⟩, hScratch⟩, hAfter hNet, hPost⟩
  · rintro r ⟨⟨hCounted', hScratch⟩, hNet⟩
    exact ⟨⟨hCounted', ⟨a, hOwner, hAccount⟩, hScratch⟩, hAfter hNet⟩

theorem note_balances {n : Note} (hOther : n.nameBytes = 0) (w : Workshop) :
    Stays balance (note n) w := by
  refine .modify (fun hOk => hOk) (fun _ => ?_) fun _ => trivial
  show (w.books.note n).net - _ = w.books.net - _
  rw [net_note, hOther, Int.sub_zero]

theorem read_balances (r : Request) (w : Workshop) : Stays balance (read r) w := by
  intro hOk
  have hRead := Dictionary.readSource_onTenant (c := Tenant.balance w.inst.bytes)
    Tenant.obtain_balances (w.dictionary r) (.start w.tenant)
  refine read_ends (mono (hRead ⟨hOk.1, hOk.2.account⟩) ?_ ?_)
  · rintro _ s ⟨hBilled, hNet, -⟩
    obtain ⟨hOk', hLe⟩ := setTenant_balances hOk hBilled hNet
    exact ⟨hOk', hLe, trivial⟩
  · rintro s ⟨hBilled, hNet⟩
    exact setTenant_balances hOk hBilled hNet

/-- **Compiling** keeps the balance. -/
theorem compile_balances (home : Nat) (r : Request) (w : Workshop) :
    Stays balance (compile home r) w := by
  refine compile_course home r (read_balances r) ?_ ?_ ?_ ?_ w
  · exact fun _ _ hOk => ⟨⟨hOk.1, hOk.2.account, hOk.2.scratch⟩, rfl⟩
  · exact fun _ _ => (onScratch_balances (ScratchRoom.ensure_balances _ _)).forget
  · exact fun _ _ => (onTenant_balances (Tenant.chargeOwner_balances (fun _ => rfl) _)).forget
  · exact fun n hResult => note_balances (by cases n <;> first | rfl | cases hResult)

/-- **A new instance** is charged with its scratch buffer, or what was charged for it is owed back.
-/
theorem establish_balances (hCounted : b.ledger.isSome = true) (queries : List (String × Query))
    (actor : List (String × Float)) (trace : Bool) :
    Ends (fun _ w => balance.ok w ∧ w.net = b.net)
      (fun w => w.books.ledger.isSome = true ∧ w.books.net = b.net)
      (establish ⟨b, Instance.fresh queries actor trace⟩) := by
  let i := Instance.fresh queries actor trace
  have hCharge := charge_ends i.bytes b
  unfold establish
  rw [if_neg (by rw [Option.isNone_iff_eq_none, ← Option.not_isSome_iff_eq_none, hCounted]; decide)]
  generalize charge (Instance.fresh queries actor trace).bytes b = out at hCharge ⊢
  cases hCharge with
  | error hSame =>
    subst hSame
    exact .error ⟨hCounted, rfl⟩
  | @ok _ b' hEntered =>
    have hCounted' : b'.ledger.isSome = true := by rw [hEntered, isSome_enter, hCounted]
    have hNet : b'.net = b.net + i.bytes := by rw [hEntered, net_enter hCounted]
    have hScratch : Ends (fun _ w => balance.ok w ∧ w.net = b.net)
        (fun w => w = ⟨b', { i with owner := some (.opened i.bytes) }⟩)
        (onScratch ScratchRoom.establish ⟨b', { i with owner := some (.opened i.bytes) }⟩) := by
      refine onPart_ends (mono (ScratchRoom.establish_ends (r := ⟨b', i.scratch⟩) hCounted') ?_ ?_)
      · rintro _ r rfl
        refine ⟨⟨(isSome_enter _ _).trans hCounted', ⟨_, rfl, rfl, rfl, Nat.le_refl 0⟩, ?_⟩, ?_⟩
        · exact .of_charged 0 rfl (Nat.zero_le _) fun _ => rfl
        · unfold net
          rw [Instance.held_of_owner rfl]
          show (b'.enter (bufferBytes 0)).net - ((Account.opened i.bytes).bytes +
            bufferBytes 0 + 0) = _
          rw [net_enter hCounted', Account.bytes_opened]
          omega
      · rintro r rfl
        rfl
    dsimp only
    generalize onScratch ScratchRoom.establish _ = out at hScratch ⊢
    cases hScratch with
    | ok h => exact .ok h
    | error h =>
      subst h
      refine .error ⟨hCounted', ?_⟩
      show (b'.owe i.bytes).net = _
      rw [net_owe]
      omega

end Workshop

end MolangCompiler
