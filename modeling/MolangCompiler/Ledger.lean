import MolangCompiler.Failure
import MolangCompiler.Journal

/-!
# The ledger of bytes

A ledger counts the bytes in use and may have a budget.  Every allocation whose size the user
controls is charged before it is made; a charge that would exceed the budget is refused and
changes nothing.  Refunds are never refused.

`Books` is the ledger, if there is one, with the journal of notes.  It also remembers what is owed
back: bytes charged for something that a failure left without an owner are refunded once that
failure has been dealt with (`Books.settle`).
-/

namespace MolangCompiler

/-! ## Sizes -/

/-- Bytes of an object without its contents. -/
def objectBytes : Int := 16

/-- Bytes of a reference. -/
def referenceBytes : Int := 8

/-- Bytes of an integer, and of a single precision number. -/
def wordBytes : Int := 4

/-- Bytes of a truth value. -/
def flagBytes : Int := 1

/-- Bytes of a map entry. -/
def entryBytes : Int := 4 * referenceBytes

/-- Bytes of an array with `count` items of `itemBytes` bytes each. -/
def arrayBytes (count : Nat) (itemBytes : Int) : Int := objectBytes + wordBytes + count * itemBytes

/-- Bytes of a text. -/
def textBytes (text : String) : Int := arrayBytes text.length 2

/-- Bytes of a buffer of single precision numbers. -/
def bufferBytes (slots : Nat) : Int := arrayBytes slots wordBytes

/-- Bytes of a variable record. -/
def recordBytes : Int := objectBytes + referenceBytes + 2 * wordBytes

/-- Bytes paid for each character of a routine's text. -/
def codeFactor : Int := 4

/-! ## Charges -/

/-- Bytes in use and the most that may be; `byHost` says whose error a refusal is. -/
structure Ledger where
  budget : Option Int
  used : Int
  byHost : Bool
  deriving DecidableEq

/-- The refusal of a charge, if it would exceed the budget. -/
def Ledger.refusal? (l : Ledger) (bytes : Int) : Option Refusal :=
  match l.budget with
  | none => none
  | some b => if 0 < bytes ∧ b < l.used + bytes then some ⟨bytes, l.used, b, l.byHost⟩ else none

/-- The ledger, the journal, and what is owed back. -/
structure Books where
  ledger : Option Ledger
  journal : List Note
  owed : List Int

/-- Operations that may fail and that keep what they did to the state before failing. -/
abbrev Act (σ α : Type) := EStateM Failure σ α

namespace Books

/-- Empty books. -/
def start (ledger : Option Ledger) : Books := ⟨ledger, [], []⟩

/-- Adds a note to the journal. -/
def note (n : Note) (b : Books) : Books := { b with journal := b.journal ++ [n] }

/-- Enters a charge or a refund without asking for the budget; nothing without a ledger. -/
def enter (bytes : Int) (b : Books) : Books :=
  match b.ledger with
  | none => b
  | some l =>
    note (.charged bytes (l.used + bytes))
      { b with ledger := some { l with used := l.used + bytes } }

/-- Owes a charge back, as long as a failure keeps what it paid for. -/
def owe (bytes : Int) (b : Books) : Books := { b with owed := b.owed ++ [bytes] }

/-- Charges bytes, unless the budget forbids it. -/
def charge (bytes : Int) : Act Books Unit := fun b =>
  match b.ledger.bind (·.refusal? bytes) with
  | some refusal => .error (.refused refusal) b
  | none => .ok () (b.enter bytes)

/-- Refunds several charges, one after the other. -/
def refundAll (charges : List Int) (b : Books) : Books :=
  charges.foldl (fun acc bytes => acc.enter (-bytes)) b

/-- Refunds what is owed, oldest debt first. -/
def settle (b : Books) : Books := refundAll b.owed { b with owed := [] }

/-- The bytes in use, if they are counted. -/
def used? (b : Books) : Option Int := b.ledger.map (·.used)

/-- An entry changes the bytes in use by just as much. -/
@[simp]
theorem used?_enter (bytes : Int) (b : Books) :
    (b.enter bytes).used? = b.used?.map (· + bytes) := by
  cases h : b.ledger <;> simp [enter, note, used?, h]

/-- A charge that is accepted is entered. -/
theorem eq_enter_of_charge {bytes : Int} {b b' : Books} (h : charge bytes b = .ok () b') :
    b' = b.enter bytes := by
  simp only [charge] at h
  split at h
  · cases h
  · cases h
    rfl

/-- A refused charge changes nothing. -/
theorem eq_of_charge_error {bytes : Int} {b b' : Books} {e : Failure}
    (h : charge bytes b = .error e b') : b' = b := by
  simp only [charge] at h
  split at h
  · cases h
    rfl
  · cases h

theorem enter_uncounted {b : Books} (h : b.ledger = none) (bytes : Int) : b.enter bytes = b := by
  unfold enter
  rw [h]

/-- Without a ledger a charge does nothing. -/
theorem charge_uncounted (bytes : Int) {b : Books} (h : b.ledger = none) :
    charge bytes b = .ok () b := by
  unfold charge
  rw [h, enter_uncounted h]
  rfl

/-- Sets the budget; nothing without a ledger. -/
def setBudget (budget : Option Int) (b : Books) : Books :=
  { b with ledger := b.ledger.map fun l => { l with budget := budget } }

end Books

/-! ## Accounts -/

/-- What an owner pays for while it is in use. -/
inductive Expense where
  /-- Further slots of its store. -/
  | slots (count : Nat)
  /-- An entry of a map. -/
  | entry
  /-- The text of a routine. -/
  | code (characters : Nat)

/-- Bytes of an expense. -/
def Expense.bytes : Expense → Int
  | slots count => count * wordBytes
  | entry => entryBytes
  | code characters => characters * codeFactor

/-- What was charged to an owner, item by item; `base` is the owner itself. -/
structure Account where
  base : Int
  slots : Nat
  entries : Nat
  characters : Nat

namespace Account

/-- The account of an owner that has paid for itself only. -/
def opened (base : Int) : Account := ⟨base, 0, 0, 0⟩

/-- Bytes charged to an owner. -/
def bytes (a : Account) : Int :=
  a.base + a.slots * wordBytes + a.entries * entryBytes + a.characters * codeFactor

/-- Adds an expense. -/
def add (expense : Expense) (a : Account) : Account :=
  match expense with
  | .slots count => { a with slots := a.slots + count }
  | .entry => { a with entries := a.entries + 1 }
  | .code characters => { a with characters := a.characters + characters }

@[simp]
theorem bytes_opened (base : Int) : (opened base).bytes = base := by
  simp [opened, bytes]

/-- An account grows by what is added to it. -/
@[simp]
theorem bytes_add (expense : Expense) (a : Account) :
    (a.add expense).bytes = a.bytes + expense.bytes := by
  cases expense <;> simp only [add, bytes, Expense.bytes, Int.natCast_add, Int.add_mul] <;> omega

end Account

/-! ## Parts of a state -/

/-- Runs an operation on a part of the state. -/
def onPart {σ τ α : Type} (part : σ → τ) (put : τ → σ → σ) (act : Act τ α) : Act σ α := fun s =>
  match act (part s) with
  | .ok a t => .ok a (put t s)
  | .error e t => .error e (put t s)

/-- Runs an operation and then, whether it failed or not, changes the state. -/
def followedBy {σ α : Type} (act : Act σ α) (after : σ → σ) : Act σ α := fun s =>
  match act s with
  | .ok a t => .ok a (after t)
  | .error e t => .error e (after t)

end MolangCompiler
