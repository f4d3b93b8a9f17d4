import MolangCompiler.Ledger
import MolangCompiler.Name
import MolangCompiler.Number.Single

/-!
# Actor variables

The variables of an instance lie side by side in one store of single precision numbers.  A
variable gets the place behind the last one when it is first needed and keeps it for good; the
store grows to twice what is needed, so that its last slot is never in use.

`Tenant.obtain` looks a variable up and makes it if it is missing.  Making a variable is charged
in steps: the growth of the store and the map entry to the owner of the namespace, the record and
its name by themselves.  A refusal at any step leaves the published variables as they were.
-/

namespace MolangCompiler

/-- A named range of slots in the store of an instance. -/
structure Variable where
  name : String
  size : Nat
  offset : Nat
  deriving Repr, DecidableEq, Inhabited

namespace Variable

/-- The first slot behind a variable. -/
def stop (v : Variable) : Nat := v.offset + v.size

/-- The name of a variable without its size. -/
def base (v : Variable) : String := baseName v.name

end Variable

/-- The variables of an instance, in the order of their creation, and their values. -/
structure Namespace where
  records : List Variable
  store : Array Float

namespace Namespace

/-- A namespace without variables. -/
def empty : Namespace := ⟨[], #[]⟩

/-- The slot at which the next variable will start. -/
def cursor (ns : Namespace) : Nat := (ns.records.getLast?.map (·.stop)).getD 0

/-- The variable with exactly this name. -/
def get? (ns : Namespace) (name : String) : Option Variable := ns.records.find? (·.name == name)

/-- The variable with this name, or else the oldest one with this name behind its size. -/
def find? (ns : Namespace) (name : String) : Option Variable :=
  (ns.get? name).or (ns.records.find? (·.base == name))

/-- The values of a variable. -/
def read (ns : Namespace) (v : Variable) : List Float := (ns.store.extract v.offset v.stop).toList

/-- Replaces the values from a slot on, rounded to single precision. -/
def write (ns : Namespace) : (slot : Nat) → List Float → Namespace
  | _, [] => ns
  | slot, x :: xs =>
    write { ns with store := ns.store.setIfInBounds slot (single x) } (slot + 1) xs

/-- Checks that a new variable may have the requested size. -/
def sizeProblem? (name : String) (size : Int) : Option SizeProblem :=
  let announced := (encodedSize? name).getD 1
  if size ≤ 0 then some (.notPositive name size)
  else if announced ≠ size then some (.misnamed name announced size)
  else none

end Namespace

/-- A namespace with the books that its variables are charged to and the account of its owner; an
owner without an account is not charged. -/
structure Tenant where
  books : Books
  owner : Option Account
  space : Namespace

namespace Tenant

/-- Charges bytes to the books. -/
def charge (bytes : Int) : Act Tenant Unit :=
  onPart books (fun b t => { t with books := b }) (Books.charge bytes)

/-- Charges an expense to the owner. -/
def chargeOwner (expense : Expense) : Act Tenant Unit := do
  match (← get).owner with
  | none => return ()
  | some _ =>
    charge expense.bytes
    modify fun t => { t with owner := t.owner.map (·.add expense) }

/-- Adds a note to the journal. -/
def note (n : Note) : Act Tenant Unit := modify fun t => { t with books := t.books.note n }

/-- Lengthens the store to the given number of slots. -/
def growStore (slots : Nat) : Act Tenant Unit := do
  let missing := slots - (← get).space.store.size
  chargeOwner (.slots missing)
  modify fun t => { t with
    space := { t.space with store := t.space.store ++ Array.replicate missing 0 } }
  note (.grewStore (← get).space.store.size)

/-- Charges a new record and its name.  If the name is refused, the record is owed back. -/
def chargeRecord (name : String) : Act Tenant Unit := fun t =>
  match (chargeOwner .entry *> charge recordBytes) t with
  | .error e t => .error e t
  | .ok () t =>
    match charge (textBytes name) t with
    | .ok () t => .ok () t
    | .error e t => .error e { t with books := t.books.owe recordBytes }

/-- Lengthens the store if it does not reach beyond a slot. -/
def makeRoom (stop : Nat) : Act Tenant Unit := do
  if (← get).space.store.size ≤ stop then growStore (2 * stop)

/-- Adds the record of a variable. -/
def record (v : Variable) : Act Tenant Variable := do
  modify fun t => { t with space := { t.space with records := t.space.records ++ [v] } }
  note (.created v.name v.offset v.size)
  return v

/-- Charges a variable, if bytes are counted, and publishes it. -/
def publish (v : Variable) : Act Tenant Variable := do
  if (← get).books.ledger.isSome then chargeRecord v.name
  record v

/-- Makes a variable of an admissible size behind the last one. -/
def create (name : String) (size : Nat) : Act Tenant Variable := do
  let cursor := (← get).space.cursor
  makeRoom (cursor + size)
  publish ⟨name, size, cursor⟩

/-- The variable with this name and size, made if there is none with this name. -/
def obtain (name : String) (size : Int) : Act Tenant Variable := do
  match (← get).space.get? name with
  | some v =>
    if v.size = size then return v else throw (SizeProblem.taken name v.size size).failure
  | none =>
    match Namespace.sizeProblem? name size with
    | some problem => throw problem.failure
    | none => create name size.toNat

/-- Sets the values of a variable found by its name without a size, made if there is none. -/
def setValues (name : String) (values : List Float) : Act Tenant Unit := do
  let v ← match (← get).space.find? name with
    | some v => pure v
    | none => obtain (sizedName name values.length) values.length
  if values.length ≠ v.size then throw (.valueCount name v.size values.length)
  modify fun t => { t with space := t.space.write v.offset values }

/-- The values of a variable found by its name without a size. -/
def values (name : String) : Act Tenant (List Float) := do
  let space := (← get).space
  match space.find? name with
  | some v => return space.read v
  | none => throw (.unknownVariable name)

end Tenant

end MolangCompiler
