import MolangCompiler.Ledger

/-!
# Registered objects

A registry charges objects to a ledger under names.  The size of an object can change while it is
registered.  When an object is collected its bytes are refunded once, except those of texts, which
stay charged.
-/

namespace MolangCompiler

/-- Something that can be registered. -/
inductive Item where
  | text (s : String)
  /-- An array with `count` items of `itemBytes` bytes each. -/
  | array (count : Nat) (itemBytes : Int)
  /-- Anything else, by the name of its kind. -/
  | other (kind : String)

namespace Item

/-- The bytes of an item, as far as they can be told from it. -/
def bytes : Item → Except Failure Int
  | text s => .ok (textBytes s)
  | array count itemBytes => .ok (arrayBytes count itemBytes)
  | other kind => .error (.unsized kind)

/-- Whether the bytes of an item come back when it is collected. -/
def isCollectable : Item → Bool
  | text _ => false
  | _ => true

end Item

/-- The bytes charged for a registered object, and whether they are refunded once more. -/
structure Entry where
  bytes : Int
  collectable : Bool

/-- Books with registered objects. -/
structure Registry where
  books : Books
  entries : List (String × Entry)

namespace Registry

/-- An empty registry. -/
def start (ledger : Ledger) : Registry := ⟨Books.start (some ledger), []⟩

/-- The object with a name. -/
def object? (r : Registry) (name : String) : Option Entry :=
  (r.entries.find? (·.1 == name)).map (·.2)

/-- The bytes charged for an object. -/
def size (r : Registry) (name : String) : Int := ((r.object? name).map (·.bytes)).getD 0

/-- Sets the object of a name. -/
def put (name : String) (e : Entry) (r : Registry) : Registry :=
  { r with entries := (name, e) :: r.entries.filter (·.1 != name) }

/-- Charges bytes to the books. -/
def charge (bytes : Int) : Act Registry Unit :=
  onPart books (fun b r => { r with books := b }) (Books.charge bytes)

/-- Refunds all bytes of an object. -/
def release (name : String) (r : Registry) : Registry :=
  match r.object? name with
  | none => r
  | some e => ({ r with books := r.books.enter (-e.bytes) }).put name { e with bytes := 0 }

/-- Refunds the bytes of an object that is collected, unless it has been already. -/
def collect (name : String) (r : Registry) : Registry :=
  match r.object? name with
  | none => r
  | some e => if e.collectable then (r.release name).put name ⟨0, false⟩ else r

/-- Registers an item under a name.  An object that had the name is collected once the new one has
been charged. -/
def track (name : String) (item : Item) (size : Option Int) : Act Registry Unit := do
  match size.map Except.ok |>.getD item.bytes with
  | .error e => throw e
  | .ok bytes =>
    charge bytes
    modify fun r => (r.collect name).put name ⟨bytes, item.isCollectable⟩

/-- Changes the size of an object. -/
def change (name : String) (delta : Int) : Act Registry Unit := do
  match (← get).object? name with
  | none => return ()
  | some e =>
    charge delta
    modify fun r => r.put name { e with bytes := e.bytes + delta }

/-- Sets the budget. -/
def setBudget (budget : Option Int) (r : Registry) : Registry :=
  { r with books := r.books.setBudget budget }

end Registry

end MolangCompiler
