import MolangCompiler.Expr
import MolangCompiler.Pairs

/-!
# Scopes

While a source is read, its scope holds the temps declared so far, the number of locals handed
out, the width of its returns, and the namespace in which its variables live.  `Setting` is what
stays the same: the source itself, the context values and the named constants.
-/

namespace MolangCompiler

/-- What a source is read against, apart from the state of the instance. -/
structure Setting where
  source : String
  /-- Context values by name; their locals are their positions. -/
  context : List (String × Nat)
  /-- Named constants by canonical name. -/
  constants : List (String × List Float)
  /-- The first local that a temp may have. -/
  firstLocal : Nat

/-- The setting of a source with the given context names and constants. -/
def Setting.of (source : String) (context : List String) (constants : List (String × List Float)) :
    Setting where
  source := source
  context := context.zipIdx.map fun (name, i) => (contextKey name, i)
  constants := (merged constants).map fun (name, values) => (canonicalName name, values)
  firstLocal := context.length + 1

/-- What reading a source has made so far. -/
structure Scope where
  tenant : Tenant
  temps : List (String × Nat)
  locals : Nat
  returnWidth : Option Int

/-- The scope of a source of which nothing has been read. -/
def Scope.start (tenant : Tenant) : Scope := ⟨tenant, [], 0, none⟩

/-- The width of a sequence of statements: that of its returns, but at least one. -/
def Scope.resultWidth (s : Scope) : Int :=
  match s.returnWidth with
  | none => 1
  | some w => if w = 0 then 1 else w

/-- Reading a source; what was made before a failure stays. -/
abbrev Reading := EStateM Failure Scope

namespace Reading

/-- Fails with a problem at a place in the source. -/
def fail {α : Type} (st : Setting) (problem : SourceProblem) (start stop : Nat) : Reading α :=
  throw (.source ⟨problem, st.source, start, stop⟩)

/-- A tree whose parts may be ill-matched. -/
def ofTree {α : Type} : Except TreeProblem α → Reading α
  | .ok a => return a
  | .error problem => throw (.tree problem)

/-- Hands out a local. -/
def freshLocal (st : Setting) : Reading Nat := do
  let index := st.firstLocal + (← get).locals
  modify fun s => { s with locals := s.locals + 1 }
  return index

/-- The local of a temp, declared if it is new. -/
def tempLocal (st : Setting) (name : String) : Reading Nat := do
  match (← get).temps.find? (·.1 == name) with
  | some (_, index) => return index
  | none =>
    let index ← freshLocal st
    modify fun s => { s with temps := s.temps ++ [(name, index)] }
    return index

/-- The variable with this name and size, made if there is none. -/
def obtainVariable (name : String) (size : Int) : Reading Variable :=
  onPart Scope.tenant (fun t s => { s with tenant := t }) (Tenant.obtain name size)

/-- The variable with this name in the namespace, whatever its size. -/
def findVariable (name : String) : Reading (Option Variable) :=
  return (← get).tenant.space.find? name

end Reading

end MolangCompiler
