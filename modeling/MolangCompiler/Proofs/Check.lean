import MolangCompiler.Proofs.Regular

/-!
# Checking a routine

A routine can be checked before it runs.  The check goes through its steps once and keeps track of
which locals have been set and which slots of the scratch buffer have been written (`Facts`).  Where
two branches meet, only what both of them established is kept; behind the end of the routine
everything holds, because nothing gets there.

Against given `Limits`, a checked routine

* reads only locals that have been set,
* reaches only slots that exist, in the scratch buffer and in the store,
* copies only slots of the scratch buffer that it has written, and
* has written all slots of its result when it ends.
-/

namespace MolangCompiler

/-! ## Facts -/

/-- What holds at a point of a routine whichever way it is reached. -/
structure Facts where
  /-- Locals that have been set. -/
  locals : Nat → Prop
  /-- Slots of the scratch buffer that have been written. -/
  slots : Nat → Prop

namespace Facts

/-- The facts behind the end of a routine, which is never reached. -/
def all : Facts := ⟨fun _ => True, fun _ => True⟩

def meet (K K' : Facts) : Facts :=
  ⟨fun i => K.locals i ∧ K'.locals i, fun j => K.slots j ∧ K'.slots j⟩

def setLocal (index : Nat) (K : Facts) : Facts :=
  { K with locals := fun i => i = index ∨ K.locals i }

def write (slot size : Nat) (K : Facts) : Facts :=
  { K with slots := fun j => (slot ≤ j ∧ j < slot + size) ∨ K.slots j }

/-- Some facts are among others. -/
structure Le (K K' : Facts) : Prop where
  locals : ∀ i, K.locals i → K'.locals i
  slots : ∀ j, K.slots j → K'.slots j

theorem Le.refl (K : Facts) : K.Le K := ⟨fun _ h => h, fun _ h => h⟩

variable {K₁ K₂ K : Facts}

theorem Le.trans {K₃ : Facts} (h : K₁.Le K₂) (h' : K₂.Le K₃) : K₁.Le K₃ :=
  ⟨fun i hi => h'.locals i (h.locals i hi), fun j hj => h'.slots j (h.slots j hj)⟩

theorem le_all (K : Facts) : K.Le all := ⟨fun _ _ => trivial, fun _ _ => trivial⟩

theorem le_meet (h₁ : K.Le K₁) (h₂ : K.Le K₂) : K.Le (K₁.meet K₂) :=
  ⟨fun i hi => ⟨h₁.locals i hi, h₂.locals i hi⟩, fun j hj => ⟨h₁.slots j hj, h₂.slots j hj⟩⟩

theorem meet_le_left (K K' : Facts) : (K.meet K').Le K := ⟨fun _ h => h.1, fun _ h => h.1⟩

theorem meet_le_right (K K' : Facts) : (K.meet K').Le K' := ⟨fun _ h => h.2, fun _ h => h.2⟩

theorem le_setLocal (index : Nat) (K : Facts) : K.Le (K.setLocal index) :=
  ⟨fun _ h => .inr h, fun _ h => h⟩

theorem le_write (slot size : Nat) (K : Facts) : K.Le (K.write slot size) :=
  ⟨fun _ h => h, fun _ h => .inr h⟩

theorem Le.setLocal {K' : Facts} (h : K.Le K') (index : Nat) :
    (K.setLocal index).Le (K'.setLocal index) :=
  ⟨fun i hi => hi.imp id (h.locals i), h.slots⟩

theorem Le.write {K' : Facts} (h : K.Le K') (slot size : Nat) :
    (K.write slot size).Le (K'.write slot size) :=
  ⟨h.locals, fun j hj => hj.imp id (h.slots j)⟩

theorem Le.meet {K₁' K₂' : Facts} (h₁ : K₁.Le K₁') (h₂ : K₂.Le K₂') :
    (K₁.meet K₂).Le (K₁'.meet K₂') :=
  le_meet ((meet_le_left K₁ K₂).trans h₁) ((meet_le_right K₁ K₂).trans h₂)

end Facts

/-! ## What is checked -/

/-- The bounds against which a routine is checked. -/
structure Limits where
  calls : Callable
  /-- Which neighbouring slots of the scratch buffer may be written. -/
  writable : (slot : Int) → (size : Nat) → Prop
  /-- How many slots the scratch buffer has at least. -/
  room : Nat
  /-- How many slots the variable store has at least. -/
  slots : Nat
  /-- How many values the routine leaves behind. -/
  returns : Nat

def Limits.Spans (lim : Limits) (slot : Int) (size : Nat) : Prop :=
  0 ≤ slot ∧ slot + size ≤ lim.room

theorem Limits.Spans.toNat_le {lim : Limits} {slot : Int} {size n : Nat} (h : lim.Spans slot size)
    (hRoom : lim.room ≤ n) : slot.toNat + size ≤ n := by
  have hLow := h.1
  have hHigh := h.2
  omega

/-- Limits for a routine that writes only within its scratch buffer. -/
def Limits.strict (k : Callable) (room slots returns : Nat) : Limits where
  calls := k
  writable slot size := 0 ≤ slot ∧ slot + size ≤ room
  room := room
  slots := slots
  returns := returns

/-- Limits for a routine that may call anything, and may even try to write behind its scratch
buffer. -/
def Limits.loose (room slots returns : Nat) : Limits where
  calls := .any
  writable _ _ := True
  room := room
  slots := slots
  returns := returns

/-- Expressions may do no more under some limits than under others. -/
structure Limits.Permits (lim lim' : Limits) : Prop where
  helper : ∀ h count, lim.calls.helper h count → lim'.calls.helper h count
  host : lim.calls.host → lim'.calls.host
  slots : lim.slots ≤ lim'.slots

theorem Limits.Permits.refl (lim : Limits) : lim.Permits lim := ⟨fun _ _ h => h, id, Nat.le_refl _⟩

/-- Some limits allow no more than others. -/
structure Limits.Le (lim lim' : Limits) : Prop extends lim.Permits lim' where
  writable : ∀ slot size, lim.writable slot size → lim'.writable slot size
  room : lim.room ≤ lim'.room
  returns : lim'.returns ≤ lim.returns

namespace Limits.Le

theorem refl (lim : Limits) : lim.Le lim :=
  ⟨.refl lim, fun _ _ h => h, Nat.le_refl _, Nat.le_refl _⟩

theorem loose {room room' slots slots' : Nat} (hRoom : room ≤ room') (hSlots : slots ≤ slots')
    (returns : Nat) : (loose room slots returns).Le (loose room' slots' returns) :=
  ⟨⟨fun _ _ _ => trivial, fun _ => trivial, hSlots⟩, fun _ _ _ => trivial, hRoom, Nat.le_refl _⟩

end Limits.Le

mutual

/-- An expression reads only what is there and calls only what may be called. -/
def Code.Checked (lim : Limits) (K : Facts) : Code → Prop
  | .literal _ => True
  | .readLocal index => K.locals index
  | .readVariable slot => slot < lim.slots
  | .negate operand | .not operand => operand.Checked lim K
  | .binary _ left right => left.Checked lim K ∧ right.Checked lim K
  | .helper h args => lim.calls.helper h args.length ∧ AllChecked lim K args
  | .call _ args => lim.calls.host ∧ AllChecked lim K args

def Code.AllChecked (lim : Limits) (K : Facts) : List Code → Prop
  | [] => True
  | c :: rest => c.Checked lim K ∧ AllChecked lim K rest

end

def Test.Checked (lim : Limits) (K : Facts) : Test → Prop
  | .holds value | .fails value => value.Checked lim K

/-- An action is checked.  No buffer is asked for in the middle of a routine. -/
def Action.Checked (lim : Limits) (K : Facts) : Action → Prop
  | .acquire _ => False
  | .setLocal _ value | .setTruth _ value => value.Checked lim K
  | .setSlot slot value => lim.writable slot 1 ∧ value.Checked lim K
  | .setSlots slot width _ args =>
    lim.calls.host ∧ lim.writable slot width ∧ Code.AllChecked lim K args
  | .setVariable slot value => slot < lim.slots ∧ value.Checked lim K
  | .load slot offset size => lim.writable slot size ∧ offset + size ≤ lim.slots
  | .store offset size slot =>
    offset + size ≤ lim.slots ∧ lim.Spans slot size ∧
      ∀ j, slot.toNat ≤ j → j < slot.toNat + size → K.slots j
  | .finish => ∀ j < lim.returns, K.slots j

def Action.after (K : Facts) : Action → Facts
  | .setLocal index _ | .setTruth index _ => K.setLocal index
  | .setSlot slot _ => K.write slot.toNat 1
  | .setSlots slot width _ _ => K.write slot.toNat width
  | .load slot _ size => K.write slot.toNat size
  | .finish => .all
  | .acquire _ | .setVariable _ _ | .store _ _ _ => K

mutual

def Step.after (K : Facts) : Step → Facts
  | .act action => action.after K
  | .choose _ yes no => (afterAll K yes).meet (afterAll K no)

def Step.afterAll (K : Facts) : List Step → Facts
  | [] => K
  | s :: rest => afterAll (s.after K) rest

end

mutual

def Step.Checked (lim : Limits) (K : Facts) : Step → Prop
  | .act action => action.Checked lim K
  | .choose test yes no =>
    test.Checked lim K ∧ AllChecked lim K yes ∧ AllChecked lim K no

/-- Steps are checked one after the other, each with the facts behind the one before. -/
def Step.AllChecked (lim : Limits) (K : Facts) : List Step → Prop
  | [] => True
  | s :: rest => s.Checked lim K ∧ AllChecked lim (s.after K) rest

end

/-- A routine is checked: it asks for a scratch buffer of the right length first, the steps behind
that are checked and write all values that it leaves behind, and these lie within the buffer. -/
structure Routine.Checked (lim : Limits) (K : Facts) (r : Routine) : Prop where
  body : ∃ rest, r.body = .act (.acquire lim.room) :: rest ∧ Step.AllChecked lim K rest ∧
    ∀ j < lim.returns, (Step.afterAll K rest).slots j
  returns : lim.returns ≤ lim.room

/-! ## More facts and wider limits -/

mutual

theorem Code.Checked.mono {lim lim' : Limits} {K K' : Facts} (hLim : lim.Permits lim')
    (hLe : K.Le K') : ∀ c : Code, c.Checked lim K → c.Checked lim' K'
  | .literal _, _ => trivial
  | .readLocal index, h => hLe.locals index h
  | .readVariable _, h => Nat.lt_of_lt_of_le h hLim.slots
  | .negate operand, h | .not operand, h => Code.Checked.mono hLim hLe operand h
  | .binary _ left right, h =>
    ⟨Code.Checked.mono hLim hLe left h.1, Code.Checked.mono hLim hLe right h.2⟩
  | .helper _ args, h => ⟨hLim.helper _ _ h.1, AllChecked.mono hLim hLe args h.2⟩
  | .call _ args, h => ⟨hLim.host h.1, AllChecked.mono hLim hLe args h.2⟩

theorem Code.AllChecked.mono {lim lim' : Limits} {K K' : Facts} (hLim : lim.Permits lim')
    (hLe : K.Le K') : ∀ cs : List Code, AllChecked lim K cs → AllChecked lim' K' cs
  | [], _ => trivial
  | c :: rest, h => ⟨Checked.mono hLim hLe c h.1, Code.AllChecked.mono hLim hLe rest h.2⟩

end

section

variable {lim lim' : Limits} {K K' : Facts}

theorem Test.Checked.mono (hLim : lim.Permits lim') (hLe : K.Le K') {test : Test}
    (h : test.Checked lim K) : test.Checked lim' K' := by
  cases test with
  | holds value | fails value => exact Code.Checked.mono hLim hLe value h

theorem Action.Checked.mono (hLim : lim.Le lim') (hLe : K.Le K') {action : Action}
    (h : action.Checked lim K) : action.Checked lim' K' := by
  cases action with
  | acquire slots => exact h
  | setLocal index value | setTruth index value =>
    exact Code.Checked.mono hLim.toPermits hLe value h
  | setSlot slot value =>
    exact ⟨hLim.writable _ _ h.1, Code.Checked.mono hLim.toPermits hLe value h.2⟩
  | setSlots slot width callee args =>
    exact ⟨hLim.host h.1, hLim.writable _ _ h.2.1,
      Code.AllChecked.mono hLim.toPermits hLe args h.2.2⟩
  | setVariable slot value =>
    exact ⟨Nat.lt_of_lt_of_le h.1 hLim.slots, Code.Checked.mono hLim.toPermits hLe value h.2⟩
  | load slot offset size => exact ⟨hLim.writable _ _ h.1, Nat.le_trans h.2 hLim.slots⟩
  | store offset size slot =>
    obtain ⟨hStop, hSpan, hWritten⟩ := h
    refine ⟨Nat.le_trans hStop hLim.slots, ⟨hSpan.1, ?_⟩, fun j hLow hHigh => ?_⟩
    · have hRoom := hLim.room
      have hWithin := hSpan.2
      omega
    · exact hLe.slots j (hWritten j hLow hHigh)
  | finish => exact fun j hj => hLe.slots j (h j (Nat.lt_of_lt_of_le hj hLim.returns))

end

theorem Action.after_mono {K K' : Facts} (hLe : K.Le K') (action : Action) :
    (action.after K).Le (action.after K') := by
  cases action with
  | setLocal index value | setTruth index value => exact hLe.setLocal index
  | setSlot slot value => exact hLe.write slot.toNat 1
  | setSlots slot width callee args => exact hLe.write slot.toNat width
  | load slot offset size => exact hLe.write slot.toNat size
  | finish => exact .refl _
  | acquire | setVariable | store => exact hLe

theorem Action.le_after (K : Facts) (action : Action) : K.Le (action.after K) := by
  cases action with
  | setLocal index value | setTruth index value => exact Facts.le_setLocal index K
  | setSlot slot value => exact Facts.le_write slot.toNat 1 K
  | setSlots slot width callee args => exact Facts.le_write slot.toNat width K
  | load slot offset size => exact Facts.le_write slot.toNat size K
  | finish => exact Facts.le_all K
  | acquire | setVariable | store => exact .refl K

namespace Step

mutual

theorem after_mono {K K' : Facts} (hLe : K.Le K') : ∀ s : Step, (s.after K).Le (s.after K')
  | .act action => Action.after_mono hLe action
  | .choose _ yes no => (afterAll_mono hLe yes).meet (afterAll_mono hLe no)

theorem afterAll_mono {K K' : Facts} (hLe : K.Le K') :
    ∀ steps : List Step, (afterAll K steps).Le (afterAll K' steps)
  | [] => hLe
  | s :: rest => afterAll_mono (after_mono hLe s) rest

end

mutual

theorem le_after (K : Facts) : ∀ s : Step, K.Le (s.after K)
  | .act action => Action.le_after K action
  | .choose _ yes no => Facts.le_meet (le_afterAll K yes) (le_afterAll K no)

/-- **Steps only add facts.** -/
theorem le_afterAll (K : Facts) : ∀ steps : List Step, K.Le (afterAll K steps)
  | [] => .refl K
  | s :: rest => (le_after K s).trans (le_afterAll (s.after K) rest)

end

mutual

theorem Checked.mono {lim lim' : Limits} {K K' : Facts} (hLim : lim.Le lim') (hLe : K.Le K') :
    ∀ s : Step, s.Checked lim K → s.Checked lim' K'
  | .act _, h => Action.Checked.mono hLim hLe h
  | .choose _ yes no, h =>
    ⟨Test.Checked.mono hLim.toPermits hLe h.1, AllChecked.mono hLim hLe yes h.2.1,
      AllChecked.mono hLim hLe no h.2.2⟩

/-- **What is checked stays checked** with more facts and against wider limits. -/
theorem AllChecked.mono {lim lim' : Limits} {K K' : Facts} (hLim : lim.Le lim') (hLe : K.Le K') :
    ∀ steps : List Step, AllChecked lim K steps → AllChecked lim' K' steps
  | [], _ => trivial
  | s :: rest, h =>
    ⟨Checked.mono hLim hLe s h.1, AllChecked.mono hLim (after_mono hLe s) rest h.2⟩

end

theorem afterAll_append (K : Facts) (xs ys : List Step) :
    afterAll K (xs ++ ys) = afterAll (afterAll K xs) ys := by
  induction xs generalizing K with
  | nil => rfl
  | cons s rest ih => exact ih (s.after K)

theorem allChecked_append {lim : Limits} {K : Facts} {xs ys : List Step} :
    AllChecked lim K (xs ++ ys) ↔ AllChecked lim K xs ∧ AllChecked lim (afterAll K xs) ys := by
  induction xs generalizing K with
  | nil => exact ⟨fun h => ⟨trivial, h⟩, fun h => h.2⟩
  | cons s rest ih =>
    show s.Checked lim K ∧ AllChecked lim (s.after K) (rest ++ ys) ↔
      (s.Checked lim K ∧ AllChecked lim (s.after K) rest) ∧
        AllChecked lim (afterAll (s.after K) rest) ys
    rw [ih, and_assoc]

theorem allChecked_act {lim : Limits} {K : Facts} {action : Action} (h : action.Checked lim K) :
    AllChecked lim K [.act action] := ⟨h, trivial⟩

end Step

theorem Code.allChecked_iff {lim : Limits} {K : Facts} (cs : List Code) :
    AllChecked lim K cs ↔ ∀ c ∈ cs, c.Checked lim K := by
  induction cs with
  | nil => simp [AllChecked]
  | cons c rest ih => simp [AllChecked, ih]

end MolangCompiler
