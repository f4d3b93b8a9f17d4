import MolangCompiler.Proofs.Frame
import MolangCompiler.Proofs.Meaning

/-!
# Machines that serve a tree

The meaning of a tree knows variables and host functions only; a routine also has a scratch buffer,
and locals beyond those of the tree.  A `Service` says how a machine stands for given surroundings:
which states belong together, that every access to a variable and every call does the same on both
sides and leaves the buffer alone, and that the slots of the buffer below `room` behave like slots.

`Service.Leads` compares an operation of the tree with one of the routine.  It relates what they
return and what the buffer holds afterwards; the states stay together, and the locals that the tree
can name have the same values on both sides.
-/

namespace MolangCompiler

/-! ## Slots -/

def overwrite (buffer : Nat → Float) (slot : Nat) (xs : List Float) (j : Nat) : Float :=
  if slot ≤ j ∧ j < slot + xs.length then xs[j - slot]?.getD 0 else buffer j

theorem overwrite_nil (buffer : Nat → Float) (slot : Nat) : overwrite buffer slot [] = buffer := by
  funext j
  simp only [overwrite, List.length_nil]
  rw [if_neg (by omega)]

theorem overwrite_append (buffer : Nat → Float) (slot : Nat) (xs ys : List Float) :
    overwrite buffer slot (xs ++ ys) =
      overwrite (overwrite buffer slot xs) (slot + xs.length) ys := by
  funext j
  simp only [overwrite, List.length_append]
  by_cases hSecond : slot + xs.length ≤ j ∧ j < slot + xs.length + ys.length
  · have hPlace : j - slot = xs.length + (j - (slot + xs.length)) := by omega
    rw [if_pos hSecond, if_pos (by omega), hPlace, List.getElem?_append_right (by omega),
      Nat.add_sub_cancel_left]
  · rw [if_neg hSecond]
    by_cases hFirst : slot ≤ j ∧ j < slot + xs.length
    · rw [if_pos hFirst, if_pos (by omega), List.getElem?_append_left (by omega)]
    · rw [if_neg hFirst, if_neg (by omega)]

theorem overwrite_cons (buffer : Nat → Float) (slot : Nat) (x : Float) (xs : List Float) :
    overwrite buffer slot (x :: xs) = overwrite (overwrite buffer slot [x]) (slot + 1) xs :=
  overwrite_append buffer slot [x] xs

theorem map_overwrite (buffer : Nat → Float) (slot : Nat) (xs : List Float) :
    (List.range xs.length).map (fun j => overwrite buffer slot xs (slot + j)) = xs := by
  refine List.ext_getElem (by simp) fun j hj hj' => ?_
  simp only [List.getElem_map, List.getElem_range, overwrite]
  rw [if_pos (by omega), Nat.add_sub_cancel_left, List.getElem?_eq_getElem hj']
  rfl

/-! ## Services -/

section

variable {ω σ : Type}

/-- A machine that stands for surroundings. -/
structure Service (h : Surroundings ω) (m : Machine σ) (slots room : Nat) where
  /-- The states that belong together. -/
  rel : ω → σ → Prop
  /-- What the buffer holds. -/
  slot : σ → Nat → Float
  readVariable {w s i} (hRel : rel w s) (hi : i < slots) :
    Agree (fun x w' y s' => y = x ∧ rel w' s' ∧ ∀ j < room, slot s' j = slot s j) rel
      (h.readVariable i w) (m.readVariable i s)
  writeVariable {w s i} (hRel : rel w s) (hi : i < slots) (x : Float) :
    Agree (fun _ w' _ s' => rel w' s' ∧ ∀ j < room, slot s' j = slot s j) rel
      (h.writeVariable i x w) (m.writeVariable i x s)
  readVariables {w s offset size} (hRel : rel w s)
    (hSpan : offset + size ≤ slots) :
    Agree (fun xs w' ys s' => ys = xs ∧ xs.size = size ∧ rel w' s' ∧
      ∀ j < room, slot s' j = slot s j) rel
      (h.readVariables offset size w) (m.readVariables offset size s)
  writeVariables {w s offset size} (hRel : rel w s)
    (hSpan : offset + size ≤ slots) {xs} (hSize : xs.size = size) :
    Agree (fun _ w' _ s' => rel w' s' ∧ ∀ j < room, slot s' j = slot s j) rel
      (h.writeVariables offset size xs w) (m.writeVariables offset size xs s)
  call {w s} (hRel : rel w s) (function : String) (args : List Float) :
    Agree (fun v w' u s' => u = v ∧ rel w' s' ∧ ∀ j < room, slot s' j = slot s j) rel
      (h.call function args w) (m.call function args s)
  writeSlot {w s i} (hRel : rel w s) (hi : i < room) (x : Float) :
    ∃ s', m.writeSlot i x s = .ok () s' ∧ rel w s' ∧
      ∀ j < room, slot s' j = overwrite (slot s) i [single x] j
  readSlots {w s i size} (hRel : rel w s) (hSpan : i + size ≤ room) :
    ∃ xs : Array Float, m.readSlots i size s = .ok xs s ∧
      xs.toList = (List.range size).map fun j => slot s (i + j)
  writeSlots {w s i size} (hRel : rel w s) (hSpan : i + size ≤ room)
    {xs} (hSize : xs.size = size) :
    ∃ s', m.writeSlots i size xs s = .ok () s' ∧ rel w s' ∧
      ∀ j < room, slot s' j = overwrite (slot s) i xs.toList j

namespace Service

variable {h : Surroundings ω} {m : Machine σ} {slots room : Nat} (S : Service h m slots room)

/-- An activation of a routine belongs to one of its tree, with the given contents of the buffer:
locals below `n` are the same on both sides. -/
structure Tracks (n : Nat) (buffer : Nat → Float) (ta : Activation ω) (ca : Activation σ) :
    Prop where
  world : S.rel ta.world ca.world
  locals : ∀ i < n, ca.locals i = ta.locals i
  slots : ∀ j < room, S.slot ca.world j = buffer j

/-- Wherever they start together, an operation of the tree and one of the routine end alike.  On
success their results and the contents of the buffer are related by `done`. -/
def Leads {α β : Type} (n : Nat) (buffer : Nat → Float) (done : α → β → (Nat → Float) → Prop)
    (x : Act (Activation ω) α) (y : Act (Activation σ) β) : Prop :=
  ∀ ta ca, S.Tracks n buffer ta ca →
    Agree (fun a ta' b ca' => ∃ buffer', done a b buffer' ∧ S.Tracks n buffer' ta' ca')
      (fun ta' ca' => S.rel ta'.world ca'.world) (x ta) (y ca)

/-- Both operations return the same, and the buffer is left alone. -/
abbrev Matches {α : Type} (n : Nat) (buffer : Nat → Float) (x : Act (Activation ω) α)
    (y : Act (Activation σ) α) : Prop :=
  S.Leads n buffer (fun a b buffer' => b = a ∧ buffer' = buffer) x y

variable {S} {α β γ δ : Type} {n : Nat} {buffer : Nat → Float}

namespace Leads

variable {P : α → β → (Nat → Float) → Prop} {x : Act (Activation ω) α} {y : Act (Activation σ) β}
  {index : Nat}

theorem pure {a : α} {b : β} (hDone : P a b buffer) :
    S.Leads n buffer P (Pure.pure a) (Pure.pure b) :=
  fun _ _ hT => .ok ⟨buffer, hDone, hT⟩

theorem bind {Q : γ → δ → (Nat → Float) → Prop} {f : α → Act (Activation ω) γ}
    {g : β → Act (Activation σ) δ} (hFirst : S.Leads n buffer P x y)
    (hNext : ∀ a b buffer', P a b buffer' → S.Leads n buffer' Q (f a) (g b)) :
    S.Leads n buffer Q (x >>= f) (y >>= g) := by
  intro ta ca hT
  refine .bind (hFirst ta ca hT) ?_
  rintro a ta' b ca' ⟨buffer', hDone, hT'⟩
  exact hNext a b buffer' hDone ta' ca' hT'

theorem matches_bind {P : γ → δ → (Nat → Float) → Prop} {y : Act (Activation σ) α}
    {f : α → Act (Activation ω) γ} {g : α → Act (Activation σ) δ} (hFirst : S.Matches n buffer x y)
    (hNext : ∀ a, S.Leads n buffer P (f a) (g a)) :
    S.Leads n buffer P (x >>= f) (y >>= g) := by
  refine bind hFirst ?_
  rintro a b buffer' ⟨rfl, rfl⟩
  exact hNext b

/-- What the tree returns is only put into another form. -/
theorem mapLeft {Q : γ → β → (Nat → Float) → Prop} (hLeads : S.Leads n buffer P x y) {f : α → γ}
    (hDone : ∀ a b buffer', P a b buffer' → Q (f a) b buffer') :
    S.Leads n buffer Q (do let a ← x; return f a) y := by
  have hBind := bind hLeads (f := fun a => Pure.pure (f a)) (g := Pure.pure)
    fun a b buffer' h => pure (hDone a b buffer' h)
  rwa [bind_pure] at hBind

theorem ite {c : Bool} {x' : Act (Activation ω) α} {y' : Act (Activation σ) β}
    (hYes : S.Leads n buffer P x y) (hNo : S.Leads n buffer P x' y') :
    S.Leads n buffer P (if c then x else x') (if c then y else y') := by
  cases c with
  | true => exact hYes
  | false => exact hNo

theorem failure (failure : Failure) : S.Leads n buffer P (throw failure) (throw failure) :=
  fun _ _ hT => .error hT.world

/-- An operation on the world that does the same on both sides and leaves the buffer alone. -/
theorem onWorld {P : α → β → Prop} {f : Act ω α} {g : Act σ β}
    (hWorld : ∀ w s, S.rel w s →
      Agree (fun a w' b s' => P a b ∧ S.rel w' s' ∧ ∀ j < room, S.slot s' j = S.slot s j)
        S.rel (f w) (g s)) :
    S.Leads n buffer (fun a b buffer' => P a b ∧ buffer' = buffer)
      (MolangCompiler.onWorld f) (MolangCompiler.onWorld g) := by
  intro ta ca hT
  have hAgree := hWorld ta.world ca.world hT.world
  simp only [MolangCompiler.onWorld, onPart]
  generalize f ta.world = outF at hAgree
  generalize g ca.world = outG at hAgree
  cases hAgree with
  | ok hDone =>
    obtain ⟨hDone, hRel, hSlots⟩ := hDone
    exact .ok ⟨buffer, ⟨hDone, rfl⟩, hRel, hT.locals, fun j hj => (hSlots j hj).trans
      (hT.slots j hj)⟩
  | error hRel => exact .error hRel

theorem onBuffer {P : α → γ → (Nat → Float) → Prop} {f : Act σ β} {b : β} {buffer' : Nat → Float}
    (hBuffer : ∀ w s, S.rel w s → (∀ j < room, S.slot s j = buffer j) →
      ∃ s', f s = .ok b s' ∧ S.rel w s' ∧ ∀ j < room, S.slot s' j = buffer' j)
    {g : β → Act (Activation σ) γ} (hNext : S.Leads n buffer' P x (g b)) :
    S.Leads n buffer P x (MolangCompiler.onWorld f >>= g) := by
  intro ta ca hT
  obtain ⟨s', hRun, hRel, hSlots⟩ := hBuffer ta.world ca.world hT.world hT.slots
  have hWorld : MolangCompiler.onWorld f ca = .ok b { ca with world := s' } := by
    simp only [MolangCompiler.onWorld, onPart, hRun]
  rw [bind_of_ok hWorld]
  exact hNext ta _ ⟨hRel, hT.locals, hSlots⟩

theorem writeSlot {P : α → γ → (Nat → Float) → Prop} {i : Nat} (hi : i < room) (v : Float)
    {g : Unit → Act (Activation σ) γ} (hNext : S.Leads n (overwrite buffer i [single v]) P x (g ()))
    :
    S.Leads n buffer P x (MolangCompiler.onWorld (m.writeSlot i v) >>= g) := by
  refine onBuffer (fun w s hRel hSlots => ?_) hNext
  obtain ⟨s', hRun, hRel', hWritten⟩ := S.writeSlot hRel hi v
  refine ⟨s', hRun, hRel', fun j hj => (hWritten j hj).trans ?_⟩
  simp only [overwrite, hSlots j hj]

theorem writeSlots {P : α → γ → (Nat → Float) → Prop} {i size : Nat} (hRoom : i + size ≤ room)
    {xs : Array Float} (hSize : xs.size = size) {g : Unit → Act (Activation σ) γ}
    (hNext : S.Leads n (overwrite buffer i xs.toList) P x (g ())) :
    S.Leads n buffer P x (MolangCompiler.onWorld (m.writeSlots i size xs) >>= g) := by
  refine onBuffer (fun w s hRel hSlots => ?_) hNext
  obtain ⟨s', hRun, hRel', hWritten⟩ := S.writeSlots hRel hRoom hSize
  refine ⟨s', hRun, hRel', fun j hj => (hWritten j hj).trans ?_⟩
  simp only [overwrite, hSlots j hj]

theorem readLocal (hIndex : index < n) :
    S.Matches n buffer (MolangCompiler.readLocal index) (MolangCompiler.readLocal index) := by
  intro ta ca hT
  have hSame := hT.locals index hIndex
  cases hLocal : ta.locals index with
  | none =>
    rw [hLocal] at hSame
    rw [readLocal_of_none hLocal, readLocal_of_none hSame]
    exact .error hT.world
  | some x =>
    rw [hLocal] at hSame
    rw [readLocal_of_some hLocal, readLocal_of_some hSame]
    exact .ok ⟨buffer, ⟨rfl, rfl⟩, hT⟩

theorem setLocal (index : Nat) (x : Float) :
    S.Matches n buffer (MolangCompiler.setLocal index x) (MolangCompiler.setLocal index x) := by
  intro ta ca hT
  refine .ok ⟨buffer, ⟨rfl, rfl⟩, hT.world, fun i hi => ?_, hT.slots⟩
  show (if i = index then some x else ca.locals i) = if i = index then some x else ta.locals i
  rw [hT.locals i hi]

theorem setFresh (hIndex : n ≤ index) (v : Float) (hNext : S.Leads n buffer P x y) :
    S.Leads n buffer P x (do MolangCompiler.setLocal index v; y) := by
  intro ta ca hT
  refine hNext ta { ca with locals := fun i => if i = index then some v else ca.locals i }
    ⟨hT.world, fun i hi => ?_, hT.slots⟩
  show (if i = index then some v else ca.locals i) = ta.locals i
  rw [if_neg (by omega), hT.locals i hi]

theorem keep (hIndex : n ≤ index) (x : Float) : S.Matches n buffer (Pure.pure x) (do
      MolangCompiler.setLocal index x
      MolangCompiler.readLocal index) := by
  have hRead : (do MolangCompiler.setLocal index x; MolangCompiler.readLocal index :
      Act (Activation σ) Float) = (do MolangCompiler.setLocal index x; return x) := by
    funext a
    exact readLocal_of_some (by
      show (if index = index then some x else a.locals index) = some x
      rw [if_pos rfl])
  rw [hRead]
  exact setFresh hIndex x (pure ⟨rfl, rfl⟩)

end Leads

end Service

end

end MolangCompiler
