import MolangCompiler.Proofs.Mirror
import MolangCompiler.Proofs.Slots

/-!
# Two machines with arrays

Two machines that keep their variables and their scratch buffer in arrays mirror each other for a
routine that keeps to its limits if their stores agree on the slots that it may reach and their
buffers on the slots that it has written.  `Slots.Paired` says what is needed of a relation between
states for that: it makes the arrays agree, and it outlasts changes of the arrays that agree again.
-/

namespace MolangCompiler

/-! ## Arrays that agree -/

def SameOn (D : Nat → Prop) (xs ys : Array Float) : Prop := ∀ j, D j → xs[j]? = ys[j]?

namespace SameOn

variable {D : Nat → Prop} {xs ys zs : Array Float} {i size : Nat}

theorem mono {D' : Nat → Prop} (h : SameOn D xs ys) (hLe : ∀ j, D' j → D j) : SameOn D' xs ys :=
  fun j hj => h j (hLe j hj)

theorem setSlot (h : SameOn D xs ys) (hx : i < xs.size) (hy : i < ys.size) (x : Float) :
    SameOn (withSlots i 1 D) (xs.setIfInBounds i x) (ys.setIfInBounds i x) := by
  intro j hj
  by_cases hSame : i = j
  · rw [← hSame, Array.getElem?_setIfInBounds_self_of_lt hx,
      Array.getElem?_setIfInBounds_self_of_lt hy]
  · rw [Array.getElem?_setIfInBounds_ne hSame, Array.getElem?_setIfInBounds_ne hSame]
    exact h j (hj.resolve_left (by omega))

theorem splice (h : SameOn D xs ys) (hx : i + size ≤ xs.size) (hy : i + size ≤ ys.size)
    (hSize : zs.size = size) :
    SameOn (withSlots i size D) (splice xs i (i + size) zs) (splice ys i (i + size) zs) := by
  intro j hj
  by_cases hIn : i ≤ j ∧ j < i + size
  · rw [getElem?_splice_inside hx hSize hIn.1 hIn.2, getElem?_splice_inside hy hSize hIn.1 hIn.2]
  · rw [getElem?_splice_outside hx hSize (by omega), getElem?_splice_outside hy hSize (by omega)]
    exact h j (hj.resolve_left hIn)

theorem slice (h : SameOn D xs ys) (hSlots : ∀ j, i ≤ j → j < i + size → D j)
    (hx : i + size ≤ xs.size) (hy : i + size ≤ ys.size) :
    slice xs i (i + size) = slice ys i (i + size) := by
  refine Array.ext_getElem? fun j => ?_
  unfold MolangCompiler.slice
  rw [Array.getElem?_extract, Array.getElem?_extract, Nat.min_eq_left hx, Nat.min_eq_left hy]
  by_cases hj : j < size
  · rw [if_pos (by omega), if_pos (by omega)]
    exact h _ (hSlots _ (by omega) (by omega))
  · rw [if_neg (by omega), if_neg (by omega)]

end SameOn

/-- An array is changed below a slot only, and keeps its length. -/
structure ChangedBelow (n : Nat) (xs ys : Array Float) : Prop where
  size : ys.size = xs.size
  above : ∀ j, n ≤ j → ys[j]? = xs[j]?

private theorem changedBelow_setSlot {xs : Array Float} {i n : Nat} (hSlot : i < n) (x : Float) :
    ChangedBelow n xs (xs.setIfInBounds i x) :=
  ⟨Array.size_setIfInBounds, fun _ hj => Array.getElem?_setIfInBounds_ne (by omega)⟩

private theorem changedBelow_splice {xs ys : Array Float} {i size n : Nat} (hSpan : i + size ≤ n)
    (hSize : ys.size = size) (hx : n ≤ xs.size) : ChangedBelow n xs (splice xs i (i + size) ys) :=
  ⟨size_splice (by omega) hSize, fun _ hj => getElem?_splice_outside (by omega) hSize (by omega)⟩

/-! ## Machines with arrays -/

section

variable {σ τ : Type}

/-- States whose stores agree below `slots`, and whose buffers agree on the slots below `room` that
have been written, in a way that outlasts changes that agree. -/
structure Slots.Paired (store scratch : Slots σ) (store' scratch' : Slots τ) (room slots : Nat)
    (R : (Nat → Prop) → σ → τ → Prop) : Prop where
  weaken {W W' s t} (hLe : ∀ j, W' j → W j) (h : R W s t) : R W' s t
  stored {W s t} (h : R W s t) : slots ≤ (store.get s).size ∧ slots ≤ (store'.get t).size
  stores {W s t} (h : R W s t) : SameOn (· < slots) (store.get s) (store'.get t)
  roomy {W s t} (h : R W s t) : room ≤ (scratch.get s).size ∧ room ≤ (scratch'.get t).size
  buffers {W s t} (h : R W s t) : SameOn (fun j => j < room ∧ W j) (scratch.get s) (scratch'.get t)
  putStore {W s t} (h : R W s t) {xs ys}
    (hx : ChangedBelow slots (store.get s) xs) (hy : ChangedBelow slots (store'.get t) ys)
    (hSame : SameOn (· < slots) xs ys) : R W (store.put xs s) (store'.put ys t)
  putBuffer {W W' s t} (h : R W s t) {xs ys}
    (hx : ChangedBelow room (scratch.get s) xs) (hy : ChangedBelow room (scratch'.get t) ys)
    (hSame : SameOn (fun j => j < room ∧ W' j) xs ys) : R W' (scratch.put xs s) (scratch'.put ys t)

variable {store scratch : Slots σ} {store' scratch' : Slots τ} {room slots : Nat}
  {R : (Nat → Prop) → σ → τ → Prop} {F : σ → τ → Prop}

/-- **Machines with paired arrays mirror each other** for routines that keep to their limits. -/
theorem Machine.ofSlots_mirrors (P : Slots.Paired store scratch store' scratch' room slots R)
    (k : Callable) (returns : Nat) (hFailed : ∀ {W s t}, R W s t → F s t)
    (acquire : Nat → Act σ Unit)
    (acquire' : Nat → Act τ Unit) {call : String → List Float → Act σ HostValue}
    {call' : String → List Float → Act τ HostValue}
    (hCall : ∀ (f : String) (xs : List Float) {W s t}, R W s t →
      Agree (fun v s' u t' => u = v ∧ R W s' t') F (call f xs s) (call' f xs t)) :
    (ofSlots store scratch acquire call).Mirrors
      (ofSlots store' scratch' acquire' call') (.strict k room slots returns) R F where
  weaken := P.weaken
  readVariable {W s t slot} hSlot h := by
    show Agree _ _ (store.read slot s) (store'.read slot t)
    unfold Slots.read
    rw [← P.stores h slot hSlot]
    cases (store.get s)[slot]? with
    | some x => exact .ok ⟨rfl, h⟩
    | none => exact .error (hFailed h)
  writeVariable {W s t slot} hSlot x h := by
    change slot < slots at hSlot
    obtain ⟨hx, hy⟩ := P.stored h
    have hInX : slot < (store.get s).size := by omega
    have hInY : slot < (store'.get t).size := by omega
    show Agree _ _ (store.write slot x s) (store'.write slot x t)
    unfold Slots.write
    rw [setSlot?_eq_some hInX, setSlot?_eq_some hInY]
    exact .ok (P.putStore h (changedBelow_setSlot hSlot _) (changedBelow_setSlot hSlot _)
      (((P.stores h).setSlot hInX hInY _).mono fun _ hj => .inr hj))
  call _ f xs h := hCall f xs h
  writeSlot {W s t slot} hSlot x h := by
    obtain ⟨first, size, ⟨hLow, hHigh⟩, hFrom, hTo⟩ := hSlot
    have hSlot : slot < room := by omega
    obtain ⟨hx, hy⟩ := P.roomy h
    have hInX : slot < (scratch.get s).size := by omega
    have hInY : slot < (scratch'.get t).size := by omega
    show Agree _ _ (scratch.write slot x s) (scratch'.write slot x t)
    unfold Slots.write
    rw [setSlot?_eq_some hInX, setSlot?_eq_some hInY]
    refine .ok (P.putBuffer h (changedBelow_setSlot hSlot _) (changedBelow_setSlot hSlot _) ?_)
    exact ((P.buffers h).setSlot hInX hInY _).mono fun j hj => hj.2.imp id fun hW => ⟨hj.1, hW⟩
  load {W s t slot offset size} hSlot hSpan h := by
    obtain ⟨hLow, hHigh⟩ : 0 ≤ slot ∧ slot + size ≤ room := hSlot
    change offset + size ≤ slots at hSpan
    obtain ⟨hx, hy⟩ := P.stored h
    obtain ⟨hx', hy'⟩ := P.roomy h
    have hRead : slice (store.get s) offset (offset + size) =
        slice (store'.get t) offset (offset + size) :=
      (P.stores h).slice (fun j _ hj => Nat.lt_of_lt_of_le hj hSpan) (by omega) (by omega)
    have hSize : (slice (store'.get t) offset (offset + size)).size = size := size_slice (by omega)
    show Agree _ _
      (scratch.writeMany slot.toNat size (slice (store.get s) offset (offset + size)) s)
      (scratch'.writeMany slot.toNat size (slice (store'.get t) offset (offset + size)) t)
    rw [hRead]
    refine .ok (P.putBuffer h (changedBelow_splice (by omega) hSize hx')
      (changedBelow_splice (by omega) hSize hy') ?_)
    exact ((P.buffers h).splice (by omega) (by omega) hSize).mono
      fun j hj => hj.2.imp id fun hW => ⟨hj.1, hW⟩
  store {W s t slot offset size} hSpan hSlot hWritten h := by
    obtain ⟨hLow, hHigh⟩ : 0 ≤ slot ∧ slot + size ≤ room := hSlot
    change offset + size ≤ slots at hSpan
    obtain ⟨hx, hy⟩ := P.stored h
    obtain ⟨hx', hy'⟩ := P.roomy h
    have hRead : slice (scratch.get s) slot.toNat (slot.toNat + size) =
        slice (scratch'.get t) slot.toNat (slot.toNat + size) :=
      (P.buffers h).slice (fun j hFrom hTo => ⟨by omega, hWritten j hFrom hTo⟩) (by omega)
      (by omega)
    have hSize : (slice (scratch'.get t) slot.toNat (slot.toNat + size)).size = size :=
      size_slice (by omega)
    show Agree _ _
      (store.writeMany offset size (slice (scratch.get s) slot.toNat (slot.toNat + size)) s)
      (store'.writeMany offset size (slice (scratch'.get t) slot.toNat (slot.toNat + size)) t)
    rw [hRead]
    refine .ok (P.putStore h (changedBelow_splice hSpan hSize hx)
      (changedBelow_splice hSpan hSize hy) ?_)
    exact ((P.stores h).splice (by omega) (by omega) hSize).mono fun _ hj => .inr hj

end

end MolangCompiler
