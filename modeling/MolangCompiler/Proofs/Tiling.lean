import Mathlib.Algebra.Order.Ring.Int
import Mathlib.Data.List.Nodup
import MolangCompiler.Namespace

/-!
# Variables lie side by side

The variables of a namespace tile its store: in the order of their creation each of them starts
where the one before it stops.  Behind the last one the store holds zeros, at least one if the store
was ever lengthened (`Namespace.Sound`).

Making variables only adds: `Namespace.Extends` says that the variables and the values that were
there are still there.  Setting values leaves the variables alone but not the values:
`Namespace.Grows` says what is left then.
-/

namespace MolangCompiler

/-! ## Tiles -/

/-- Variables that lie one behind the other from a slot on. -/
def Tiles : Nat → List Variable → Prop
  | _, [] => True
  | start, v :: rest => v.offset = start ∧ Tiles v.stop rest

/-- The slot behind the last of several variables, or the given one if there is none. -/
def slotBehind (start : Nat) (vs : List Variable) : Nat := (vs.getLast?.map (·.stop)).getD start

private theorem slotBehind_cons (start : Nat) (v : Variable) (rest : List Variable) :
    slotBehind start (v :: rest) = slotBehind v.stop rest := by
  unfold slotBehind
  rw [List.getLast?_cons]
  cases rest.getLast? with
  | none | some => rfl

private theorem slotBehind_snoc (start : Nat) (vs : List Variable) (v : Variable) :
    slotBehind start (vs ++ [v]) = v.stop := by
  unfold slotBehind
  rw [List.getLast?_append, List.getLast?_singleton]
  rfl

namespace Tiles

/-- **The slot behind tiles** is as far as all of them together are long. -/
theorem behind_eq (vs : List Variable) :
    ∀ {start : Nat}, Tiles start vs → slotBehind start vs = start + (vs.map (·.size)).sum := by
  induction vs with
  | nil => exact fun _ => rfl
  | cons v rest ih =>
    intro start h
    rw [slotBehind_cons, ih h.2, List.map_cons, List.sum_cons, Variable.stop, h.1]
    omega

theorem start_le (vs : List Variable) {start : Nat} (h : Tiles start vs) :
    start ≤ slotBehind start vs := by
  rw [behind_eq vs h]
  omega

theorem mem_bounds (vs : List Variable) :
    ∀ {start : Nat}, Tiles start vs → ∀ v ∈ vs, start ≤ v.offset ∧
      v.stop ≤ slotBehind start vs := by
  induction vs with
  | nil => exact fun _ => List.forall_mem_nil _
  | cons u rest ih =>
    intro start h v hv
    rw [slotBehind_cons]
    have hBehind := start_le rest h.2
    rcases List.mem_cons.mp hv with rfl | hv
    · exact ⟨Nat.le_of_eq h.1.symm, hBehind⟩
    · have hRest := ih h.2 v hv
      have hStart := h.1
      unfold Variable.stop at hRest
      exact ⟨by omega, hRest.2⟩

theorem of_append (us : List Variable) {vs : List Variable} :
    ∀ {start : Nat}, Tiles start (us ++ vs) → Tiles (slotBehind start us) vs := by
  induction us with
  | nil => exact fun h => h
  | cons u rest ih =>
    intro start h
    rw [slotBehind_cons]
    exact ih h.2

theorem snoc (vs : List Variable) {v : Variable} :
    ∀ {start : Nat}, Tiles start vs → v.offset = slotBehind start vs → Tiles start (vs ++ [v]) := by
  induction vs with
  | nil => exact fun _ hPlace => ⟨hPlace, trivial⟩
  | cons u rest ih =>
    intro start h hPlace
    rw [slotBehind_cons] at hPlace
    exact ⟨h.1, ih h.2 hPlace⟩

end Tiles

/-! ## Namespaces -/

variable {ns' : Namespace}

namespace Namespace

/-- **The layout of a namespace.**  Its variables tile the store up to the cursor, have distinct
names and as many values as their names announce, at least one; the cursor lies within the store
unless the store is still empty; and the store holds zeros from the cursor on. -/
structure Sound (ns : Namespace) : Prop where
  tiled : Tiles 0 ns.records
  distinct : (ns.records.map (·.name)).Nodup
  sized : ∀ v ∈ ns.records, 1 ≤ v.size ∧ (encodedSize? v.name).getD 1 = v.size
  room : ns.cursor < ns.store.size ∨ (ns.records = [] ∧ ns.store = #[])
  zeros : ∀ j, ns.cursor ≤ j → j < ns.store.size → ns.store[j]? = some 0

/-- A namespace to which variables were added: the values that were there are still there, and what
the store was lengthened by is zeros. -/
structure Extends (ns ns' : Namespace) : Prop where
  records : ns.records <+: ns'.records
  cursor : ns.cursor ≤ ns'.cursor
  store : ns.store.toList <+: ns'.store.toList
  added : ∀ j, ns.store.size ≤ j → j < ns'.store.size → ns'.store[j]? = some 0

/-- A namespace to which variables were added and whose values may have been set. -/
structure Grows (ns ns' : Namespace) : Prop where
  records : ns.records <+: ns'.records
  cursor : ns.cursor ≤ ns'.cursor
  size : ns.store.size ≤ ns'.store.size

variable {ns : Namespace}

theorem Extends.getElem?_eq (h : ns.Extends ns') {j : Nat} (hj : j < ns.store.size) :
    ns'.store[j]? = ns.store[j]? := by
  rw [← Array.getElem?_toList, ← Array.getElem?_toList]
  exact (List.prefix_iff_getElem?.mp h.store j hj).trans (List.getElem?_eq_getElem hj).symm

theorem Extends.refl (ns : Namespace) : ns.Extends ns where
  records := List.prefix_rfl
  cursor := Nat.le_refl _
  store := List.prefix_rfl
  added _ hLow hHigh := absurd hHigh (Nat.not_lt.mpr hLow)

theorem Extends.trans {ns₁ ns₂ ns₃ : Namespace} (h : ns₁.Extends ns₂) (h' : ns₂.Extends ns₃) :
    ns₁.Extends ns₃ where
  records := h.records.trans h'.records
  cursor := Nat.le_trans h.cursor h'.cursor
  store := h.store.trans h'.store
  added j hLow hHigh := by
    by_cases hj : j < ns₂.store.size
    · exact (h'.getElem?_eq hj).trans (h.added j hLow hj)
    · exact h'.added j (Nat.not_lt.mp hj) hHigh

theorem Grows.refl (ns : Namespace) : ns.Grows ns :=
  ⟨List.prefix_rfl, Nat.le_refl _, Nat.le_refl _⟩

theorem Grows.trans {ns₁ ns₂ ns₃ : Namespace} (h : ns₁.Grows ns₂) (h' : ns₂.Grows ns₃) :
    ns₁.Grows ns₃ :=
  ⟨h.records.trans h'.records, Nat.le_trans h.cursor h'.cursor, Nat.le_trans h.size h'.size⟩

theorem Extends.grows (h : ns.Extends ns') : ns.Grows ns' :=
  ⟨h.records, h.cursor, h.store.length_le⟩

theorem sound_empty : empty.Sound where
  tiled := trivial
  distinct := .nil
  sized _ hv := absurd hv List.not_mem_nil
  room := .inr ⟨rfl, rfl⟩
  zeros _ _ hj := absurd hj (Nat.not_lt_zero _)

theorem read_zeros {v : Variable} (hStop : v.stop ≤ ns.store.size)
    (hZeros : ∀ j, v.offset ≤ j → j < v.stop → ns.store[j]? = some 0) :
    ns.read v = List.replicate v.size 0 := by
  unfold Variable.stop at hStop hZeros
  refine List.ext_getElem? fun j => ?_
  rw [read, Array.getElem?_toList, Array.getElem?_extract, List.getElem?_replicate,
    Variable.stop, Nat.min_eq_left hStop]
  by_cases hj : j < v.size
  · rw [if_pos (by omega), if_pos hj]
    exact hZeros _ (by omega) (by omega)
  · rw [if_neg (by omega), if_neg hj]

namespace Sound

variable {ns : Namespace}

theorem cursor_eq (h : ns.Sound) : ns.cursor = (ns.records.map (·.size)).sum :=
  (Tiles.behind_eq ns.records h.tiled).trans (Nat.zero_add _)

variable {v : Variable}

theorem stop_le (h : ns.Sound) (hv : v ∈ ns.records) : v.stop ≤ ns.cursor :=
  (Tiles.mem_bounds ns.records h.tiled v hv).2

theorem cursor_le (h : ns.Sound) : ns.cursor ≤ ns.store.size := by
  rcases h.room with hLt | ⟨hRecords, -⟩
  · exact Nat.le_of_lt hLt
  · have hZero : ns.cursor = 0 := by rw [cursor, hRecords]; rfl
    omega

theorem stop_le_size (h : ns.Sound) (hv : v ∈ ns.records) :
    v.stop ≤ ns.store.size := Nat.le_trans (h.stop_le hv) h.cursor_le

/-- **Variables that were added** hold zeros. -/
theorem read_added (h : ns.Sound) (h' : ns'.Sound) (hExtends : ns.Extends ns')
    (hv : v ∈ ns'.records) (hNew : v ∉ ns.records) :
    ns'.read v = List.replicate v.size 0 := by
  obtain ⟨added, hAdded⟩ := hExtends.records
  have hPlace : ns.cursor ≤ v.offset := by
    have hTiled := h'.tiled
    rw [← hAdded] at hTiled hv
    have hMem := (List.mem_append.mp hv).resolve_left hNew
    exact (Tiles.mem_bounds added (.of_append ns.records hTiled) v hMem).1
  refine read_zeros (h'.stop_le_size hv) fun j hLow hHigh => ?_
  by_cases hj : j < ns.store.size
  · exact (hExtends.getElem?_eq hj).trans (h.zeros j (Nat.le_trans hPlace hLow) hj)
  · exact hExtends.added j (Nat.not_lt.mp hj) (Nat.lt_of_lt_of_le hHigh (h'.stop_le_size hv))

/-- **Lengthening the store** by zeros. -/
theorem lengthen (h : ns.Sound) (count : Nat) :
    Sound { ns with store := ns.store ++ Array.replicate count 0 } where
  tiled := h.tiled
  distinct := h.distinct
  sized := h.sized
  room := by
    show ns.cursor < (ns.store ++ Array.replicate count 0).size ∨ _
    rw [Array.size_append, Array.size_replicate]
    rcases h.room with hLt | ⟨hRecords, hStore⟩
    · exact .inl (by omega)
    · cases count with
      | zero => exact .inr ⟨hRecords, by simp [hStore]⟩
      | succ count =>
        have hZero : ns.cursor = 0 := by rw [cursor, hRecords]; rfl
        exact .inl (by omega)
  zeros j hLow hHigh := by
    rw [Array.size_append, Array.size_replicate] at hHigh
    rw [Array.getElem?_append]
    by_cases hOld : j < ns.store.size
    · rw [if_pos hOld]
      exact h.zeros j hLow hOld
    · rw [if_neg hOld, Array.getElem?_replicate, if_pos (by omega)]

/-- **Publishing a variable** at the cursor, once the store reaches behind it. -/
theorem publish (h : ns.Sound) (hPlace : v.offset = ns.cursor) (hSize : 1 ≤ v.size)
    (hNamed : (encodedSize? v.name).getD 1 = v.size) (hNew : ns.get? v.name = none)
    (hRoom : v.stop < ns.store.size) : Sound { ns with records := ns.records ++ [v] } where
  tiled := .snoc ns.records h.tiled hPlace
  distinct := by
    rw [List.map_append]
    refine List.Nodup.append h.distinct (List.nodup_singleton _) fun name hOld hHere => ?_
    obtain ⟨u, hu, hName⟩ := List.mem_map.mp hOld
    have hSame : u.name = v.name := hName.trans (List.mem_singleton.mp hHere)
    exact absurd (beq_iff_eq.mpr hSame) (List.find?_eq_none.mp hNew u hu)
  sized u hu := by
    rcases List.mem_append.mp hu with hOld | hHere
    · exact h.sized u hOld
    · rw [List.mem_singleton.mp hHere]
      exact ⟨hSize, hNamed⟩
  room := by
    refine .inl ?_
    show slotBehind 0 (ns.records ++ [v]) < ns.store.size
    rw [slotBehind_snoc]
    exact hRoom
  zeros j hLow hHigh := by
    change slotBehind 0 (ns.records ++ [v]) ≤ j at hLow
    rw [slotBehind_snoc, Variable.stop] at hLow
    exact h.zeros j (by omega) hHigh

/-- **Setting values below the cursor.** -/
theorem setStore (h : ns.Sound) {xs : Array Float} (hSize : xs.size = ns.store.size)
    (hSame : ∀ j, ns.cursor ≤ j → xs[j]? = ns.store[j]?) : Sound { ns with store := xs } where
  tiled := h.tiled
  distinct := h.distinct
  sized := h.sized
  room := by
    rw [hSize]
    refine h.room.imp id fun hEmpty => ⟨hEmpty.1, Array.eq_empty_of_size_eq_zero ?_⟩
    rw [hSize, hEmpty.2]
    rfl
  zeros j hLow hHigh := by
    rw [hSize] at hHigh
    exact (hSame j hLow).trans (h.zeros j hLow hHigh)

end Sound

/-! ## Making a variable -/

def lengthen (slots : Nat) (ns : Namespace) : Namespace :=
  { ns with store := ns.store ++ Array.replicate slots 0 }

def publish (v : Variable) (ns : Namespace) : Namespace :=
  { ns with records := ns.records ++ [v] }

theorem lengthen_zero (ns : Namespace) : ns.lengthen 0 = ns := by
  simp [lengthen]

theorem size_lengthen (ns : Namespace) (slots : Nat) :
    (ns.lengthen slots).store.size = ns.store.size + slots := by
  simp [lengthen]

/-- What obtaining a variable comes to: it is there, or it is published behind the others, where the
store reaches beyond it. -/
inductive Obtains (ns : Namespace) (name : String) (size : Int) : Variable → Namespace → Prop
  | old {v : Variable} (found : ns.get? name = some v) (same : v.size = size) :
      Obtains ns name size v ns
  | new {v : Variable} {slots : Nat} (missing : ns.get? name = none)
      (fine : sizeProblem? name size = none) (made : v = ⟨name, size.toNat, ns.cursor⟩)
      (room : v.stop < ns.store.size + slots) :
      Obtains ns name size v ((ns.lengthen slots).publish v)

theorem extends_lengthen (ns : Namespace) (count : Nat) :
    ns.Extends { ns with store := ns.store ++ Array.replicate count 0 } where
  records := List.prefix_rfl
  cursor := Nat.le_refl _
  store := by
    rw [Array.toList_append]
    exact List.prefix_append _ _
  added j hLow hHigh := by
    rw [Array.size_append, Array.size_replicate] at hHigh
    rw [Array.getElem?_append, if_neg (Nat.not_lt.mpr hLow), Array.getElem?_replicate,
      if_pos (by omega)]

variable {v : Variable} {name : String} {ns : Namespace}

theorem extends_publish (ns : Namespace) (hPlace : v.offset = ns.cursor) :
    ns.Extends { ns with records := ns.records ++ [v] } where
  records := List.prefix_append _ _
  cursor := by
    show ns.cursor ≤ slotBehind 0 (ns.records ++ [v])
    rw [slotBehind_snoc, Variable.stop, hPlace]
    omega
  store := List.prefix_rfl
  added _ hLow hHigh := absurd hHigh (Nat.not_lt.mpr hLow)

theorem size_of_no_problem {size : Int} (h : sizeProblem? name size = none) :
    0 < size ∧ ((encodedSize? name).getD 1 : Int) = size := by
  unfold sizeProblem? at h
  dsimp only at h
  split at h
  · cases h
  · rename_i hPositive
    split at h
    · cases h
    · rename_i hSame
      exact ⟨Int.not_le.mp hPositive, Decidable.not_not.mp hSame⟩

/-! ## Looking variables up -/

theorem mem_of_get? (h : ns.get? name = some v) : v ∈ ns.records :=
  List.mem_of_find?_eq_some h

theorem mem_of_find? (h : ns.find? name = some v) : v ∈ ns.records := by
  unfold find? at h
  cases hExact : ns.get? name with
  | some v' =>
    rw [hExact, Option.some_or] at h
    cases h
    exact mem_of_get? hExact
  | none =>
    rw [hExact, Option.none_or] at h
    exact List.mem_of_find?_eq_some h

/-- Writing values changes neither the variables, nor the length of the store, nor the slots before
and behind those that are written. -/
theorem write_eq (ns : Namespace) (slot : Nat) (xs : List Float) :
    (ns.write slot xs).records = ns.records ∧
      (ns.write slot xs).store.size = ns.store.size ∧
      ∀ j, j < slot ∨ slot + xs.length ≤ j → (ns.write slot xs).store[j]? = ns.store[j]? := by
  induction xs generalizing ns slot with
  | nil => exact ⟨rfl, rfl, fun _ _ => rfl⟩
  | cons x xs ih =>
    obtain ⟨hRecords, hSize, hSame⟩ :=
      ih { ns with store := ns.store.setIfInBounds slot (single x) } (slot + 1)
    refine ⟨hRecords, hSize.trans (by rw [Array.size_setIfInBounds]), fun j hj => ?_⟩
    rw [List.length_cons] at hj
    have hOther : slot ≠ j := by omega
    refine (hSame j (by omega)).trans ?_
    exact Array.getElem?_setIfInBounds_ne hOther

theorem Sound.write (h : ns.Sound) (hv : v ∈ ns.records) {xs : List Float}
    (hLength : xs.length = v.size) : (ns.write v.offset xs).Sound := by
  obtain ⟨hRecords, hSize, hSame⟩ := ns.write_eq v.offset xs
  have hStop := h.stop_le hv
  unfold Variable.stop at hStop
  have hStore : Sound { ns with store := (ns.write v.offset xs).store } :=
    h.setStore hSize fun j hj => hSame j (.inr (by omega))
  have hEq : ns.write v.offset xs = { ns with store := (ns.write v.offset xs).store } := by
    rw [← hRecords]
  rw [hEq]
  exact hStore

theorem grows_write (ns : Namespace) (slot : Nat) (xs : List Float) :
    ns.Grows (ns.write slot xs) := by
  obtain ⟨hRecords, hSize, -⟩ := ns.write_eq slot xs
  refine ⟨hRecords.symm ▸ List.prefix_rfl, Nat.le_of_eq ?_, Nat.le_of_eq hSize.symm⟩
  unfold cursor
  rw [hRecords]

end Namespace

end MolangCompiler
