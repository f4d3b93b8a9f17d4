import MolangCompiler.Proofs.Service

/-!
# Arrays as slots

A scratch buffer and a variable store are arrays.  `slotView` reads an array as a function from
slots to numbers; setting a slot, replacing a slice and reading a slice are described through it.
As long as a slice lies within the array and is replaced by as many numbers as it holds, the array
keeps its length.
-/

namespace MolangCompiler

def slotView (xs : Array Float) (j : Nat) : Float := xs[j]?.getD 0

private theorem overwrite_single (buffer : Nat → Float) (i : Nat) (x : Float) (j : Nat) :
    overwrite buffer i [x] j = if j = i then x else buffer j := by
  simp only [overwrite, List.length_singleton]
  by_cases h : j = i
  · rw [if_pos h, if_pos (by omega), h, Nat.sub_self]
    rfl
  · rw [if_neg h, if_neg (by omega)]

variable {xs ys : Array Float} {i j size : Nat}

theorem setSlot?_eq_some (h : i < xs.size) (x : Float) :
    setSlot? xs i x = some (xs.setIfInBounds i (single x)) := by
  simp only [setSlot?, if_pos h]

theorem getElem?_of_setSlot? {x : Float} (h : setSlot? xs i x = some ys) (hj : i ≠ j) :
    ys[j]? = xs[j]? := by
  unfold setSlot? at h
  split at h
  · cases h
    exact Array.getElem?_setIfInBounds_ne hj
  · cases h

theorem slotView_setIfInBounds (h : i < xs.size) (x : Float) :
    slotView (xs.setIfInBounds i x) = overwrite (slotView xs) i [x] := by
  funext j
  rw [overwrite_single]
  simp only [slotView]
  by_cases hj : j = i
  · rw [if_pos hj, hj, Array.getElem?_setIfInBounds_self_of_lt h]
    rfl
  · rw [if_neg hj, Array.getElem?_setIfInBounds_ne (.symm hj)]

theorem size_splice (hSpan : i + size ≤ xs.size) (hSize : ys.size = size) :
    (splice xs i (i + size) ys).size = xs.size := by
  simp only [splice, Array.size_append, Array.size_extract, hSize]
  omega

/-- The numbers after a slice was replaced: those before it, the new ones, and those behind it. -/
theorem getElem?_splice (xs ys : Array Float) (i size j : Nat) :
    (splice xs i (i + size) ys)[j]? =
      if j < min i xs.size then xs[j]?
      else if j < min i xs.size + ys.size then ys[j - min i xs.size]?
      else xs[i + size + (j - (min i xs.size + ys.size))]? := by
  have hLeft : (xs.extract 0 i).size = min i xs.size := by
    rw [Array.size_extract]
    omega
  have hMax : max i (i + size) = i + size := by omega
  unfold splice
  rw [Array.getElem?_append, Array.getElem?_append, Array.size_append, hLeft, hMax]
  by_cases hBefore : j < min i xs.size
  · rw [if_pos hBefore, if_pos hBefore, if_pos (by omega), Array.getElem?_extract,
      if_pos (by omega), Nat.zero_add]
  · rw [if_neg hBefore, if_neg hBefore]
    by_cases hWithin : j < min i xs.size + ys.size
    · rw [if_pos hWithin, if_pos hWithin]
    · rw [if_neg hWithin, if_neg hWithin, Array.getElem?_extract]
      by_cases hThere : i + size + (j - (min i xs.size + ys.size)) < xs.size
      · rw [if_pos (by omega)]
      · rw [if_neg (by omega), Array.getElem?_eq_none (by omega)]

theorem getElem?_splice_inside (hSpan : i + size ≤ xs.size) (hSize : ys.size = size) (hLow : i ≤ j)
    (hHigh : j < i + size) :
    (splice xs i (i + size) ys)[j]? = ys[j - i]? := by
  have hMin : min i xs.size = i := by omega
  rw [getElem?_splice, hMin, hSize, if_neg (Nat.not_lt.mpr hLow), if_pos hHigh]

theorem getElem?_splice_outside (hSpan : i + size ≤ xs.size) (hSize : ys.size = size)
    (hj : j < i ∨ i + size ≤ j) :
    (splice xs i (i + size) ys)[j]? = xs[j]? := by
  have hMin : min i xs.size = i := by omega
  rw [getElem?_splice, hMin, hSize]
  rcases hj with hBefore | hBehind
  · rw [if_pos hBefore]
  · have hSame : i + size + (j - (i + size)) = j := by omega
    rw [if_neg (by omega), if_neg (by omega), hSame]

/-- A slice that is replaced by as many numbers as were asked for leaves the array no shorter, even
if it reaches behind the end. -/
theorem size_le_splice (hSize : ys.size = size) : xs.size ≤ (splice xs i (i + size) ys).size := by
  simp only [splice, Array.size_append, Array.size_extract, hSize]
  omega

theorem slotView_splice (hSpan : i + size ≤ xs.size) (hSize : ys.size = size) :
    slotView (splice xs i (i + size) ys) = overwrite (slotView xs) i ys.toList := by
  funext j
  have hMin : min i xs.size = i := by omega
  simp only [slotView, overwrite, getElem?_splice, Array.length_toList, hSize, hMin]
  by_cases hWithin : i ≤ j ∧ j < i + size
  · rw [if_pos hWithin, if_neg (by omega), if_pos hWithin.2, Array.getElem?_toList]
  · rw [if_neg hWithin]
    by_cases hBefore : j < i
    · rw [if_pos hBefore]
    · have hBehind : i + size + (j - (i + size)) = j := by omega
      rw [if_neg hBefore, if_neg (by omega), hBehind]

theorem toList_slice (xs : Array Float) (i size : Nat) (hSpan : i + size ≤ xs.size) :
    (slice xs i (i + size)).toList = (List.range size).map fun j => slotView xs (i + j) := by
  refine List.ext_getElem ?_ fun j hj hj' => ?_
  · simp only [slice, Array.length_toList, Array.size_extract, List.length_map, List.length_range]
    omega
  · have hLt : i + j < xs.size := by
      simp only [List.length_map, List.length_range] at hj'
      omega
    simp only [slice, Array.getElem_toList, Array.getElem_extract, List.getElem_map,
      List.getElem_range, slotView, Array.getElem?_eq_getElem hLt]
    rfl

theorem size_slice (hSpan : i + size ≤ xs.size) : (slice xs i (i + size)).size = size := by
  simp only [slice, Array.size_extract]
  omega

end MolangCompiler
