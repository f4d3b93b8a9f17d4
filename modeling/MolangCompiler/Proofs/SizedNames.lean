import MolangCompiler.Proofs.Widths

/-!
# Names with sizes

A variable of several values is kept under its name with their number in front.  Both can be read
off what is kept: the name is what follows the first dollar sign, since a name that is asked for has
none of its own, and the size is the number before it, since decimal digits are read as they were
written.  So a lookup that scans all variables for a name finds the one that was made for it,
however the other variables are spelled.

The numeral of a size may be too long.  It has no name then, and no variable is made.
-/

namespace MolangCompiler

private theorem toString_injective {m n : Nat} (h : toString (m : Int) = toString (n : Int)) :
    m = n := by
  have hDigits : Nat.toDigits 10 m = Nat.toDigits 10 n :=
    Nat.toList_repr.symm.trans ((congrArg String.toList h).trans Nat.toList_repr)
  rw [← Nat.ofDigitChars_ten_toDigits (n := m), hDigits, Nat.ofDigitChars_ten_toDigits]

/-- **Names with sizes differ** if the names or the sizes differ. -/
theorem sizedName_injective {base base' : String} {size size' : Nat} (hPlain : '$' ∉ base.toList)
    (hSome : base ≠ "") (hPlain' : '$' ∉ base'.toList) (hSome' : base' ≠ "")
    (h : sizedName base size = sizedName base' size') : base = base' ∧ size = size' := by
  have hBase : base = base' := by
    have hFirst : baseName (sizedName base size) = base := baseName_sizedName hPlain hSome
    rw [← hFirst, h, baseName_sizedName hPlain' hSome']
  subst hBase
  -- a name that is kept without a size is no name that is kept with one
  have hSized {n : Nat} (hMany : n ≠ 1) : sizedName base n ≠ base := by
    intro hSame
    refine hPlain ?_
    rw [← hSame, sizedName, if_neg (by omega)]
    simp
  refine ⟨rfl, ?_⟩
  by_cases hOne : size = 1
  · subst hOne
    by_contra hOther
    exact hSized (.symm hOther) h.symm
  · by_cases hOne' : size' = 1
    · subst hOne'
      exact absurd h (hSized hOne)
    · rw [sizedName, sizedName, if_neg (by omega), if_neg (by omega), String.append_left_inj,
        String.append_left_inj] at h
      exact toString_injective h

/-- **Sizes in names are faithful.**  The size and the name can be read off a name with a size, and
no two names with sizes are the same.  If a name stands for no variable, then the one that is asked
for with its size in front passes the check of its size, and the name stands for it as soon as it is
made; nothing but a refusal of its bytes prevents that.  If the numeral of the size is too long, it
is reported and nothing happens. -/
theorem sizes_in_names_are_faithful (base : String) (size : Nat) (hPlain : '$' ∉ base.toList)
    (hSome : base ≠ "") (hPositive : 1 ≤ size) :
    (∀ v : Variable, v.name = sizedName base size → v.base = base) ∧
    (∀ (base' : String) (size' : Nat), '$' ∉ base'.toList → base' ≠ "" → 1 ≤ size' →
      sizedName base size = sizedName base' size' → base = base' ∧ size = size') ∧
    ((Nat.toDigits 10 size).length ≤ maxDigits →
      encodedSize? (sizedName base size) = (if size = 1 then none else some (size : Int)) ∧
      Namespace.sizeProblem? (sizedName base size) size = none ∧
      ∀ t : Tenant, t.space.find? base = none →
        Concludes
          (fun v t' => v = ⟨sizedName base size, size, t.space.cursor⟩ ∧
            t'.space.records = t.space.records ++ [v] ∧ t'.space.find? base = some v)
          (fun f t' => (∃ r, f = .refused r) ∧ t'.space.records = t.space.records)
          (Tenant.obtain (sizedName base size) size t)) ∧
    (maxDigits < (Nat.toDigits 10 size).length → ∀ t : Tenant, t.space.find? base = none →
      Tenant.obtain (sizedName base size) size t = .error (.tree .numeralLength) t) := by
  refine ⟨fun v => Variable.base_of_named hPlain hSome,
    fun base' size' hPlain' hSome' _ => sizedName_injective hPlain hSome hPlain' hSome',
    fun hShort => ⟨?_, ?_, fun t hMissing => ?_⟩, fun hLong t hMissing => ?_⟩
  · rw [encodedSize?_sizedName hPlain, if_pos hShort]
  · exact Option.map_eq_none_iff.mp ((sizeProblem?_sizedName hPlain hPositive).trans
      (if_pos hShort))
  · have hSpace := Tenant.obtain_space (sizedName base size) size t
    have hMade := Tenant.obtain_meets hPlain hSome hMissing size
    have hPaid := Tenant.create_concludes (sizedName base size) hPositive t
    rw [← (Tenant.obtain_sizedName hPlain hSome hMissing hPositive).trans (if_pos hShort)] at hPaid
    generalize Tenant.obtain (sizedName base size) size t = out at hSpace hMade hPaid ⊢
    cases hPaid with
    | error hRefused =>
      cases hMade with
      | error hRecords => exact .error ⟨hRefused, hRecords⟩
    | @ok v t' _ =>
      have hMeets := hMade.of_ok rfl
      have hObtains := hSpace.of_ok rfl
      refine .ok ⟨?_, (hMeets.of_missing hMissing).2.2, hMeets.finds hPlain hSome⟩
      generalize t'.space = ns at hObtains
      cases hObtains with
      | old hFound => cases (Namespace.get?_sizedName hPlain hSome hMissing).symm.trans hFound
      | new _ _ hNew => exact hNew
  · rw [Tenant.obtain_sizedName hPlain hSome hMissing hPositive, if_neg (Nat.not_le.mpr hLong)]

/-- Two variables whose sizes are not spelled as they would be written. -/
def oddlySpelled : Tenant :=
  ⟨.start none, none, ⟨[⟨" +2$position", 2, 0⟩, ⟨"0_3$pos$", 3, 2⟩], Array.replicate 10 0⟩⟩

/-- Neither of them is found by the name `pos`, and a third one is made for it. -/
theorem position_is_made_beside_odd_spellings : '$' ∉ "pos".toList ∧ "pos" ≠ "" ∧
    (Nat.toDigits 10 3).length ≤ maxDigits ∧ oddlySpelled.space.find? "pos" = none ∧
    encodedSize? (sizedName "pos" 3) = some 3 ∧
    ∃ t, Tenant.obtain (sizedName "pos" 3) 3 oddlySpelled = .ok ⟨"3$pos", 3, 5⟩ t ∧
      t.space.find? "pos" = some ⟨"3$pos", 3, 5⟩ := by
  have hShort : (Nat.toDigits 10 3).length ≤ maxDigits := by decide
  have hMissing : oddlySpelled.space.find? "pos" = none := by decide +kernel
  obtain ⟨-, -, hFaithful, -⟩ :=
    sizes_in_names_are_faithful "pos" 3 (by decide) (by decide) (by decide)
  obtain ⟨hSize, -, hMade⟩ := hFaithful hShort
  refine ⟨by decide, by decide, hShort, hMissing, hSize, ?_⟩
  have hConcludes := hMade oddlySpelled hMissing
  cases hOut : Tenant.obtain (sizedName "pos" (3 : Nat)) (3 : Nat) oddlySpelled with
  | error => cases hOut
  | ok v t =>
    rw [hOut] at hConcludes
    cases hConcludes with
    | ok hFound =>
      obtain ⟨rfl, -, hFound⟩ := hFound
      exact ⟨t, rfl, hFound⟩

/-- **A size of one digit too many** is not read back from its name, and no variable is made. -/
theorem too_long_sizes_are_not_read : 1 ≤ Nat.pow 10 maxDigits ∧
    encodedSize? (sizedName "b" (Nat.pow 10 maxDigits : Nat)) = some (-1) ∧
    oddlySpelled.space.find? "b" = none ∧
    Tenant.obtain (sizedName "b" (Nat.pow 10 maxDigits : Nat)) (Nat.pow 10 maxDigits : Nat)
      oddlySpelled = .error (.tree .numeralLength) oddlySpelled := by
  have hMany {n : Nat} (h : 0 < n) :
      ¬ (Nat.toDigits 10 (Nat.pow 10 n)).length ≤ n ∧ 1 < Nat.pow 10 n :=
    ⟨fun hShort => Nat.lt_irrefl _ ((Nat.length_toDigits_le_iff (by decide) h).mp hShort),
      Nat.one_lt_pow (Nat.ne_of_gt h) (by decide)⟩
  obtain ⟨hLong, hPositive⟩ := hMany (n := maxDigits) (by decide)
  have hMissing : oddlySpelled.space.find? "b" = none := by decide +kernel
  refine ⟨Nat.le_of_lt hPositive, ?_, hMissing, ?_⟩
  · rw [encodedSize?_sizedName (by decide), if_neg (Nat.ne_of_gt hPositive), if_neg hLong]
  · rw [Tenant.obtain_sizedName (by decide) (by decide) hMissing (Nat.le_of_lt hPositive),
      if_neg hLong]

end MolangCompiler
