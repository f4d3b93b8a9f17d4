import MolangCompiler.Proofs.Rounding

/-!
# Changing signs

Changing the sign of a double turns over the first bit of its pattern and nothing else, unless it is
not-a-number, of which there is only one.  So changing the sign twice gives a value back, and
rounding to single precision treats both signs alike.
-/

namespace MolangCompiler

open Scaled

section

open Float.Model Float.Model.UnpackedFloat

/-- Patterns that differ in their sign only are unpacked to numbers that differ in their sign. -/
theorem unpack_neg {b c : BitVec 64}
    (hExponent : @unpackExponent .binary64 c = @unpackExponent .binary64 b)
    (hMantissa : @unpackMantissa .binary64 c = @unpackMantissa .binary64 b)
    (hSign : Sign.ofBitVec (@unpackSign .binary64 c) = -Sign.ofBitVec (@unpackSign .binary64 b)) :
    (unpack .binary64 b).neg = unpack .binary64 c := by
  have hFinite {s t : Sign} {m n : Nat} {d e : Int} {hm : 0 < m} {hn : 0 < n} (hs : -s = t)
      (hMn : m = n) (he : d = e) : (finite s m d hm).neg = finite t n e hn := by
    subst hs hMn he
    rfl
  delta UnpackedFloat.unpack
  dsimp only
  by_cases hTop : @unpackExponent .binary64 b = -1#11
  · rw [if_pos hTop, if_pos (hExponent.trans hTop)]
    by_cases hZero : @unpackMantissa .binary64 b = 0#52
    · rw [if_pos hZero, if_pos (hMantissa.trans hZero), hSign]
      rfl
    · rw [if_neg hZero, if_neg (fun h => hZero (hMantissa.symm.trans h))]
      rfl
  · rw [if_neg hTop, if_neg (fun h => hTop (hExponent.symm.trans h))]
    by_cases hBottom : @unpackExponent .binary64 b = 0#11
    · rw [if_pos hBottom, if_pos (hExponent.trans hBottom)]
      by_cases hZero : @unpackMantissa .binary64 b = 0#52
      · rw [dif_pos hZero, dif_pos (hMantissa.trans hZero), hSign]
        rfl
      · rw [dif_neg hZero, dif_neg (fun h => hZero (hMantissa.symm.trans h))]
        exact hFinite hSign.symm (by rw [hMantissa]) (by rw [hExponent])
    · rw [if_neg hBottom, if_neg (fun h => hBottom (hExponent.symm.trans h))]
      exact hFinite hSign.symm (by rw [hMantissa]) (by rw [hExponent])

/-- The pattern of a number with the given sign. -/
def signedPattern (n : Nat) (negative : Bool) : BitVec 64 :=
  (UInt64.ofNat (signBits negative + n)).toBitVec

section

variable {n : Nat} (hLt : n < twoTo 63) (hNumber : n / twoTo 52 = 2047 → n % twoTo 52 = 0)
  (negative : Bool)

include hLt in
private theorem signedPattern_toNat : (signedPattern n negative).toNat = signBits negative + n := by
  have hCases := signBits_cases negative
  have hPower (k : Nat) : twoTo k = 2 ^ k := rfl
  simp only [hPower] at hLt hCases
  show (signBits negative + n) % 2 ^ 64 = _
  omega

include hLt in
private theorem signedPattern_fields :
    (signedPattern n negative).toNat / twoTo 52 % 2048 = n / twoTo 52 ∧
    (signedPattern n negative).toNat % twoTo 52 = n % twoTo 52 := by
  have hCases := signBits_cases negative
  have hPower (k : Nat) : twoTo k = 2 ^ k := rfl
  rw [signedPattern_toNat hLt]
  simp only [hPower] at hLt hCases ⊢
  omega

include hLt in
private theorem unpack_signedPattern_neg : (unpack .binary64 (signedPattern n negative)).neg =
    unpack .binary64 (signedPattern n !negative) := by
  have hPower (k : Nat) : twoTo k = 2 ^ k := rfl
  have hSign (sign : Bool) :
      @unpackSign .binary64 (signedPattern n sign) = if sign then 1#1 else 0#1 := by
    apply BitVec.eq_of_toNat_eq
    rw [unpackSign_toNat, signedPattern_toNat hLt]
    simp only [hPower] at hLt
    rcases signBits_cases sign with ⟨rfl, hEq⟩ | ⟨rfl, hEq⟩
    · rw [hEq]
      show (2 ^ 63 + n) / 2 ^ 63 % 2 = 1
      omega
    · rw [hEq]
      show (0 + n) / 2 ^ 63 % 2 = 0
      omega
  have hFields := signedPattern_fields hLt
  apply unpack_neg
  · apply BitVec.eq_of_toNat_eq
    rw [unpackExponent_toNat, unpackExponent_toNat, (hFields _).1, (hFields _).1]
  · apply BitVec.eq_of_toNat_eq
    rw [unpackMantissa_toNat, unpackMantissa_toNat, (hFields _).2, (hFields _).2]
  · rw [hSign, hSign]
    cases negative <;> rfl

include hLt hNumber

private theorem pack_signedPattern : UnpackedFloat.pack .binary64 (unpack .binary64
    (signedPattern n negative)) = signedPattern n negative := by
  apply pack_unpack
  rw [(signedPattern_fields hLt _).1, (signedPattern_fields hLt _).2]
  exact hNumber

/-- **The pattern of a number with its sign changed.** -/
theorem neg_ofBits : -Float.ofBits (UInt64.ofNat (signBits negative + n)) =
    Float.ofBits (UInt64.ofNat (signBits (!negative) + n)) := by
  show Float.ofModel (Float.Model.pack (unpack .binary64 (UnpackedFloat.pack .binary64
    (unpack .binary64 (signedPattern n negative)))).neg) =
    Float.ofModel (Float.Model.pack (unpack .binary64 (signedPattern n !negative)))
  rw [pack_signedPattern hLt hNumber, unpack_signedPattern_neg hLt]

end

private theorem eq_ofBits_or_nan (x : Float) :
    (∃ negative n, n < twoTo 63 ∧ (n / twoTo 52 = 2047 → n % twoTo 52 = 0) ∧
      x = Float.ofBits (UInt64.ofNat (signBits negative + n))) ∨ x = notANumber := by
  obtain ⟨⟨bits, hValid⟩⟩ := x
  have hPower (k : Nat) : twoTo k = 2 ^ k := rfl
  have hLt : bits.toNat < 2 ^ 64 := bits.toBitVec.isLt
  by_cases hNumber : bits.toNat / twoTo 52 % 2048 = 2047 → bits.toNat % twoTo 52 = 0
  · left
    have hSame : bits =
        UInt64.ofBitVec (UnpackedFloat.pack .binary64 (unpack .binary64 bits.toBitVec)) := by
      rw [pack_unpack (b := bits.toBitVec) hNumber]
    have hOf : Float.ofModel ⟨bits, hValid⟩ = Float.ofBits bits :=
      congrArg Float.ofModel (Float.Model.mk.injEq .. ▸ hSame)
    refine ⟨decide (2 ^ 63 ≤ bits.toNat), bits.toNat % 2 ^ 63, ?_, ?_, ?_⟩
    · exact Nat.mod_lt _ (by decide)
    · simp only [hPower] at hNumber ⊢
      omega
    · have hWhole : signBits (decide (2 ^ 63 ≤ bits.toNat)) + bits.toNat % 2 ^ 63 = bits.toNat := by
        by_cases hSign : 2 ^ 63 ≤ bits.toNat
        · rw [decide_eq_true hSign]
          show 2 ^ 63 + bits.toNat % 2 ^ 63 = bits.toNat
          omega
        · rw [decide_eq_false hSign]
          show 0 + bits.toNat % 2 ^ 63 = bits.toNat
          omega
      rw [hWhole, UInt64.ofNat_toNat]
      exact hOf
  · right
    obtain ⟨hTop, hFraction⟩ := Classical.not_imp.mp hNumber
    have hExponent : @unpackExponent .binary64 bits.toBitVec = -1#11 := by
      apply BitVec.eq_of_toNat_eq
      rw [unpackExponent_toNat]
      exact hTop
    have hMantissa : @unpackMantissa .binary64 bits.toBitVec ≠ 0#52 := by
      intro hZero
      have hNat := unpackMantissa_toNat bits.toBitVec
      rw [hZero] at hNat
      exact hFraction hNat.symm
    have hNan := hValid.eq_packedNaN hExponent hMantissa
    have hBits : bits = 0x7FF8000000000000 := by
      apply UInt64.toBitVec_inj.mp
      rw [hNan]
      decide
    subst hBits
    rfl

theorem unpack_neg_eq (x : Float) : (-x).toModel.unpack = x.toModel.unpack.neg := by
  rcases eq_ofBits_or_nan x with ⟨negative, n, hLt, hNumber, rfl⟩ | rfl
  · rw [neg_ofBits hLt hNumber]
    show unpack .binary64 (pack .binary64 (unpack .binary64 (signedPattern n !negative))) =
      (unpack .binary64 (pack .binary64 (unpack .binary64 (signedPattern n negative)))).neg
    rw [pack_signedPattern hLt hNumber, pack_signedPattern hLt hNumber,
      unpack_signedPattern_neg hLt]
  · rfl

end

private theorem neg_notANumber : -notANumber = notANumber := by decide +kernel

private theorem single_notANumber : single notANumber = notANumber := by decide +kernel

/-- **Changing the sign twice** gives a value back. -/
theorem neg_neg_eq (x : Float) : - -x = x := by
  rcases eq_ofBits_or_nan x with ⟨negative, n, hLt, hNumber, rfl⟩ | rfl
  · rw [neg_ofBits hLt hNumber negative, neg_ofBits hLt hNumber (!negative), Bool.not_not]
  · rw [neg_notANumber, neg_notANumber]

private theorem neg_infinity (negative : Bool) : -infinity negative = infinity !negative :=
  neg_ofBits (by decide) (by decide) negative

/-- Changing the sign of a number that was put together within the bounds of single precision. -/
theorem neg_toFloat (negative : Bool) {m : Nat} (hBits : m ≤ twoTo 24) {e : Int} (he : -149 ≤ e)
    (hTop : ¬ (m ≠ 0 ∧ 128 ≤ e + (m.log2 : Int))) :
    -toFloat ⟨negative, m, e⟩ = toFloat ⟨!negative, m, e⟩ := by
  rcases Nat.eq_zero_or_pos m with rfl | hm
  · exact neg_ofBits (n := 0) (by decide) (by decide) negative
  · have h24 : twoTo 24 = 2 ^ 24 := rfl
    have h52 : twoTo 52 = 2 ^ 52 := rfl
    have h63 : twoTo 63 = 2 ^ 63 := rfl
    have hLog : m.log2 < 25 := (Nat.log2_lt (by omega)).mpr (by omega)
    obtain ⟨k, hk⟩ : ∃ k, k = 52 - m.log2 := ⟨_, rfl⟩
    obtain ⟨low, hLow⟩ : ∃ low, low = (e + m.log2 + 1022).toNat := ⟨_, rfl⟩
    -- a normal number: its significand is moved to 53 bits, its exponent field is below the largest
    have hSize : m * twoTo k < 2 ^ 53 := by
      have hNe : m * twoTo k ≠ 0 :=
        Nat.mul_ne_zero (by omega) (Nat.pos_iff_ne_zero.mp (twoTo_pos k))
      have hSum := log2_mul_twoTo hm k
      exact (Nat.log2_lt hNe).mp (by omega)
    have hNeg := neg_ofBits (n := low * twoTo 52 + m * twoTo k)
      (by rw [h52, h63]; omega) (by rw [h52]; omega) negative
    have hNormal (sign : Bool) : toFloat ⟨sign, m, e⟩ = Float.ofBits (UInt64.ofNat
        (signBits sign + (low * twoTo 52 + m * twoTo k))) := by
      simp only [toFloat]
      rw [if_neg (by omega), if_neg (by omega), if_neg (by omega), ← hk, ← hLow, Nat.add_assoc]
    rw [hNormal, hNormal]
    exact hNeg

private theorem single_of_parts {x y : Float} {negative : Bool} {m : Nat} {e : Int}
    (hx : ofFloat? x = some ⟨negative, m, e⟩)
    (hy : ofFloat? y = some ⟨!negative, m, e⟩) : single y = -single x := by
  obtain ⟨hBits, he⟩ := (⟨negative, m, e⟩ : Scaled).toSingle_bounds
  have hSame : toSingle ⟨!negative, m, e⟩ =
      { toSingle ⟨negative, m, e⟩ with negative := !negative } := rfl
  simp only [single, hx, hy, hSame]
  split
  · exact (neg_infinity negative).symm
  · rename_i hTop
    exact (neg_toFloat negative hBits he hTop).symm

/-- **Rounding commutes with changing the sign.** -/
theorem single_neg (x : Float) : single (-x) = -single x := by
  rcases eq_ofBits_or_nan x with ⟨negative, n, hLt, hNumber, rfl⟩ | rfl
  · rw [neg_ofBits hLt hNumber negative]
    have hPower (k : Nat) : twoTo k = 2 ^ k := rfl
    simp only [hPower] at hLt hNumber
    by_cases hTop : n / 2 ^ 52 = 2047
    · have hWhole : n = 2047 * twoTo 52 := by
        rw [hPower]
        omega
      rw [hWhole]
      show single (infinity !negative) = -single (infinity negative)
      rw [single_infinity, single_infinity, neg_infinity]
    · have hParts (sign : Bool) := ofFloat?_fields sign (n / 2 ^ 52) (n % 2 ^ 52)
        (by omega) (Nat.mod_lt _ (by decide))
      have hSum (sign : Bool) : signBits sign + n / 2 ^ 52 * twoTo 52 + n % 2 ^ 52 =
          signBits sign + n := by
        rw [hPower]
        omega
      simp only [hSum] at hParts
      by_cases hBottom : n / 2 ^ 52 = 0
      · simp only [if_pos hBottom] at hParts
        exact single_of_parts (hParts negative) (hParts !negative)
      · simp only [if_neg hBottom] at hParts
        exact single_of_parts (hParts negative) (hParts !negative)
  · rw [neg_notANumber, single_notANumber, neg_notANumber]

end MolangCompiler
