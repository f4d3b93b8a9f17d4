import MolangCompiler.Number.Single

/-!
# Rounding twice

A value that has been rounded to single precision is not changed by rounding it again.  A scaled
number that single precision has room for is put together (`Scaled.toFloat`) and taken apart again
(`Scaled.ofFloat?`) with a significand that is larger by some power of two, which is just what the
second rounding takes away.
-/

namespace MolangCompiler

/-! ## Bit patterns -/

variable {m k n : Nat}

section

open Float.Model Float.Model.UnpackedFloat

private theorem toNat_append {v w : Nat} (x : BitVec v) (y : BitVec w) :
    (x ++ y).toNat = x.toNat * twoTo w + y.toNat := by
  change _ = x.toNat * 2 ^ w + y.toNat
  rw [BitVec.toNat_append, ← Nat.shiftLeft_add_eq_or_of_lt y.isLt, Nat.shiftLeft_eq]

theorem unpackSign_toNat (b : BitVec 64) :
    (@unpackSign .binary64 b).toNat = b.toNat / 9223372036854775808 % 2 := by
  delta unpackSign
  simp [Nat.shiftRight_eq_div_pow]

theorem unpackExponent_toNat (b : BitVec 64) :
    (@unpackExponent .binary64 b).toNat = b.toNat / twoTo 52 % 2048 := by
  change _ = b.toNat / 2 ^ 52 % 2 ^ 11
  delta unpackExponent
  simp [Nat.shiftRight_eq_div_pow]

theorem unpackMantissa_toNat (b : BitVec 64) :
    (@unpackMantissa .binary64 b).toNat = b.toNat % twoTo 52 := by
  change _ = b.toNat % 2 ^ 52
  delta unpackMantissa
  simp

private theorem packComponents_fields {b : BitVec 64} {e : BitVec 11} {m : BitVec 52}
    (he : e.toNat = b.toNat / twoTo 52 % 2048) (hm : m.toNat = b.toNat % twoTo 52) :
    packComponents .binary64 (Sign.ofBitVec (@unpackSign .binary64 b)) e m = b := by
  have hSign : (Sign.ofBitVec (@unpackSign .binary64 b)).toBitVec = @unpackSign .binary64 b :=
    (by decide : ∀ v : BitVec 1, (Sign.ofBitVec v).toBitVec = v) _
  apply BitVec.eq_of_toNat_eq
  show (((Sign.ofBitVec (@unpackSign .binary64 b)).toBitVec ++ e) ++ m).toNat = b.toNat
  rw [toNat_append, toNat_append, hSign, unpackSign_toNat, he, hm]
  change (b.toNat / 2 ^ 63 % 2 * 2 ^ 11 + b.toNat / 2 ^ 52 % 2048) * 2 ^ 52 + b.toNat % 2 ^ 52 = _
  omega

private theorem pack_normal {s : Sign} {e : Int} {hm : 0 < m} (hLow : twoTo 52 ≤ m)
    (hHigh : m < twoTo 53) (hk : e + 1075 = k) (hTop : k < 2047) :
    UnpackedFloat.pack .binary64 (.finite s m e hm) =
      packComponents .binary64 s (BitVec.ofNat 11 k) (BitVec.ofNat 52 m) := by
  have hLog : m.log2 + 1 = Format.binary64.mantissaBits := by
    have hLog52 : m.log2 = 52 := (Nat.log2_eq_iff (by omega)).mpr ⟨hLow, hHigh⟩
    rw [hLog52]
    rfl
  have hField : (e + (Format.binary64.exponentBias : Nat) + (52 : Nat)).toNat = k := by
    show (e + ((1023 : Nat) : Int) + (52 : Nat)).toNat = k
    omega
  have hFinite : ¬ 2 ^ 11 ≤ k + 1 := by omega
  delta UnpackedFloat.pack
  dsimp only
  simp only [hField, hLog, if_neg hFinite, if_true]

private theorem pack_subnormal {s : Sign} {hm : 0 < m} (hHigh : m < twoTo 52) :
    UnpackedFloat.pack .binary64 (.finite s m (-1074) hm) =
      packComponents .binary64 s 0#11 (BitVec.ofNat 52 m) := by
  have hLog : ¬ m.log2 + 1 = Format.binary64.mantissaBits := by
    have hLog52 : m.log2 < 52 := (Nat.log2_lt (by omega)).mpr hHigh
    show ¬ m.log2 + 1 = 53
    omega
  have hField : ((-1074 : Int) + (Format.binary64.exponentBias : Nat) + (52 : Nat)).toNat = 1 := rfl
  delta UnpackedFloat.pack
  dsimp only
  simp only [hField, if_neg hLog]
  rfl

/-- Taking a pattern apart and packing the parts again gives the pattern, unless it is a
not-a-number. -/
theorem pack_unpack {b : BitVec 64}
    (h : b.toNat / twoTo 52 % 2048 = 2047 → b.toNat % twoTo 52 = 0) :
    UnpackedFloat.pack .binary64 (unpack .binary64 b) = b := by
  have hE := unpackExponent_toNat b
  have hM := unpackMantissa_toNat b
  have hFields := packComponents_fields hE hM
  delta UnpackedFloat.unpack
  by_cases hTop : @unpackExponent .binary64 b = -1#11
  · have hZero : @unpackMantissa .binary64 b = 0#52 := by
      apply BitVec.eq_of_toNat_eq
      rw [hM, h (by rw [← hE, hTop]; rfl)]
      rfl
    rw [if_pos hTop, if_pos hZero]
    rw [hTop, hZero] at hFields
    exact hFields
  · rw [if_neg hTop]
    by_cases hBottom : @unpackExponent .binary64 b = 0#11
    · rw [if_pos hBottom]
      by_cases hZero : @unpackMantissa .binary64 b = 0#52
      · rw [dif_pos hZero]
        rw [hBottom, hZero] at hFields
        exact hFields
      · rw [dif_neg hZero]
        have hEZero : ((@unpackExponent .binary64 b).toNat : Int) -
            ((Format.binary64.exponentBias : Nat) + (52 : Nat)) + 1 = -1074 := by
          rw [hBottom]
          rfl
        rw [hEZero, pack_subnormal (@unpackMantissa .binary64 b).isLt, BitVec.ofNat_toNat,
          BitVec.setWidth_eq]
        rw [hBottom] at hFields
        exact hFields
    · rw [if_neg hBottom]
      have hNat : (1#1 ++ @unpackMantissa .binary64 b).toNat =
          2 ^ 52 + (@unpackMantissa .binary64 b).toNat := by
        rw [toNat_append]
        rfl
      have hLt : (@unpackMantissa .binary64 b).toNat < 2 ^ 52 := (@unpackMantissa .binary64 b).isLt
      have hELt : (@unpackExponent .binary64 b).toNat < 2 ^ 11 :=
        (@unpackExponent .binary64 b).isLt
      have hENe : (@unpackExponent .binary64 b).toNat ≠ 2047 := fun hc =>
        hTop (BitVec.eq_of_toNat_eq hc)
      rw [pack_normal (k := (@unpackExponent .binary64 b).toNat)
        (by show 2 ^ 52 ≤ _; omega) (by show _ < 2 ^ 53; omega)
        (by show _ - (((1023 : Nat) : Int) + (52 : Nat)) + 1075 = _; omega) (by omega)]
      have hFraction : BitVec.ofNat 52 (1#1 ++ @unpackMantissa .binary64 b).toNat =
          @unpackMantissa .binary64 b := by
        apply BitVec.eq_of_toNat_eq
        rw [BitVec.toNat_ofNat, hNat]
        omega
      rw [hFraction, BitVec.ofNat_toNat, BitVec.setWidth_eq]
      exact hFields

/-- **Bit patterns are read back** unless they are a not-a-number. -/
theorem toBits_ofBits (hLt : n < twoTo 64) (h : n / twoTo 52 % 2048 = 2047 → n % twoTo 52 = 0) :
    (Float.ofBits (UInt64.ofNat n)).toBits.toNat = n := by
  have hNat : (UInt64.ofNat n).toBitVec.toNat = n := by
    change n < 2 ^ 64 at hLt
    show n % 2 ^ 64 = n
    omega
  show (UnpackedFloat.pack .binary64 (.unpack .binary64
    (UInt64.ofNat n).toBitVec)).toNat = n
  rw [pack_unpack (by rw [hNat]; exact h), hNat]

end

namespace Scaled

/-! ## Putting doubles together and taking them apart -/

theorem signBits_cases (negative : Bool) :
    negative = true ∧ signBits negative = twoTo 63 ∨ negative = false ∧ signBits negative = 0 := by
  cases negative with
  | true => exact .inl ⟨rfl, rfl⟩
  | false => exact .inr ⟨rfl, rfl⟩

/-- The parts of the double that is given by its sign, its exponent field and its fraction. -/
theorem ofFloat?_fields (negative : Bool) (field fraction : Nat) (hField : field < 2047)
    (hFraction : fraction < twoTo 52) :
    ofFloat? (Float.ofBits (UInt64.ofNat (signBits negative + field * twoTo 52 + fraction))) =
      if field = 0 then some ⟨negative, fraction, -1074⟩
      else some ⟨negative, fraction + twoTo 52, field - 1075⟩ := by
  have hPower (n : Nat) : twoTo n = 2 ^ n := rfl
  have hSign := signBits_cases negative
  simp only [hPower] at hFraction hSign ⊢
  have hBits := toBits_ofBits (n := signBits negative + field * 2 ^ 52 + fraction)
    (by rw [hPower]; omega) (by rw [hPower]; omega)
  have hNegative : decide (2 ^ 63 ≤ signBits negative + field * 2 ^ 52 + fraction) = negative := by
    rcases hSign with ⟨hSign, hEq⟩ | ⟨hSign, hEq⟩
    · rw [hSign] at hEq ⊢
      exact decide_eq_true (by omega)
    · rw [hSign] at hEq ⊢
      exact decide_eq_false (by omega)
  have hMiddle : (signBits negative + field * 2 ^ 52 + fraction) / 2 ^ 52 % 2048 = field := by
    omega
  have hLow : (signBits negative + field * 2 ^ 52 + fraction) % 2 ^ 52 = fraction := by omega
  simp only [ofFloat?, hBits, hPower, hNegative, hMiddle, hLow]
  rw [if_neg (by omega)]

theorem log2_mul_twoTo (h : 0 < n) (k : Nat) : (n * twoTo k).log2 = n.log2 + k := by
  have hPos : 0 < 2 ^ k := Nat.two_pow_pos k
  have hLow : 2 ^ n.log2 ≤ n := Nat.log2_self_le (by omega)
  have hHigh : n < 2 ^ (n.log2 + 1) := Nat.lt_log2_self
  show (n * 2 ^ k).log2 = n.log2 + k
  rw [Nat.log2_eq_iff (Nat.mul_ne_zero (by omega) (by omega))]
  constructor
  · rw [Nat.pow_add]
    exact Nat.mul_le_mul_right _ hLow
  · rw [Nat.add_right_comm, Nat.pow_add]
    exact Nat.mul_lt_mul_of_pos_right hHigh hPos

theorem twoTo_add (i k : Nat) : twoTo (i + k) = twoTo i * twoTo k := Nat.pow_add 2 i k

variable {m : Nat} {e : Int}

theorem toFloat_scale (negative : Bool) (hm : 0 < m) (he : -1074 ≤ e) (hk : m.log2 + k ≤ 52) :
    toFloat ⟨negative, m * twoTo k, e⟩ = toFloat ⟨negative, m, e + k⟩ := by
  have hPos : 0 < twoTo k := twoTo_pos k
  have hNe : m * twoTo k ≠ 0 := Nat.mul_ne_zero (by omega) (by omega)
  have hTop : e + ((m.log2 + k : Nat) : Int) = e + k + m.log2 := by omega
  have hLow : m * twoTo k * twoTo (e + 1074).toNat = m * twoTo (e + k + 1074).toNat := by
    rw [Nat.mul_assoc, ← twoTo_add]
    congr 2
    omega
  have hHigh : m * twoTo k * twoTo (52 - (m.log2 + k)) = m * twoTo (52 - m.log2) := by
    rw [Nat.mul_assoc, ← twoTo_add]
    congr 2
    omega
  simp only [toFloat, log2_mul_twoTo hm, hTop, hLow, hHigh, if_neg hNe,
    if_neg (Nat.pos_iff_ne_zero.mp hm)]

theorem ofFloat?_toFloat (negative : Bool) (hm : 0 < m) (hBits : m < twoTo 53) (he : -1074 ≤ e)
    (hTop : e + m.log2 < 1024) :
    ∃ k : Nat, ofFloat? (toFloat ⟨negative, m, e⟩) = some ⟨negative, m * twoTo k, e - k⟩ ∧
      m.log2 + k ≤ 52 ∧ -1074 ≤ e - k := by
  have hLog : m.log2 < 53 := (Nat.log2_lt (by omega)).mpr hBits
  have hNe : m ≠ 0 := by omega
  have hNotTop : ¬ 1024 ≤ e + (m.log2 : Int) := by omega
  have hSpan (k : Nat) : 2 ^ (m.log2 + k) ≤ m * twoTo k ∧ m * twoTo k < 2 ^ (m.log2 + k + 1) := by
    have hLog2 := log2_mul_twoTo hm k
    have hPos : m * twoTo k ≠ 0 := Nat.mul_ne_zero hNe (Nat.pos_iff_ne_zero.mp (twoTo_pos k))
    exact (Nat.log2_eq_iff hPos).mp hLog2
  by_cases hSub : e + (m.log2 : Int) < -1022
  · obtain ⟨k, hk⟩ : ∃ k, k = (e + 1074).toNat := ⟨_, rfl⟩
    have hSize : m * twoTo k < 2 ^ 52 :=
      Nat.lt_of_lt_of_le (hSpan k).2 (Nat.pow_le_pow_right (by decide) (by omega))
    have hParts := ofFloat?_fields negative 0 (m * twoTo k) (by decide) hSize
    rw [if_pos rfl, Nat.zero_mul, Nat.add_zero] at hParts
    refine ⟨k, ?_, by omega, by omega⟩
    have hExp : e - k = -1074 := by omega
    simp only [toFloat, if_neg hNe, if_neg hNotTop, if_pos hSub, hExp, ← hk]
    exact hParts
  · obtain ⟨k, hk⟩ : ∃ k, k = 52 - m.log2 := ⟨_, rfl⟩
    obtain ⟨low, hLow⟩ : ∃ low, low = (e + m.log2 + 1022).toNat := ⟨_, rfl⟩
    have hSum : m.log2 + k = 52 := by omega
    have hSize := hSpan k
    rw [hSum] at hSize
    have hPower : twoTo 52 = 2 ^ 52 := rfl
    have hFraction : m * twoTo k - 2 ^ 52 < twoTo 52 := by omega
    have hParts := ofFloat?_fields negative (low + 1) (m * twoTo k - 2 ^ 52) (by omega) hFraction
    rw [if_neg (by omega)] at hParts
    refine ⟨k, ?_, by omega, by omega⟩
    -- the top bit of the significand is carried into the exponent field
    have hNumber : signBits negative + (low + 1) * twoTo 52 + (m * twoTo k - 2 ^ 52) =
        signBits negative + low * twoTo 52 + m * twoTo k := by
      rw [hPower]
      omega
    have hSignificand : m * twoTo k - 2 ^ 52 + twoTo 52 = m * twoTo k := by omega
    have hExp : ((low + 1 : Nat) : Int) - 1075 = e - k := by omega
    rw [hNumber, hSignificand, hExp] at hParts
    simp only [toFloat, if_neg hNe, if_neg hNotTop, if_neg hSub, ← hk, ← hLow]
    exact hParts

/-! ## Rounding to single precision -/

theorem shiftRound_mul (n j : Nat) : shiftRound (n * twoTo j) j = n := by
  have hPos := twoTo_pos j
  have hRest : n * twoTo j % twoTo j = 0 := Nat.mul_mod_left n (twoTo j)
  simp only [shiftRound, hRest, Nat.mul_div_cancel n hPos, if_pos hPos, Nat.mul_zero]

theorem shiftRound_le (n j : Nat) : shiftRound n j ≤ n / twoTo j + 1 := by
  simp only [shiftRound]
  split
  · omega
  · split
    · omega
    · exact Nat.le_refl _

theorem toSingle_bounds (s : Scaled) :
    s.toSingle.significand ≤ twoTo 24 ∧ -149 ≤ s.toSingle.exponent := by
  constructor
  · have hHigh : s.significand < 2 ^ (24 + s.excessBits) := by
      refine Nat.lt_of_lt_of_le Nat.lt_log2_self (Nat.pow_le_pow_right (by decide) ?_)
      simp only [excessBits]
      omega
    have hQuotient : s.significand / twoTo s.excessBits < 2 ^ 24 := by
      rw [Nat.div_lt_iff_lt_mul (twoTo_pos _)]
      rwa [Nat.pow_add] at hHigh
    have hRound := shiftRound_le s.significand s.excessBits
    show shiftRound s.significand s.excessBits ≤ 2 ^ 24
    omega
  · show -149 ≤ s.exponent + (s.excessBits : Int)
    simp only [excessBits]
    omega

theorem toSingle_exact {s : Scaled} {j : Nat} (hExcess : s.excessBits = j)
    (hBits : s.significand = n * twoTo j) : s.toSingle = ⟨s.negative, n, s.exponent + j⟩ := by
  simp only [toSingle, hExcess, hBits, shiftRound_mul]

/-- **Rounding a rounded number** whose significand carries a power of two takes that power away
again, and nothing else. -/
theorem toSingle_scaled (negative : Bool) (hm : 0 < m) (hBits : m ≤ twoTo 24) (he : -149 ≤ e)
    (hk : m.log2 + k ≤ 52) (hLow : -1074 ≤ e - k) :
    ∃ n : Nat, ∃ d : Int, toSingle ⟨negative, m * twoTo k, e - k⟩ = ⟨negative, n, d⟩ ∧ 0 < n ∧
      d + n.log2 = e + m.log2 ∧ toFloat ⟨negative, n, d⟩ = toFloat ⟨negative, m, e⟩ := by
  have hLog := log2_mul_twoTo hm k
  change m ≤ 2 ^ 24 at hBits
  by_cases hFull : m = 2 ^ 24
  · -- the significand has 25 bits, the last of them zero: the exponent is raised by one
    have hLog24 : m.log2 = 24 := by rw [hFull]; rfl
    have hExcess : excessBits ⟨negative, m * twoTo k, e - k⟩ = k + 1 := by
      simp only [excessBits, hLog, hLog24]
      omega
    have hHalf : m * twoTo k = 2 ^ 23 * twoTo (k + 1) := by
      rw [hFull, twoTo_succ]
      omega
    refine ⟨2 ^ 23, e + 1, ?_, by decide, ?_, ?_⟩
    · rw [toSingle_exact hExcess hHalf]
      show (⟨negative, 2 ^ 23, e - k + (k + 1 : Nat)⟩ : Scaled) = _
      congr 1
      omega
    · rw [hLog24]
      show e + 1 + 23 = e + 24
      omega
    · rw [hFull]
      exact (toFloat_scale negative (m := 2 ^ 23) (k := 1) (by decide) (by omega) (by decide)).symm
  · have hLog23 : m.log2 < 24 := (Nat.log2_lt (by omega)).mpr (by omega)
    obtain ⟨j, hj⟩ : ∃ j, j = excessBits ⟨negative, m * twoTo k, e - k⟩ := ⟨_, rfl⟩
    have hLe : j ≤ k := by
      rw [hj]
      simp only [excessBits, hLog]
      omega
    obtain ⟨i, rfl⟩ : ∃ i, k = i + j := ⟨k - j, by omega⟩
    have hPower : m * twoTo (i + j) = m * twoTo i * twoTo j := by
      rw [twoTo_add, Nat.mul_assoc]
    refine ⟨m * twoTo i, e - i, ?_, Nat.mul_pos hm (twoTo_pos i), ?_, ?_⟩
    · rw [toSingle_exact hj.symm hPower]
      show (⟨negative, m * twoTo i, e - (i + j : Nat) + j⟩ : Scaled) = _
      congr 1
      omega
    · rw [log2_mul_twoTo hm]
      omega
    · rw [toFloat_scale negative hm (by omega) (by omega)]
      congr 2
      omega

end Scaled

private theorem single_zeros (negative : Bool) :
    single (Float.ofBits (UInt64.ofNat (Scaled.signBits negative))) =
      Float.ofBits (UInt64.ofNat (Scaled.signBits negative)) := by
  cases negative <;> decide +kernel

private theorem single_toFloat (negative : Bool) (hBits : m ≤ twoTo 24) {e : Int} (he : -149 ≤ e)
    (hTop : ¬ (m ≠ 0 ∧ 128 ≤ e + (m.log2 : Int))) :
    single (Scaled.toFloat ⟨negative, m, e⟩) = Scaled.toFloat ⟨negative, m, e⟩ := by
  rcases Nat.eq_zero_or_pos m with rfl | hm
  · exact single_zeros negative
  · have h24 : twoTo 24 = 2 ^ 24 := rfl
    have h53 : twoTo 53 = 2 ^ 53 := rfl
    have hLess : e + (m.log2 : Int) < 128 := by omega
    obtain ⟨k, hParts, hk, hLow⟩ := Scaled.ofFloat?_toFloat negative hm (by omega)
      (by omega : -1074 ≤ e) (by omega)
    obtain ⟨n, d, hRound, hn, hSame, hEq⟩ :=
      Scaled.toSingle_scaled negative hm hBits he hk hLow
    simp only [single, hParts, hRound]
    rw [if_neg (by omega), hEq]

theorem single_infinity (negative : Bool) :
    single (Scaled.infinity negative) = Scaled.infinity negative := by
  cases negative <;> decide +kernel

theorem single_zero : single 0 = 0 := by decide +kernel

theorem single_one : single 1 = 1 := by decide +kernel

/-- **Rounding twice** is rounding once. -/
theorem single_single (x : Float) : single (single x) = single x := by
  cases hParts : Scaled.ofFloat? x with
  | none =>
    have hSame : single x = x := by simp only [single, hParts]
    rw [hSame, hSame]
  | some s =>
    obtain ⟨hBits, he⟩ := s.toSingle_bounds
    simp only [single.eq_1 x, hParts]
    split
    · exact single_infinity _
    · rename_i hTop
      exact single_toFloat s.negative hBits he hTop

end MolangCompiler
