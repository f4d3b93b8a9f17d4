import MolangCompiler.Proofs.Helpers
import MolangCompiler.Proofs.Signs
import MolangCompiler.Routine.Run

/-!
# Odd powers of negative numbers

An odd power changes its sign with its base, and rounding to single precision keeps signs.  So the
value of a power does too, even where it is too large for single precision.  A power that is too
large for double precision is an exception: its value is the positive infinity for both signs.

The power function itself is not known here.  Of it nothing is used but what `SignedPower` says.
-/

namespace MolangCompiler

open Float.Model (UnpackedFloat)

/-- The value of a power for a given power function, which overflows where its value is infinite. -/
def powerBy (pow : Float → Float → Float) (a b : Float) : Float :=
  if a.isFinite && b.isFinite then
    if (a < 0 && !isInteger b) || (a == 0 && b < 0) then notANumber
    else if (pow a b).isInf then Scaled.infinity false else pow a b
  else pow a b

/-- Whether a number is an odd integer. -/
def isOdd (b : Float) : Bool := b.isFinite && isInteger b && !isInteger (b / 2)

/-- An odd power overflows for both signs of its base or for none, and otherwise changes its sign
with it. -/
structure SignedPower (pow : Float → Float → Float) : Prop where
  overflow {a b : Float} : a.isFinite → 0 < a → isOdd b → (pow (-a) b).isInf = (pow a b).isInf
  neg {a b : Float} : a.isFinite → 0 < a → isOdd b → (pow a b).isInf = false → pow (-a) b = -pow a b

/-! ## Signs of numbers -/

private theorem isFinite_neg (a : Float) : (-a).isFinite = a.isFinite := by
  show (-a).toModel.unpack.isFinite = a.toModel.unpack.isFinite
  rw [unpack_neg_eq]
  cases a.toModel.unpack <;> rfl

/-- A positive number is not zero, and neither is its opposite. -/
theorem ne_zero_of_pos {a : Float} (h : 0 < a) : (a == 0) = false ∧ (-a == 0) = false := by
  have hLess : (UnpackedFloat.zero .positive).lt a.toModel.unpack = true := of_decide_eq_true h
  show a.toModel.unpack.beq (.zero .positive) = false ∧
    (-a).toModel.unpack.beq (.zero .positive) = false
  rw [unpack_neg_eq]
  cases hParts : a.toModel.unpack with
  | zero sign =>
    rw [hParts] at hLess
    cases hLess
  | notANumber => exact ⟨rfl, rfl⟩
  | infinity sign | finite sign => cases sign <;> exact ⟨rfl, rfl⟩

/-! ## Values of powers -/

private theorem powerBy_of_odd {pow : Float → Float → Float} {a b : Float} (hFinite : a.isFinite)
    (hZero : (a == 0) = false) (hOdd : isOdd b) :
    powerBy pow a b = if (pow a b).isInf then Scaled.infinity false else pow a b := by
  simp only [isOdd, Bool.and_eq_true] at hOdd
  simp [powerBy, hFinite, hZero, hOdd.1.1, hOdd.1.2]

/-- The helper for powers uses the power function of the library. -/
theorem result_pow (x y : Float) : Helper.pow.result? [x, y] = some (powerBy Float.pow x y) := by
  have hOutcome : Helper.pow.outcome? [x, y] = some (Helper.power x y) := rfl
  unfold Helper.result?
  rw [hOutcome]
  unfold Helper.power Helper.Library.power Helper.Library.bounded powerBy
  by_cases hFinite : (x.isFinite && y.isFinite) = true
  · simp only [hFinite, Bool.true_and, if_true]
    split_ifs <;> rfl
  · simp only [eq_false_of_ne_true hFinite, Bool.false_and]
    rfl

/-- **The sign of an odd power.**  It is that of the base as long as the power fits into double
precision, whether or not it fits into single precision; otherwise both signs of the base have the
same power, the positive infinity. -/
theorem odd_powers_change_sign_unless_they_overflow (pow : Float → Float → Float)
    (hPow : SignedPower pow) {a b : Float} (hFinite : a.isFinite) (hPos : 0 < a) (hOdd : isOdd b) :
    (∀ {σ : Type} (x y : Float) (s : σ),
        Helper.pow.apply [x, y] s = .ok (single (powerBy Float.pow x y)) s) ∧
      single (powerBy pow (-a) b) =
        (if (pow a b).isInf then single (powerBy pow a b) else -single (powerBy pow a b)) ∧
      ((pow a b).isInf → single (powerBy pow a b) = Scaled.infinity false) := by
  obtain ⟨hZero, hZero'⟩ := ne_zero_of_pos hPos
  refine ⟨fun x y s => by rw [Helper.apply, result_pow]; rfl, ?_, fun hInf => ?_⟩
  · rw [powerBy_of_odd ((isFinite_neg a).trans hFinite) hZero' hOdd,
      powerBy_of_odd hFinite hZero hOdd, hPow.overflow hFinite hPos hOdd]
    by_cases hInf : (pow a b).isInf = true
    · simp only [if_pos hInf]
    · simp only [if_neg hInf]
      rw [hPow.neg hFinite hPos hOdd (eq_false_of_ne_true hInf), single_neg]
  · rw [powerBy_of_odd hFinite hZero hOdd, if_pos hInf, single_infinity]

private theorem signedPower_first : SignedPower fun a _ => a where
  overflow {a _} hFinite _ _ := by
    rw [(Helper.isFinite_excludes hFinite).1,
      (Helper.isFinite_excludes ((isFinite_neg a).trans hFinite)).1]
  neg _ _ _ _ := rfl

/-- A power beyond single precision: with the exponent one the base itself is the power, and its
sign is kept. -/
theorem odd_power_beyond_single_precision :
    single (powerBy (fun a _ => a) (-1e39) 1) = -single (powerBy (fun a _ => a) 1e39 1) :=
  (odd_powers_change_sign_unless_they_overflow _ signedPower_first (a := 1e39) (b := 1)
    (by decide +kernel) (by decide +kernel) (by decide +kernel)).2.1.trans
      (if_neg (by decide +kernel))

/-- A power that overflows is positive for both signs of its base. -/
theorem overflowing_power_loses_its_sign :
    ¬ ∀ pow, SignedPower pow → ∀ {a b : Float}, a.isFinite → 0 < a → isOdd b →
      single (powerBy pow (-a) b) = -single (powerBy pow a b) := by
  intro hAll
  have hSame := hAll (fun _ _ => Scaled.infinity false)
    ⟨fun _ _ _ => rfl, fun _ _ _ hInf => by cases hInf⟩ (a := 10) (b := 309) (by decide +kernel)
    (by decide +kernel) (by decide +kernel)
  revert hSame
  decide +kernel

end MolangCompiler
