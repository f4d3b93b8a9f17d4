import Mathlib.Data.List.Basic
import MolangCompiler.Helper

/-!
# No helper fails

The functions of the numeric library fail for some numbers.  The helpers ask beforehand or handle
the failure, each for the numbers at hand, so that none of them fails. -/

namespace MolangCompiler

namespace Helper

theorem isFinite_excludes {a : Float} (h : a.isFinite) : a.isInf = false ∧ a.isNaN = false := by
  change a.toModel.unpack.isFinite = true at h
  show a.toModel.unpack.isInf = false ∧ a.toModel.unpack.isNaN = false
  cases hParts : a.toModel.unpack with
  | infinity | notANumber =>
    rw [hParts] at h
    cases h
  | zero | finite => exact ⟨rfl, rfl⟩

open Float.Model (UnpackedFloat) in
/-- A number is not on both sides of zero. -/
theorem not_both_signs (a : Float) : ¬(0 ≤ a ∧ a < 0) ∧ ¬(0 < a ∧ a ≤ 0) := by
  have hModel (u : UnpackedFloat) :
      ((UnpackedFloat.zero .positive).le u && u.lt (.zero .positive)) = false ∧
        ((UnpackedFloat.zero .positive).lt u && u.le (.zero .positive)) = false := by
    cases u with
    | notANumber => exact ⟨rfl, rfl⟩
    | zero sign | infinity sign | finite sign => cases sign <;> exact ⟨rfl, rfl⟩
  obtain ⟨hNeg, hPos⟩ := hModel a.toModel.unpack
  refine ⟨fun h => Bool.false_ne_true (hNeg.symm.trans ?_),
    fun h => Bool.false_ne_true (hPos.symm.trans ?_)⟩
  · exact Bool.and_eq_true_iff.mpr ⟨of_decide_eq_true h.1, of_decide_eq_true h.2⟩
  · exact Bool.and_eq_true_iff.mpr ⟨of_decide_eq_true h.1, of_decide_eq_true h.2⟩

/-- A guarded call fails only if it fails where it may be called. -/
theorem exists_guarded {guard : Bool} {call : Except MathError Float} {other : Float}
    (h : guard = true → ∃ x, call = .ok x) : ∃ x, guarded guard call other = .ok x := by
  cases guard with
  | false => exact ⟨other, rfl⟩
  | true => exact h rfl

theorem exists_divide (a b : Float) : ∃ x, divide a b = .ok x :=
  exists_guarded fun hGuard => ⟨_, if_neg (by simpa using hGuard)⟩

theorem exists_remainder (a b : Float) : ∃ x, remainder a b = .ok x := by
  refine exists_guarded fun hGuard => ⟨_, if_neg fun hDomain => ?_⟩
  simp only [Bool.not_eq_true', Bool.or_eq_false_iff] at hGuard
  simp [hGuard.1.1.1, hGuard.1.1.2] at hDomain

theorem exists_power (a b : Float) : ∃ x, power a b = .ok x := by
  unfold power Library.power Library.bounded
  split_ifs <;> exact ⟨_, rfl⟩

theorem exists_root (a : Float) : ∃ x, root a = .ok x :=
  exists_guarded fun hGuard =>
    ⟨_, if_neg fun hNeg => (not_both_signs a).1 ⟨of_decide_eq_true hGuard, hNeg⟩⟩

theorem exists_logarithm (a : Float) : ∃ x, logarithm a = .ok x :=
  exists_guarded fun hGuard =>
    ⟨_, if_neg fun hNot => (not_both_signs a).2 ⟨of_decide_eq_true hGuard, hNot⟩⟩

theorem exists_exponential (a : Float) : ∃ x, exponential a = .ok x := by
  unfold exponential Library.bounded
  split_ifs <;> exact ⟨_, rfl⟩

theorem exists_ofDegrees (f : Float → Float) (a : Float) : ∃ x, ofDegrees f a = .ok x :=
  exists_guarded fun hGuard => ⟨_, if_neg (Bool.eq_false_iff.mp (isFinite_excludes hGuard).1)⟩

theorem exists_integer (pick : Scaled → Int) (shift a : Float) :
    ∃ x, integer pick shift a = .ok x := by
  refine exists_guarded fun hGuard => ?_
  obtain ⟨hInf, hNaN⟩ := isFinite_excludes hGuard
  exact ⟨_, (if_neg (Bool.eq_false_iff.mp hInf)).trans (if_neg (Bool.eq_false_iff.mp hNaN))⟩

/-- **No helper fails** on numbers, as long as it gets as many as it takes. -/
theorem exists_outcome (h : Helper) {vs : List Float} (hLength : vs.length = h.arity) :
    ∃ x, h.outcome? vs = some (.ok x) := by
  have hSome {call : Except MathError Float} (hOk : ∃ x, call = .ok x) :
      ∃ x, some call = some (.ok x) := hOk.imp fun _ => congrArg some
  cases h with
  | div | mod | pow | atan2 | min | max =>
    obtain ⟨a, b, rfl⟩ := List.length_eq_two.mp hLength
    first
      | exact hSome (exists_divide a b)
      | exact hSome (exists_remainder a b)
      | exact hSome (exists_power a b)
      | exact ⟨_, rfl⟩
  | sqrt | ln | exp | sin | cos | round | floor | ceil | trunc | abs | single =>
    obtain ⟨a, rfl⟩ := List.length_eq_one_iff.mp hLength
    first
      | exact hSome (exists_root a)
      | exact hSome (exists_logarithm a)
      | exact hSome (exists_exponential a)
      | exact hSome (exists_ofDegrees _ a)
      | exact hSome (exists_integer _ _ a)
      | exact ⟨_, rfl⟩

theorem exists_result (h : Helper) {vs : List Float} (hLength : vs.length = h.arity) :
    ∃ x, h.result? vs = some x := by
  obtain ⟨x, hOutcome⟩ := h.exists_outcome hLength
  exact ⟨x, by rw [result?, hOutcome]⟩

end Helper

end MolangCompiler
