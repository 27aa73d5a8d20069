import CliffordT.Proofs.Exact
import CliffordT.Proofs.DeepSearch
import CliffordT.Verify

/-!
# Exact angles

With angles in radians, real errors and complex matrices a search and a verification run in exact arithmetic
(`Probe.exact`, `Verify.Check.exact`).

Two angles in one turn are the same if they are the same on the circle (`Angle.normalize_eq_of_coe_eq`), so that
equations between them are equations in `Real.Angle`.  Turning the second row of a matrix by `k` eighths advances its
relative phase by `k` eighths, unless there is nothing to turn (`Mat.phase_diag_mul`).
-/

namespace CliffordT

namespace Angle

theorem coe_normalize (φ : ℝ) : ((normalize φ : ℝ) : Real.Angle) = φ :=
  Real.Angle.coe_toIcoMod φ 0

theorem normalize_eq_of_coe_eq {φ ψ : ℝ} (h : (φ : Real.Angle) = ψ) : normalize φ = normalize ψ := by
  obtain ⟨n, hn⟩ := Real.Angle.angle_eq_iff_two_pi_dvd_sub.1 h.symm
  refine (toIcoMod_eq_toIcoMod Real.two_pi_pos).2 ⟨n, ?_⟩
  rw [hn, zsmul_eq_mul, mul_comm]

theorem normalize_normalize (φ : ℝ) : normalize (normalize φ) = normalize φ :=
  normalize_eq_of_coe_eq (coe_normalize φ)

theorem normalize_zero : normalize (0 : ℝ) = 0 :=
  (toIcoMod_eq_self Real.two_pi_pos).2 ⟨le_refl 0, by simpa using Real.two_pi_pos⟩

theorem coe_advance (φ : ℝ) (k : Nat) :
    ((advance φ k : ℝ) : Real.Angle) = φ + ((k * Real.pi / 4 : ℝ) : Real.Angle) :=
  (coe_normalize _).trans (Real.Angle.coe_add _ _)

theorem normalize_advance (φ : ℝ) (k : Nat) : normalize (advance φ k) = advance φ k :=
  normalize_normalize _

theorem distance_self (φ : ℝ) : distance φ φ = 0 := by
  unfold distance
  rw [sub_self, normalize_zero]
  exact if_neg (not_lt.2 Real.pi_pos.le)

end Angle

namespace Mat

/-- The angle by which a diagonal matrix turns, up to a common phase. -/
noncomputable def phase (m : Mat ℂ) : ℝ := Angle.normalize (m.d.arg - m.a.arg)

/-- The larger absolute value off the diagonal. -/
noncomputable def residual (m : Mat ℂ) : ℝ := max ‖m.b‖ ‖m.c‖

theorem normalize_phase (m : Mat ℂ) : Angle.normalize m.phase = m.phase :=
  Angle.normalize_normalize _

theorem phase_one : (1 : Mat ℂ).phase = 0 := by
  show Angle.normalize ((1 : ℂ).arg - (1 : ℂ).arg) = 0
  rw [sub_self, Angle.normalize_zero]

end Mat

theorem root_eq_exp : (ExactNumbers.root : ℂ) = Complex.exp ((Real.pi / 4 : ℝ) * Complex.I) := by
  show Complex.exp (Real.pi / 4 * Complex.I) = _
  push_cast
  rfl

theorem norm_root_pow (k : Nat) : ‖(ExactNumbers.root : ℂ) ^ k‖ = 1 := by
  rw [norm_pow, root_eq_exp, Complex.norm_exp_ofReal_mul_I, one_pow]

theorem coe_arg_root_pow (k : Nat) :
    (((ExactNumbers.root : ℂ) ^ k).arg : Real.Angle) = ((k * Real.pi / 4 : ℝ) : Real.Angle) := by
  have hroot : ((ExactNumbers.root : ℂ).arg : Real.Angle) = ((Real.pi / 4 : ℝ) : Real.Angle) := by
    rw [root_eq_exp, Complex.arg_exp_mul_I, Real.Angle.coe_toIocMod]
  rw [Complex.arg_pow_coe_angle, hroot, ← Real.Angle.coe_nsmul, nsmul_eq_mul, mul_div_assoc]

/-- Turning the second row by `k` eighths advances the phase by `k` eighths. -/
theorem Mat.phase_diag_mul {m : Mat ℂ} (hd : m.d ≠ 0) (k : Nat) :
    (diag 1 (ExactNumbers.root ^ k) * m).phase = Angle.advance m.phase k := by
  have hroot : (ExactNumbers.root : ℂ) ^ k ≠ 0 := by
    rw [← norm_pos_iff, norm_root_pow]
    exact one_pos
  rw [diag_one_mul, phase]
  refine (Angle.normalize_eq_of_coe_eq ?_).trans (Angle.normalize_advance m.phase k)
  rw [Angle.coe_advance, phase, Angle.coe_normalize, Real.Angle.coe_sub, Real.Angle.coe_sub,
    Complex.arg_mul_coe_angle hroot hd, coe_arg_root_pow]
  abel

/-- The measurements of a search in exact arithmetic. -/
noncomputable def Probe.exact (eps : ℝ) : Probe (Mat ℂ) ℝ ℝ where
  isDiagonal m := decide (‖m.b‖ < eps) && decide (‖m.c‖ < eps)
  phase := Mat.phase
  error := Mat.residual

/-- The measurements of a verification in exact arithmetic. -/
noncomputable def Verify.Check.exact (eps : ℝ) : Verify.Check (Mat ℂ) ℝ ℝ :=
  { Probe.exact eps with far := fun actual expected => decide (eps ≤ Angle.distance actual expected) }

end CliffordT
