import Mathlib
import CliffordT.Buffer
import CliffordT.Matrix.Block
import CliffordT.Table.Basic

/-!
# Exact matrices

The gates have exact values over any commutative ring with a number `r` such that `2 * r * r = 1` and a number `w`
such that `w ^ 4 = -1`: `r` stands for `1/√2` and `w` for the first eighth root of unity.  The complex numbers are one
(`ExactNumbers ℂ`).  Over such a ring two-by-two matrices are a monoid, nothing is rounded when a matrix is stored,
and the relations between gates hold as equations.

Exact angles and errors are real numbers: an angle is brought into one turn by whole turns, and the slot of an angle is
the nearest multiple of the slot width.
-/

namespace CliffordT

/-- A commutative ring with an exact `1/√2` and an exact eighth root of unity. -/
class ExactNumbers (K : Type) extends CommRing K where
  /-- `1/√2` -/
  rootHalf : K
  /-- the first eighth root of unity -/
  root : K
  two_mul_rootHalf_mul_rootHalf : 2 * rootHalf * rootHalf = 1
  root_pow_four : root ^ 4 = -1

noncomputable instance : ExactNumbers ℂ where
  rootHalf := (Real.sqrt 2 / 2 : ℝ)
  root := Complex.exp (Real.pi / 4 * Complex.I)
  two_mul_rootHalf_mul_rootHalf := by
    have h : (2 : ℝ) * (Real.sqrt 2 / 2) * (Real.sqrt 2 / 2) = 1 := by
      have := Real.mul_self_sqrt (show (0 : ℝ) ≤ 2 by norm_num)
      linear_combination this / 2
    exact_mod_cast congrArg (fun t : ℝ => (t : ℂ)) h
  root_pow_four := by
    rw [← Complex.exp_nat_mul, ← Complex.exp_pi_mul_I]
    congr 1
    push_cast
    ring

section

variable {K : Type} [ExactNumbers K]

instance : GateNumbers K where
  halfRoot := ExactNumbers.rootHalf
  negHalfRoot := -ExactNumbers.rootHalf
  turn k := ExactNumbers.root ^ k

namespace Mat

theorem mul_def (m n : Mat K) :
    m * n = ⟨m.a * n.a + m.b * n.c, m.a * n.b + m.b * n.d, m.c * n.a + m.d * n.c, m.c * n.b + m.d * n.d⟩ := rfl

theorem one_def : (1 : Mat K) = ⟨1, 0, 0, 1⟩ := rfl

instance : Monoid (Mat K) where
  mul_assoc m n l := by
    simp only [mul_def, mk.injEq]
    refine ⟨?_, ?_, ?_, ?_⟩ <;> ring
  one_mul m := by
    simp [mul_def, one_def]
  mul_one m := by
    simp [mul_def, one_def]

instance : Storable (Mat K) where
  round _ m := m

theorem diag_one_mul (u : K) (m : Mat K) : diag 1 u * m = ⟨m.a, m.b, u * m.c, u * m.d⟩ := by
  simp [mul_def, diag]

theorem diag_one_pow (u : K) (n : Nat) : (diag 1 u : Mat K) ^ n = diag 1 (u ^ n) := by
  induction n with
  | zero => rw [pow_zero, pow_zero]; rfl
  | succ n ih => rw [pow_succ, ih, pow_succ]; simp [mul_def, diag]

end Mat

/-! ### Relations between gates -/

theorem gate_h_mul_gate_h : (GateAlgebra.gate .h * GateAlgebra.gate .h : Mat K) = 1 := by
  have h := ExactNumbers.two_mul_rootHalf_mul_rootHalf (K := K)
  show (⟨_, _, _, _⟩ : Mat K) = ⟨1, 0, 0, 1⟩
  simp only [Mat.mk.injEq]
  show ExactNumbers.rootHalf * ExactNumbers.rootHalf + ExactNumbers.rootHalf * ExactNumbers.rootHalf = (1 : K) ∧
    ExactNumbers.rootHalf * ExactNumbers.rootHalf + ExactNumbers.rootHalf * -ExactNumbers.rootHalf = (0 : K) ∧
    ExactNumbers.rootHalf * ExactNumbers.rootHalf + -ExactNumbers.rootHalf * ExactNumbers.rootHalf = (0 : K) ∧
    ExactNumbers.rootHalf * ExactNumbers.rootHalf + -ExactNumbers.rootHalf * -ExactNumbers.rootHalf = (1 : K)
  refine ⟨?_, by ring, by ring, ?_⟩ <;> linear_combination h

theorem root_pow_eight : (ExactNumbers.root : K) ^ 8 = 1 := by
  have h := ExactNumbers.root_pow_four (K := K)
  rw [show 8 = 4 * 2 by rfl, pow_mul, h]
  ring

theorem gate_t_pow (n : Nat) : (GateAlgebra.gate .t : Mat K) ^ n = Mat.diag 1 (ExactNumbers.root ^ n) := by
  have h : (GateAlgebra.gate .t : Mat K) = Mat.diag 1 (ExactNumbers.root ^ 1) := rfl
  rw [h, pow_one, Mat.diag_one_pow]

theorem gate_t_pow_eight : (GateAlgebra.gate .t : Mat K) ^ 8 = 1 := by
  rw [gate_t_pow, root_pow_eight]
  rfl

end

/-! ### Angles -/

/-- Angles in radians. -/
noncomputable instance : Angle ℝ where
  eighths k := k * Real.pi / 4
  normalize φ := toIcoMod Real.two_pi_pos 0 φ
  nearest n φ := ⌊φ * n / (2 * Real.pi) + 1 / 2⌋₊

noncomputable instance : Residual ℝ where
  widen x := 5 / 4 * x
  decLt := Real.decidableLT

/-- How far apart two angles are on the circle. -/
noncomputable def Angle.distance (φ ψ : ℝ) : ℝ :=
  let d := Angle.normalize (φ - ψ)
  if d > Real.pi then 2 * Real.pi - d else d

end CliffordT
