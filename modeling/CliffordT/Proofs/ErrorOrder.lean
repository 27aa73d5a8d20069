import Mathlib
import CliffordT.Double

/-!
# Comparing errors

The table compares an error with five quarters of another.  What it relies on is that errors which are not negative are
ordered, and that five quarters of such an error are not less than it (`Residual.Ordered`).  Rational errors are of this
kind, and so are doubles.

For doubles nothing is assumed about rounding.

* Numbers are compared by sign, exponent and mantissa (`Double.le_iff`, `Double.lt_iff`), so all of them are ordered but
  the one that is no number, and that one is not comparable to zero.
* Five quarters of a positive number `m * 2 ^ e` are rounded to the exponent `e` with a mantissa of at least `m`, or to
  a larger exponent (`Double.exists_mul_five_quarters`), and in this order the result is not less (`Double.le_widen`).
-/

namespace CliffordT

/-- Errors from zero on are ordered, and widening one does not make it less. -/
class Residual.Ordered (E : Type) [Residual E] [LE E] : Prop where
  le_trans {x y z : E} : x ≤ y → y ≤ z → x ≤ z
  le_total {x y : E} : 0 ≤ x → 0 ≤ y → x ≤ y ∨ y ≤ x
  lt_iff_not_le {x y : E} : 0 ≤ x → 0 ≤ y → (x < y ↔ ¬ y ≤ x)
  le_widen {x : E} : 0 ≤ x → x ≤ Residual.widen x

/-! ### Rational errors -/

instance : Residual ℚ where
  widen x := 5 / 4 * x
  decLt := inferInstance

instance : Residual.Ordered ℚ where
  le_trans := le_trans
  le_total _ _ := le_total _ _
  lt_iff_not_le _ _ := not_le.symm
  le_widen {x} hx := by
    have hx : (0 : ℚ) ≤ x := hx
    show x ≤ 5 / 4 * x
    linarith

namespace Double

open Float.Model Float.Model.UnpackedFloat

/-! ### The order of doubles -/

/-- Where a number stands among the infinities, the negative and the positive numbers, and zero. -/
def rank : UnpackedFloat → Int
  | .infinity .negative => -2
  | .finite .negative .. => -1
  | .finite .positive .. => 1
  | .infinity .positive => 2
  | _ => 0

/-- The exponent, so that it grows with the number. -/
def scale : UnpackedFloat → Int
  | .finite .negative _ e _ => -e
  | .finite .positive _ e _ => e
  | _ => 0

/-- The mantissa, so that it grows with the number. -/
def digits : UnpackedFloat → Int
  | .finite .negative m .. => -m
  | .finite .positive m .. => m
  | _ => 0

private theorem lex_eq_lt (e f : Int) (m n : Nat) :
    (compare e f).then (compare m n) = .lt ↔ e < f ∨ e = f ∧ m < n := by
  rw [Ordering.then_eq_lt, Std.compare_eq_lt, compare_eq_iff_eq, Std.compare_eq_lt]

private theorem lex_isLE (e f : Int) (m n : Nat) :
    ((compare e f).then (compare m n)).isLE = true ↔ e < f ∨ e = f ∧ m ≤ n := by
  rw [Ordering.isLE_then_iff_or, Std.compare_eq_lt, compare_eq_iff_eq, Std.isLE_compare]

private theorem lex_swap (e f : Int) (m n : Nat) :
    ((compare e f).then (compare m n)).swap = (compare f e).then (compare n m) := by
  rw [Ordering.swap_then, Std.OrientedOrd.eq_swap (a := f), Std.OrientedOrd.eq_swap (a := n)]

private theorem unpacked_le_iff (a b : UnpackedFloat) :
    a.le b = true ↔ a.isNaN = false ∧ b.isNaN = false ∧
      (rank a < rank b ∨ rank a = rank b ∧ (scale a < scale b ∨ scale a = scale b ∧ digits a ≤ digits b)) := by
  -- only two numbers of the same sign need their exponents and mantissas
  rcases a with (_ | _) | _ | _ | ⟨_ | _, m, e, hm⟩ <;> rcases b with (_ | _) | _ | _ | ⟨_ | _, n, f, hn⟩ <;>
    simp [UnpackedFloat.le, UnpackedFloat.compare, rank, scale, digits, UnpackedFloat.isNaN, lex_isLE, lex_swap,
      -Ordering.isLE_swap]
  exacts [rfl, rfl, rfl, rfl, by rw [eq_comm (a := f)]]

private theorem unpacked_lt_iff (a b : UnpackedFloat) :
    a.lt b = true ↔ a.isNaN = false ∧ b.isNaN = false ∧
      (rank a < rank b ∨ rank a = rank b ∧ (scale a < scale b ∨ scale a = scale b ∧ digits a < digits b)) := by
  rcases a with (_ | _) | _ | _ | ⟨_ | _, m, e, hm⟩ <;> rcases b with (_ | _) | _ | _ | ⟨_ | _, n, f, hn⟩ <;>
    simp [UnpackedFloat.lt, UnpackedFloat.compare, rank, scale, digits, UnpackedFloat.isNaN, lex_eq_lt, lex_swap,
      -Ordering.swap_eq_lt]
  exacts [rfl, by rw [eq_comm (a := f)]]

/-- The parts by which a double is compared. -/
abbrev parts (x : Float) : UnpackedFloat := x.toModel.unpack

theorem le_iff (x y : Float) :
    x ≤ y ↔ (parts x).isNaN = false ∧ (parts y).isNaN = false ∧
      (rank (parts x) < rank (parts y) ∨ rank (parts x) = rank (parts y) ∧
        (scale (parts x) < scale (parts y) ∨ scale (parts x) = scale (parts y) ∧
          digits (parts x) ≤ digits (parts y))) := by
  rw [← unpacked_le_iff]
  exact decide_eq_true_iff

theorem lt_iff (x y : Float) :
    x < y ↔ (parts x).isNaN = false ∧ (parts y).isNaN = false ∧
      (rank (parts x) < rank (parts y) ∨ rank (parts x) = rank (parts y) ∧
        (scale (parts x) < scale (parts y) ∨ scale (parts x) = scale (parts y) ∧
          digits (parts x) < digits (parts y))) := by
  rw [← unpacked_lt_iff]
  exact decide_eq_true_iff

/-! ### Rounding a product -/

/-- The mantissas and exponents of finite doubles, and of numbers of the same form beyond the range. -/
structure Canonical (m : Nat) (e : Int) : Prop where
  lt : m < 2 ^ 53
  le : -1074 ≤ e
  normal : 2 ^ 52 ≤ m ∨ e = -1074

/-- The exponent to which `m * 2 ^ e` is rounded. -/
def place (m : Nat) (e : Int) : Int := max (m.log2 + 1 + e - 53) (-1074)

theorem mantissa_shiftRight (em : ExtendedMantissa) (k : Nat) :
    (em >>> k).mantissa = em.mantissa / 2 ^ k := by
  induction k with
  | zero => exact (Nat.div_one _).symm
  | succ k ih =>
    show (em >>> k).mantissa / 2 = _
    rw [ih, Nat.div_div_eq_div_mul, Nat.pow_succ]

theorem roundedMantissa_bounds (em : ExtendedMantissa) :
    em.mantissa ≤ em.roundedMantissa ∧ em.roundedMantissa ≤ em.mantissa + 1 := by
  rcases em with ⟨m, _ | _, _ | _⟩ <;>
    simp only [ExtendedMantissa.roundedMantissa, ExtendedMantissa.accuracy, Accuracy.roundToNearestEven] <;> omega

theorem shiftToTargetExponent_exact (m : Nat) (e : Int) :
    shiftToTargetExponent Format.binary64 m e .exact =
      ((⟨m, false, false⟩ : ExtendedMantissa) >>> (place m e - e).toNat, e + (place m e - e).toNat) := rfl

theorem toNat_place_sub_of_lt {m : Nat} {e : Int} (hm : m < 2 ^ 53) (he : -1074 ≤ e) :
    (place m e - e).toNat = 0 := by
  have hlog : m.log2 < 53 := by
    by_cases hz : m = 0
    · subst hz
      decide
    · exact (Nat.log2_lt hz).2 hm
  unfold place
  omega

/-- What is left of a number when it is cut off at its place. -/
theorem canonical_cut {m : Nat} {e : Int} (hm : m ≠ 0) (he : e ≤ place m e) :
    Canonical (m / 2 ^ (place m e - e).toNat) (place m e) where
  lt := by
    rw [Nat.div_lt_iff_lt_mul (Nat.two_pow_pos _), ← Nat.pow_add]
    refine lt_of_lt_of_le Nat.lt_log2_self (Nat.pow_le_pow_right (by decide) ?_)
    unfold place
    omega
  le := le_max_right _ _
  normal := by
    by_cases hmin : place m e = -1074
    · exact Or.inr hmin
    · left
      rw [Nat.le_div_iff_mul_le (Nat.two_pow_pos _), ← Nat.pow_add]
      refine le_trans (Nat.pow_le_pow_right (by decide) ?_) (Nat.log2_self_le hm)
      unfold place at hmin he ⊢
      omega

/-- A number whose leading bits are kept is rounded to the mantissa that is cut off, or a larger one, or to a larger
exponent. -/
theorem exists_round {m : Nat} {e : Int} (he : e ≤ place m e) (hpos : 0 < m / 2 ^ (place m e - e).toNat) :
    ∃ m' e' h, roundWithAccuracy Format.binary64 .positive m e .exact = .finite .positive m' e' h ∧ Canonical m' e' ∧
      (place m e < e' ∨ place m e = e' ∧ m / 2 ^ (place m e - e).toNat ≤ m') := by
  have hm : m ≠ 0 := by
    rintro rfl
    simp at hpos
  obtain ⟨hlt, hmin, hnormal⟩ := canonical_cut hm he
  have hbounds := roundedMantissa_bounds ((⟨m, false, false⟩ : ExtendedMantissa) >>> (place m e - e).toNat)
  rw [mantissa_shiftRight] at hbounds
  obtain ⟨hfloor, hceil⟩ := hbounds
  have hsum : e + (place m e - e).toNat = place m e := by omega
  rw [roundWithAccuracy, shiftToTargetExponent_exact, hsum]
  dsimp only
  -- from here on only the bounds of the rounded mantissa matter
  generalize ((⟨m, false, false⟩ : ExtendedMantissa) >>> (place m e - e).toNat).roundedMantissa = r at *
  generalize m / 2 ^ (place m e - e).toNat = q at *
  generalize place m e = p at *
  rw [shiftToTargetExponent_exact]
  dsimp only
  rw [mantissa_shiftRight]
  by_cases hr : r < 2 ^ 53
  · have hdiv : r / 2 ^ 0 = r := Nat.div_one r
    rw [toNat_place_sub_of_lt hr hmin]
    simp only [hdiv]
    rw [dif_neg (by omega)]
    exact ⟨r, _, by omega, rfl, ⟨hr, by omega, by omega⟩, by omega⟩
  · -- rounding up has carried into one more bit
    have hr : r = 2 ^ 53 := by omega
    subst hr
    have hshift : (place (2 ^ 53) p - p).toNat = 1 := by
      unfold place
      rw [Nat.log2_two_pow]
      omega
    rw [hshift]
    exact ⟨2 ^ 52, p + 1, by decide, rfl, ⟨by decide, by omega, by omega⟩, by omega⟩

/-! ### Writing and reading the bits -/

theorem exponentBias_binary64 : Format.binary64.exponentBias = 1023 := rfl

theorem toNat_implicit (v : BitVec 52) : (1#1 ++ v).toNat = 2 ^ 52 + v.toNat := by
  rw [BitVec.toNat_append, ← Nat.shiftLeft_add_eq_or_of_lt v.isLt]
  rfl

theorem canonical_of_parts_eq {x : Float} {s : Sign} {m : Nat} {e : Int} {h : 0 < m}
    (hx : parts x = .finite s m e h) : Canonical m e := by
  unfold parts Float.Model.unpack UnpackedFloat.unpack at hx
  dsimp only at hx
  have hfraction : (@unpackMantissa Format.binary64 x.toModel.toBits.toBitVec).toNat < 2 ^ 52 :=
    BitVec.isLt _
  split at hx
  · split at hx <;> cases hx
  · split at hx
    · split at hx
      · cases hx
      · rename_i hexp _
        injection hx with _ hm he
        rw [hexp, exponentBias_binary64] at he
        change (0 : Int) - (1023 + 52) + 1 = e at he
        exact ⟨by omega, by omega, Or.inr (by omega)⟩
    · rename_i hexp
      injection hx with _ hm he
      have hpos : (@unpackExponent Format.binary64 x.toModel.toBits.toBitVec).toNat ≠ 0 := fun hzero =>
        hexp (BitVec.eq_of_toNat_eq hzero)
      rw [exponentBias_binary64] at he
      rw [toNat_implicit] at hm
      exact ⟨by omega, by omega, Or.inl (by omega)⟩

private theorem unpackSign_packComponents (spec : Float.Model.Format) (s : Sign) (e : BitVec spec.exponentBits)
    (m : BitVec spec.mantissaBitsWithoutImplicit) : unpackSign (packComponents spec s e m) = s.toBitVec := by
  apply BitVec.eq_of_getLsbD_eq
  intro i hi
  have hi : i = 0 := by omega
  subst hi
  simp [unpackSign, packComponents, BitVec.getLsbD_append, BitVec.getElem_append]

private theorem ofBitVec_toBitVec (s : Sign) : Sign.ofBitVec s.toBitVec = s := by
  cases s <;> rfl

private theorem unpack_normal {s : Sign} {x : BitVec 11} {y : BitVec 52} (hzero : x.toNat ≠ 0)
    (hones : x.toNat ≠ 2047) :
    UnpackedFloat.unpack Format.binary64 (packComponents Format.binary64 s x y) =
      .finite s (2 ^ 52 + y.toNat) (x.toNat - 1075) (by omega) := by
  have hx : x ≠ -1#11 := by
    rintro rfl
    exact hones rfl
  have hx' : x ≠ 0#11 := by
    rintro rfl
    exact hzero rfl
  unfold UnpackedFloat.unpack
  simp only [unpackMantissa_packComponents, unpackExponent_packComponents, unpackSign_packComponents, toNat_implicit,
    ofBitVec_toBitVec]
  rw [if_neg hx, if_neg hx']
  rfl

private theorem unpack_subnormal {s : Sign} {y : BitVec 52} (hy : 0 < y.toNat) :
    UnpackedFloat.unpack Format.binary64 (packComponents Format.binary64 s 0#11 y) =
      .finite s y.toNat (-1074) hy := by
  have hy' : y ≠ 0#52 := by
    rintro rfl
    exact absurd hy (by decide)
  unfold UnpackedFloat.unpack
  simp only [unpackMantissa_packComponents, unpackExponent_packComponents, unpackSign_packComponents, ↓reduceIte,
    ofBitVec_toBitVec]
  rw [if_neg (by decide), dif_neg hy']
  rfl

/-- A number of the right form is read back from its bits, unless it is beyond the range and becomes infinite. -/
theorem unpack_pack {s : Sign} {m : Nat} {e : Int} (hm : 0 < m) (hc : Canonical m e) :
    (971 < e ∧ (Float.Model.pack (.finite s m e hm)).unpack = .infinity s) ∨
    (Float.Model.pack (.finite s m e hm)).unpack = .finite s m e hm := by
  obtain ⟨hlt, hle, hnormal⟩ := hc
  show (971 < e ∧ UnpackedFloat.unpack Format.binary64 (UnpackedFloat.pack Format.binary64 _) = _) ∨
    UnpackedFloat.unpack Format.binary64 (UnpackedFloat.pack Format.binary64 _) = _
  have hbits : Format.binary64.mantissaBits = 53 := rfl
  have hmant : (BitVec.ofNat 52 m).toNat = m % 2 ^ 52 := BitVec.toNat_ofNat m 52
  unfold UnpackedFloat.pack
  dsimp only
  rw [exponentBias_binary64, hbits]
  split
  · rename_i hrange
    have hrange : 2 ^ 11 ≤ (e + (1023 : Nat) + (52 : Nat)).toNat + 1 := hrange
    exact Or.inl ⟨by omega, by cases s <;> rfl⟩
  · rename_i hrange
    right
    split
    · rename_i hlog
      have hlow : 2 ^ 52 ≤ m := (Nat.le_log2 hm.ne').1 (by omega)
      have hrange : ¬ 2 ^ 11 ≤ (e + (1023 : Nat) + (52 : Nat)).toNat + 1 := hrange
      have hexp : (BitVec.ofNat 11 (e + (1023 : Nat) + (52 : Nat)).toNat).toNat = (e + 1075).toNat := by
        rw [BitVec.toNat_ofNat]
        omega
      refine (unpack_normal (x := BitVec.ofNat 11 (e + (1023 : Nat) + (52 : Nat)).toNat) ?_ ?_).trans ?_
      · omega
      · omega
      · rw [UnpackedFloat.finite.injEq, hexp, hmant]
        exact ⟨rfl, by omega, by omega⟩
    · rename_i hlog
      have hlog52 : m.log2 < 53 := (Nat.log2_lt hm.ne').2 hlt
      have hhigh : m < 2 ^ 52 := (Nat.log2_lt hm.ne').1 (by omega)
      refine (unpack_subnormal (y := BitVec.ofNat 52 m) (by omega)).trans ?_
      rw [UnpackedFloat.finite.injEq, hmant]
      exact ⟨rfl, by omega, by omega⟩

/-! ### Five quarters of a double -/

private theorem parts_mul (x y : Float) :
    parts (x * y) = (Float.Model.pack (UnpackedFloat.mul Format.binary64 (parts x) (parts y))).unpack := rfl

private theorem parts_zero : parts 0 = .zero .positive := rfl

private theorem parts_five_quarters : parts 1.25 = .finite .positive (5 * 2 ^ 50) (-52) (by decide) := rfl

/-- Five quarters of a number are rounded to its own exponent or a larger one, and not all of their bits are lost. -/
private theorem le_place_five_quarters {m : Nat} {e : Int} (hm : 0 < m) (hc : Canonical m e) :
    e ≤ place (5 * 2 ^ 50 * m) (-52 + e) ∧
    (place (5 * 2 ^ 50 * m) (-52 + e) - (-52 + e)).toNat ≤ (5 * 2 ^ 50 * m).log2 := by
  obtain ⟨hlt, hle, hnormal⟩ := hc
  have hlog : m.log2 + 52 ≤ (5 * 2 ^ 50 * m).log2 := by
    have := Nat.log2_self_le hm.ne'
    rw [Nat.le_log2 (by omega), Nat.pow_add]
    omega
  have hlow : e ≤ place (5 * 2 ^ 50 * m) (-52 + e) := by
    unfold place
    rcases hnormal with hnormal | hnormal
    · have := (Nat.le_log2 hm.ne').2 hnormal
      omega
    · omega
  refine ⟨hlow, ?_⟩
  unfold place at hlow ⊢
  omega

/-- Five quarters of a positive number have a larger exponent, or its exponent and no smaller mantissa. -/
theorem exists_mul_five_quarters {m : Nat} {e : Int} (hm : 0 < m) (hc : Canonical m e) :
    ∃ m' e' h, UnpackedFloat.mul Format.binary64 (.finite .positive (5 * 2 ^ 50) (-52) (by decide))
        (.finite .positive m e hm) = .finite .positive m' e' h ∧
      Canonical m' e' ∧ (e < e' ∨ e = e' ∧ m ≤ m') := by
  obtain ⟨hplace, hshift⟩ := le_place_five_quarters hm hc
  have hpos : 0 < 5 * 2 ^ 50 * m / 2 ^ (place (5 * 2 ^ 50 * m) (-52 + e) - (-52 + e)).toNat := by
    refine Nat.div_pos ?_ (Nat.two_pow_pos _)
    exact le_trans (Nat.pow_le_pow_right (by decide) hshift) (Nat.log2_self_le (by omega))
  obtain ⟨m', e', h, hround, hcanonical, hlarger⟩ := exists_round (by omega) hpos
  refine ⟨m', e', h, hround, hcanonical, ?_⟩
  rcases hlarger with hlarger | ⟨hsame, hfloor⟩
  · omega
  · by_cases he : place (5 * 2 ^ 50 * m) (-52 + e) = e
    · -- with the exponent kept, the mantissa is `5 * m / 4`
      have hwidth : (e - (-52 + e)).toNat = 52 := by omega
      rw [he, hwidth] at hfloor
      omega
    · omega

theorem le_widen {x : Float} (hx : 0 ≤ x) : x ≤ 1.25 * x := by
  rw [le_iff, parts_zero] at hx
  rw [le_iff, parts_mul, parts_five_quarters]
  cases hparts : parts x with
  | notANumber => simp [hparts, UnpackedFloat.isNaN] at hx
  | zero s => cases s <;> exact ⟨rfl, rfl, Or.inr ⟨rfl, Or.inr ⟨rfl, le_refl _⟩⟩⟩
  | infinity s =>
    cases s with
    | positive => exact ⟨rfl, rfl, Or.inr ⟨rfl, Or.inr ⟨rfl, le_refl _⟩⟩⟩
    | negative => simp [hparts, rank] at hx
  | finite s m e hm =>
    cases s with
    | negative => simp [hparts, rank] at hx
    | positive =>
      obtain ⟨m', e', h, hmul, hcanonical, hlarger⟩ := exists_mul_five_quarters hm (canonical_of_parts_eq hparts)
      rw [hmul]
      rcases unpack_pack h hcanonical with ⟨-, hpack⟩ | hpack
      · rw [hpack]
        exact ⟨rfl, rfl, Or.inl (show (1 : Int) < 2 by decide)⟩
      · rw [hpack]
        refine ⟨rfl, rfl, Or.inr ⟨rfl, ?_⟩⟩
        show e < e' ∨ e = e' ∧ (m : Int) ≤ m'
        omega

end Double

instance : Residual.Ordered Float where
  le_trans {x y z} hxy hyz := by
    rw [Double.le_iff] at hxy hyz ⊢
    obtain ⟨hx, -, hxy⟩ := hxy
    obtain ⟨-, hz, hyz⟩ := hyz
    refine ⟨hx, hz, ?_⟩
    omega
  le_total {x y} hx hy := by
    rw [Double.le_iff] at hx hy
    rw [Double.le_iff, Double.le_iff]
    simp only [hx.2.1, hy.2.1, true_and]
    omega
  lt_iff_not_le {x y} hx hy := by
    rw [Double.le_iff] at hx hy
    rw [Double.lt_iff, Double.le_iff]
    simp only [hx.2.1, hy.2.1, true_and]
    omega
  le_widen := Double.le_widen

end CliffordT
