import CliffordT.Proofs.ErrorOrder

/-!
# Sums that stay finite

A sum of two finite doubles can be infinite, but not if one of them is much smaller than the largest double.  This file
bounds doubles by their exponents (`Double.Within`): every finite one is within the exponent 971, and a sum or difference
of one within `t` and one within `s` is within `t` again if `s + 54 ≤ t` (`Double.within_add`, `Double.within_sub`).  The
smaller one is then less than half a unit in the last place that numbers within `t` have, so rounding does not carry it
beyond.
-/

namespace CliffordT

namespace Double

open Float.Model Float.Model.UnpackedFloat

/-! ### Rounding goes up by at most a half -/

theorem roundBit_shiftRight {m k : Nat} (h : ((⟨m, false, false⟩ : ExtendedMantissa) >>> k).roundBit = true) :
    2 ^ k ≤ 2 * (m % 2 ^ k) := by
  cases k with
  | zero => cases h
  | succ k =>
    have hbit : (((⟨m, false, false⟩ : ExtendedMantissa) >>> k).mantissa % 2 != 0) = true := h
    rw [mantissa_shiftRight] at hbit
    have hodd : m / 2 ^ k % 2 = 1 := by simpa using hbit
    have hmod : m % 2 ^ (k + 1) = m % 2 ^ k + 2 ^ k * (m / 2 ^ k % 2) := Nat.mod_pow_succ
    rw [hmod, hodd, Nat.pow_succ]
    omega

theorem two_mul_roundedMantissa_le (m k : Nat) :
    2 * (2 ^ k * ((⟨m, false, false⟩ : ExtendedMantissa) >>> k).roundedMantissa) ≤ 2 * m + 2 ^ k := by
  have hbit := roundBit_shiftRight (m := m) (k := k)
  have hmantissa := mantissa_shiftRight ⟨m, false, false⟩ k
  have hdiv := Nat.div_add_mod m (2 ^ k)
  generalize (⟨m, false, false⟩ : ExtendedMantissa) >>> k = em at *
  obtain ⟨q, round, sticky⟩ := em
  dsimp only at hbit hmantissa
  subst hmantissa
  cases round with
  | false =>
    -- nothing is rounded up
    have hround : (⟨m / 2 ^ k, false, sticky⟩ : ExtendedMantissa).roundedMantissa = m / 2 ^ k := by
      cases sticky <;> rfl
    rw [hround]
    omega
  | true =>
    have hhalf := hbit rfl
    have hround := (roundedMantissa_bounds ⟨m / 2 ^ k, true, sticky⟩).2
    have hmul := Nat.mul_le_mul_left (2 ^ k) hround
    dsimp only at hmul
    rw [Nat.mul_add, Nat.mul_one] at hmul
    omega

/-! ### Doubles by their exponents -/

/-- A finite number of the right form with an exponent up to `t`, or zero. -/
def Within (t : Int) : UnpackedFloat → Prop
  | .zero _ => True
  | .finite _ m e _ => Canonical m e ∧ e ≤ t
  | _ => False

theorem Within.mono {s t : Int} {u : UnpackedFloat} (h : Within s u) (hle : s ≤ t) : Within t u := by
  cases u with
  | zero => trivial
  | finite sign m e hm => exact ⟨h.1, h.2.trans hle⟩
  | infinity => exact h
  | notANumber => exact h

theorem Within.unpack_pack {t : Int} {u : UnpackedFloat} (h : Within t u) (ht : t ≤ 971) :
    Within t (Float.Model.pack u).unpack := by
  cases u with
  | zero sign => cases sign <;> trivial
  | finite sign m e hm =>
    rcases Double.unpack_pack (s := sign) hm h.1 with ⟨hlarge, -⟩ | hpack
    · have hle := h.2
      omega
    · rw [hpack]
      exact h
  | infinity => exact h.elim
  | notANumber => exact h.elim

/-- A number less than half a unit above the largest one within `t` is rounded to one within `t`. -/
theorem within_roundWithAccuracy {m : Nat} {e t : Int} (sign : Sign) (hm : m ≠ 0) (he : e ≤ place m e) (het : e ≤ t)
    (ht : -1074 ≤ t) (hlt : 2 * m < (2 ^ 54 - 1) * 2 ^ (t - e).toNat) :
    Within t (roundWithAccuracy Format.binary64 sign m e .exact) := by
  obtain ⟨hcut, hmin, hnormal⟩ := canonical_cut hm he
  have hhalf := two_mul_roundedMantissa_le m (place m e - e).toNat
  have hbounds := roundedMantissa_bounds ((⟨m, false, false⟩ : ExtendedMantissa) >>> (place m e - e).toNat)
  rw [mantissa_shiftRight] at hbounds
  obtain ⟨hfloor, hceil⟩ := hbounds
  have hplace : place m e ≤ t := by
    have hlog : m.log2 < 53 + (t - e).toNat := by
      rw [Nat.log2_lt hm, Nat.pow_add]
      omega
    unfold place
    omega
  have hsum : e + (place m e - e).toNat = place m e := by omega
  rw [roundWithAccuracy, shiftToTargetExponent_exact, hsum]
  dsimp only
  generalize ((⟨m, false, false⟩ : ExtendedMantissa) >>> (place m e - e).toNat).roundedMantissa = r at *
  generalize m / 2 ^ (place m e - e).toNat = q at *
  generalize place m e = p at *
  rw [shiftToTargetExponent_exact]
  dsimp only
  rw [mantissa_shiftRight]
  by_cases hr : r < 2 ^ 53
  · have hdiv : r / 2 ^ 0 = r := Nat.div_one r
    rw [toNat_place_sub_of_lt hr hmin]
    simp only [hdiv]
    split
    · trivial
    · exact ⟨⟨hr, by omega, by omega⟩, by omega⟩
  · -- rounding up has carried into one more bit, so the exponent was smaller than `t`
    have hr : r = 2 ^ 53 := by omega
    subst hr
    have hshift : (place (2 ^ 53) p - p).toNat = 1 := by
      unfold place
      rw [Nat.log2_two_pow]
      omega
    have hsmall : p < t := by
      by_contra hge
      have hpt : p = t := by omega
      rw [hpt] at hhalf
      generalize 2 ^ (t - e).toNat = unit at hlt hhalf
      omega
    rw [hshift]
    exact ⟨⟨by decide, by omega, Or.inl (by decide)⟩, by omega⟩

private theorem log2_shiftLeft {m : Nat} (hm : m ≠ 0) (k : Nat) : (m <<< k).log2 = m.log2 + k := by
  induction k with
  | zero => rfl
  | succ k ih =>
    have hpos : m <<< k ≠ 0 := by
      rw [Nat.shiftLeft_eq]
      exact Nat.mul_ne_zero hm (Nat.two_pow_pos k).ne'
    rw [Nat.shiftLeft_succ, Nat.log2_two_mul hpos, ih, Nat.add_assoc]

theorem place_shiftLeft {m : Nat} (hm : m ≠ 0) (e : Int) (k : Nat) : place (m <<< k) (e - k) = place m e := by
  unfold place
  rw [log2_shiftLeft hm]
  congr 1
  push_cast
  omega

theorem within_round {m : Nat} {e t : Int} (sign : Sign) (hm : m ≠ 0) (het : e ≤ t) (ht : -1074 ≤ t)
    (hlt : 2 * m < (2 ^ 54 - 1) * 2 ^ (t - e).toNat) : Within t (UnpackedFloat.round Format.binary64 sign m e) := by
  show Within t (roundWithAccuracy Format.binary64 sign (m <<< (e - place m e).toNat) (e - (e - place m e).toNat) .exact)
  have hplace := place_shiftLeft hm e (e - place m e).toNat
  generalize hk : (e - place m e).toNat = k at *
  have hshift : (t - (e - k)).toNat = (t - e).toNat + k := by omega
  refine within_roundWithAccuracy sign ?_ (by omega) (by omega) ht ?_
  · rw [Nat.shiftLeft_eq]
    exact Nat.mul_ne_zero hm (Nat.two_pow_pos k).ne'
  · rw [hshift, Nat.shiftLeft_eq, Nat.pow_add, ← Nat.mul_assoc, ← Nat.mul_assoc]
    exact Nat.mul_lt_mul_of_pos_right hlt (Nat.two_pow_pos k)

/-! ### Sums and differences -/

theorem add_comm (a b : UnpackedFloat) :
    UnpackedFloat.add Format.binary64 a b = UnpackedFloat.add Format.binary64 b a := by
  rcases a with (_ | _) | _ | (_ | _) | ⟨s, m, e, hm⟩ <;> rcases b with (_ | _) | _ | (_ | _) | ⟨r, n, f, hn⟩ <;>
    try rfl
  simp only [UnpackedFloat.add, Int.min_comm f e]
  rw [Int.add_comm]

theorem sub_eq_add_neg (a b : UnpackedFloat) :
    UnpackedFloat.sub Format.binary64 a b = UnpackedFloat.add Format.binary64 a b.neg := by
  rcases a with (_ | _) | _ | (_ | _) | ⟨s, m, e, hm⟩ <;> rcases b with (_ | _) | _ | (_ | _) | ⟨_ | _, n, f, hn⟩ <;>
    try rfl
  simp only [UnpackedFloat.sub, UnpackedFloat.add, UnpackedFloat.neg, Neg.neg, Sign.apply]
  congr 1
  exact Int.sub_neg _ _

private theorem natAbs_apply_add_le (s r : Sign) (m n : Nat) : (s.apply m + r.apply n).natAbs ≤ m + n := by
  cases s <;> cases r <;> simp only [Sign.apply] <;> omega

theorem within_normalize {m : Int} {e t : Int} (sign : Sign) (het : e ≤ t) (ht : -1074 ≤ t)
    (hlt : 2 * m.natAbs < (2 ^ 54 - 1) * 2 ^ (t - e).toNat) :
    Within t (UnpackedFloat.normalize Format.binary64 m e sign) := by
  unfold UnpackedFloat.normalize
  split
  · rename_i hneg
    have hneg : m < 0 := Std.compare_eq_lt.1 hneg
    exact within_round .negative (by omega) het ht (by rwa [show (-m).toNat = m.natAbs by omega])
  · trivial
  · rename_i hpos
    have hpos : 0 < m := Std.compare_eq_gt.1 hpos
    exact within_round .positive (by omega) het ht (by rwa [show m.toNat = m.natAbs by omega])

/-- A sum with a number much smaller than `2 ^ t` stays within `t`. -/
theorem within_add {s t : Int} {a b : UnpackedFloat} (ha : Within t a) (hb : Within s b) (hst : s + 54 ≤ t)
    (ht : -1074 ≤ t) : Within t (UnpackedFloat.add Format.binary64 a b) := by
  rcases a with _ | _ | sign | ⟨sign, m, e, hm⟩
  · exact ha.elim
  · exact ha.elim
  · rcases b with _ | _ | sign' | ⟨sign', n, f, hn⟩
    · exact hb.elim
    · exact hb.elim
    · cases sign <;> cases sign' <;> trivial
    · exact hb.mono (by omega)
  · rcases b with _ | _ | sign' | ⟨sign', n, f, hn⟩
    · exact hb.elim
    · exact hb.elim
    · exact ha
    · obtain ⟨⟨hm', -, -⟩, he⟩ := ha
      obtain ⟨⟨hn', -, -⟩, hf⟩ := hb
      refine within_normalize .positive (by omega) ht ?_
      have habs := natAbs_apply_add_le sign sign' (m <<< (e - min e f).toNat) (n <<< (f - min e f).toNat)
      have hlarge : 2 ^ (e - min e f).toNat ≤ 2 ^ (t - min e f).toNat := Nat.pow_le_pow_right (by decide) (by omega)
      have hsmall : 2 ^ 54 * 2 ^ (f - min e f).toNat ≤ 2 ^ (t - min e f).toNat := by
        rw [← Nat.pow_add]
        exact Nat.pow_le_pow_right (by decide) (by omega)
      rw [Nat.shiftLeft_eq, Nat.shiftLeft_eq] at habs
      have hlarge' : m * 2 ^ (e - min e f).toNat ≤ (2 ^ 53 - 1) * 2 ^ (t - min e f).toNat :=
        Nat.mul_le_mul (by omega) hlarge
      have hsmall' : n * 2 ^ (f - min e f).toNat < 2 ^ 53 * 2 ^ (f - min e f).toNat :=
        Nat.mul_lt_mul_of_pos_right hn' (Nat.two_pow_pos _)
      rw [Nat.shiftLeft_eq, Nat.shiftLeft_eq]
      generalize 2 ^ (t - min e f).toNat = unit at *
      omega

theorem Within.neg {t : Int} {u : UnpackedFloat} (h : Within t u) : Within t u.neg := by
  cases u with
  | zero => trivial
  | finite sign m e hm => exact h
  | infinity => exact h
  | notANumber => exact h

/-! ### Finite doubles -/

private theorem neg_one_toNat : (-1#11).toNat = 2047 := by decide

/-- The exponent of a number, from the bits where it is written. -/
theorem within_unpack {v : BitVec 64} {t : Int} (hones : (@unpackExponent Format.binary64 v).toNat ≠ 2047)
    (hle : ((@unpackExponent Format.binary64 v).toNat : Int) ≤ t + 1075) (ht : -1074 ≤ t) :
    Within t (UnpackedFloat.unpack Format.binary64 v) := by
  have hfraction : (@unpackMantissa Format.binary64 v).toNat < 2 ^ 52 := BitVec.isLt _
  unfold UnpackedFloat.unpack
  dsimp only
  split
  · rename_i h
    exact absurd ((congrArg BitVec.toNat h).trans neg_one_toNat) hones
  · split
    · split
      · trivial
      · rename_i hzero _
        have hzero := congrArg BitVec.toNat hzero
        have hbias : ((@unpackExponent Format.binary64 v).toNat : Int) - (1023 + 52) + 1 = -1074 := by
          rw [hzero]
          rfl
        exact ⟨⟨by omega, hbias.ge, Or.inr hbias⟩, hbias.le.trans ht⟩
    · rename_i hzero
      have hpos : (@unpackExponent Format.binary64 v).toNat ≠ 0 := fun h => hzero (BitVec.eq_of_toNat_eq h)
      have hmantissa := toNat_implicit (@unpackMantissa Format.binary64 v)
      have hbias : ((@unpackExponent Format.binary64 v).toNat : Int) - (1023 + 52) ≤ t := by omega
      have hbias' : -1074 ≤ ((@unpackExponent Format.binary64 v).toNat : Int) - (1023 + 52) := by omega
      exact ⟨⟨by omega, hbias', Or.inl (by omega)⟩, hbias⟩

theorem isFinite_iff (x : Float) : x.isFinite = true ↔ Within 971 (parts x) := by
  show (parts x).isFinite = true ↔ _
  constructor
  · intro h
    have hones : (@unpackExponent Format.binary64 x.toModel.toBits.toBitVec).toNat ≠ 2047 := by
      intro hones
      have hvec : @unpackExponent Format.binary64 x.toModel.toBits.toBitVec = -1#_ :=
        BitVec.eq_of_toNat_eq (hones.trans neg_one_toNat.symm)
      have hparts : (parts x).isFinite = false := by
        show (UnpackedFloat.unpack Format.binary64 x.toModel.toBits.toBitVec).isFinite = false
        unfold UnpackedFloat.unpack
        dsimp only
        rw [if_pos hvec]
        split <;> rfl
      rw [hparts] at h
      cases h
    have hlt : (@unpackExponent Format.binary64 x.toModel.toBits.toBitVec).toNat < 2 ^ 11 := BitVec.isLt _
    exact within_unpack hones (by omega) (by decide)
  · intro h
    generalize parts x = u at h
    cases u with
    | zero => rfl
    | finite => rfl
    | infinity => exact h.elim
    | notANumber => exact h.elim

section

variable {x y : Float} {s t : Int}

theorem isFinite_of_within (h : Within t (parts x)) (ht : t ≤ 971) : x.isFinite = true :=
  (isFinite_iff x).2 (h.mono ht)

theorem isNaN_of_isFinite (h : x.isFinite = true) : x.isNaN = false := by
  have h : (parts x).isFinite = true := h
  show (parts x).isNaN = false
  cases hparts : parts x with
  | notANumber =>
    rw [hparts] at h
    cases h
  | zero => rfl
  | finite => rfl
  | infinity => rfl

theorem within_parts_add (hx : Within t (parts x)) (hy : Within s (parts y)) (hst : s + 54 ≤ t) (ht : -1074 ≤ t)
    (hmax : t ≤ 971) : Within t (parts (x + y)) :=
  (within_add hx hy hst ht).unpack_pack hmax

theorem within_parts_sub (hx : Within t (parts x)) (hy : Within s (parts y)) (hst : s + 54 ≤ t) (ht : -1074 ≤ t)
    (hmax : t ≤ 971) : Within t (parts (x - y)) ∧ Within t (parts (y - x)) := by
  have hsub : Within t (UnpackedFloat.sub Format.binary64 (parts x) (parts y)) := by
    rw [sub_eq_add_neg]
    exact within_add hx hy.neg hst ht
  have hsub' : Within t (UnpackedFloat.sub Format.binary64 (parts y) (parts x)) := by
    rw [sub_eq_add_neg, add_comm]
    exact within_add hx.neg hy hst ht
  exact ⟨hsub.unpack_pack hmax, hsub'.unpack_pack hmax⟩

private theorem isFinite_of_pack {u : UnpackedFloat} (h : (Float.Model.pack u).unpack.isFinite = true) :
    u.isFinite = true := by
  rcases u with (_ | _) | _ | _ | _
  · cases h
  · cases h
  · cases h
  · rfl
  · rfl

private theorem isFinite_of_add {a b : UnpackedFloat} (h : (UnpackedFloat.add Format.binary64 a b).isFinite = true) :
    a.isFinite = true ∧ b.isFinite = true := by
  rcases a with (_ | _) | _ | _ | _ <;> rcases b with (_ | _) | _ | _ | _ <;> first | exact ⟨rfl, rfl⟩ | cases h

private theorem isFinite_neg (u : UnpackedFloat) : u.neg.isFinite = u.isFinite := by
  cases u <;> rfl

/-- A sum is finite only if both numbers are. -/
theorem isFinite_of_isFinite_add (h : (x + y).isFinite = true) : x.isFinite = true ∧ y.isFinite = true :=
  isFinite_of_add (isFinite_of_pack h)

theorem isFinite_of_isFinite_sub (h : (x - y).isFinite = true) : x.isFinite = true ∧ y.isFinite = true := by
  have hsub : (UnpackedFloat.sub Format.binary64 (parts x) (parts y)).isFinite = true := isFinite_of_pack h
  rw [sub_eq_add_neg] at hsub
  have hboth := isFinite_of_add hsub
  rw [isFinite_neg] at hboth
  exact hboth

end

end Double

end CliffordT
