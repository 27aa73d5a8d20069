import CliffordT.Artifact.Store
import CliffordT.Proofs.DoubleRange
import CliffordT.Proofs.ExpandedWords

/-!
# What a verification accepts

A verification replays every word, and it reports a word whose angle is not less than the tolerance away from the recorded
one.  Angles are doubles, so there are three ways not to be reported: to be near, to turn by an angle that is no number,
or to have a recorded angle that is infinite or no number, since the distance to it is no number and that is not at least
the tolerance (`Verify.verification_accepts_iff`).

There are no others: an angle brought into one turn is bounded or no number (`Numeric.within_normalize`), and so the
distance to a finite angle, however large, is a number (`Numeric.isNaN_distance`, `Verify.isFinite_normalize_sub`).
-/

namespace CliffordT

namespace Numeric

open Float.Model Float.Model.UnpackedFloat
open CliffordT.Double (Within parts)

/-! ### Doubles made from their fields -/

private theorem getLsbD_ofNat64 (n i : Nat) (hi : i < 64) : (UInt64.ofNat n).toBitVec.getLsbD i = n.testBit i := by
  show (BitVec.ofNat 64 n).getLsbD i = n.testBit i
  rw [BitVec.getLsbD_ofNat, decide_eq_true hi, Bool.true_and]

private theorem unpackExponent_fields {sign : UInt64} (hs : sign = 0 ∨ sign = 0x8000000000000000) (f m : Nat) :
    @unpackExponent Format.binary64
      (sign ||| (UInt64.ofNat f <<< 52) ||| UInt64.ofNat (m % 0x10000000000000)).toBitVec = BitVec.ofNat 11 f := by
  apply BitVec.eq_of_getLsbD_eq
  intro i hi
  have hlt : i < 11 := hi
  have hlow : (UInt64.ofNat (m % 0x10000000000000)).toBitVec.getLsbD (52 + i) = false := by
    rw [getLsbD_ofNat64 _ _ (by omega)]
    have hmod : m % 0x10000000000000 < 2 ^ 52 := Nat.mod_lt m (by decide)
    exact Nat.testBit_lt_two_pow (lt_of_lt_of_le hmod (Nat.pow_le_pow_right (by decide) (by omega)))
  have hsign : sign.toBitVec.getLsbD (52 + i) = false := by
    rcases hs with rfl | rfl
    · exact BitVec.getLsbD_zero
    · interval_cases i <;> decide
  have hfield : (UInt64.ofNat f <<< 52).toBitVec.getLsbD (52 + i) = f.testBit i := by
    show ((UInt64.ofNat f).toBitVec <<< 52).getLsbD (52 + i) = f.testBit i
    rw [BitVec.getLsbD_shiftLeft, decide_eq_true (show 52 + i < 64 by omega),
      decide_eq_false (show ¬ 52 + i < 52 by omega), show 52 + i - 52 = i by omega, getLsbD_ofNat64 _ _ (by omega)]
    rfl
  rw [unpackExponent_def, BitVec.getLsbD_extractLsb', UInt64.toBitVec_or, UInt64.toBitVec_or, BitVec.getLsbD_or,
    BitVec.getLsbD_or, decide_eq_true hi, BitVec.getLsbD_ofNat, decide_eq_true hlt]
  show (true && (sign.toBitVec.getLsbD (52 + i) || (UInt64.ofNat f <<< 52).toBitVec.getLsbD (52 + i) ||
    (UInt64.ofNat (m % 0x10000000000000)).toBitVec.getLsbD (52 + i))) = _
  rw [hsign, hfield, hlow, Bool.false_or, Bool.or_false]

private theorem within_ofBits {sign : UInt64} (hs : sign = 0 ∨ sign = 0x8000000000000000) {field : Int} {t : Int}
    (hfield : field ≤ t + 1075) (ht : -1074 ≤ t) (hmax : t ≤ 971) (m : Nat) :
    Within t (parts (Float.ofBits
      (sign ||| (UInt64.ofNat field.toNat <<< 52) ||| UInt64.ofNat (m % 0x10000000000000)))) := by
  have hexp : (@unpackExponent Format.binary64
      (sign ||| (UInt64.ofNat field.toNat <<< 52) ||| UInt64.ofNat (m % 0x10000000000000)).toBitVec).toNat =
        field.toNat % 2 ^ 11 :=
    (congrArg BitVec.toNat (unpackExponent_fields hs field.toNat m)).trans (BitVec.toNat_ofNat _ _)
  have hunpack := Double.within_unpack
    (v := (sign ||| (UInt64.ofNat field.toNat <<< 52) ||| UInt64.ofNat (m % 0x10000000000000)).toBitVec) (t := t)
    (by omega) (by omega) ht
  exact hunpack.unpack_pack hmax

theorem Parts.within_toFloat {d : Parts} {t : Int} (hplace : d.lastPlace 53 (-1074) < t) (hmax : t ≤ 971) :
    Within t (parts d.toFloat) := by
  have hmin : -1074 ≤ d.lastPlace 53 (-1074) := le_max_right _ _
  have hs : (if d.negative = true then (0x8000000000000000 : UInt64) else 0) = 0 ∨
      (if d.negative = true then (0x8000000000000000 : UInt64) else 0) = 0x8000000000000000 := by
    split
    · exact Or.inr rfl
    · exact Or.inl rfl
  unfold Parts.toFloat
  dsimp only
  generalize (if d.negative = true then (0x8000000000000000 : UInt64) else 0) = sign at hs
  generalize d.lastPlace 53 (-1074) = e at *
  split
  · rcases hs with rfl | rfl <;> trivial
  · generalize d.scaled e = m
    by_cases hcarry : m = 0x20000000000000
    · rw [if_pos hcarry]
      dsimp only
      rw [if_neg (by omega), if_neg (by omega)]
      exact within_ofBits hs (by omega) (by omega) hmax _
    · rw [if_neg hcarry]
      dsimp only
      have hfield : (if m < 0x10000000000000 then 0 else e + 1075) ≤ t + 1075 := by
        split <;> omega
      rw [if_neg (by omega)]
      exact within_ofBits hs hfield (by omega) hmax _

/-! ### Angles that are numbers -/

theorem within_twoPi : Within (-50) (parts twoPi) :=
  Double.within_unpack (v := twoPi.toModel.toBits.toBitVec) (by decide) (by decide) (by decide)

private theorem isFinite_eq (x : Float) : x.isFinite = (!x.isNaN && !x.isInf) := by
  show (parts x).isFinite = (!(parts x).isNaN && !(parts x).isInf)
  cases parts x <;> rfl

theorem remainder_of_not_isFinite {x : Float} (h : x.isFinite = false) (y : Float) : remainder x y = nan := by
  have hbad : (x.isNaN || y.isNaN || x.isInf || y == 0) = true := by
    rw [isFinite_eq] at h
    generalize x.isNaN = a at *
    generalize x.isInf = b at *
    cases a <;> cases b <;> simp at h ⊢
  exact if_pos hbad

/-- The remainder of a finite angle by a full turn. -/
theorem within_remainder {x : Float} (h : x.isFinite = true) : Within (-49) (parts (remainder x twoPi)) := by
  have hgood : (x.isNaN || twoPi.isNaN || x.isInf || twoPi == 0) = false := by
    have hnan : twoPi.isNaN = false := by decide +kernel
    have hzero : (twoPi == 0) = false := by decide +kernel
    rw [isFinite_eq] at h
    rw [hnan, hzero]
    generalize x.isNaN = a at *
    generalize x.isInf = b at *
    cases a <;> cases b <;> simp at h ⊢
  have hinf : twoPi.isInf = false := by decide +kernel
  have hparts : Parts.ofFloat twoPi = ⟨false, 0x1921fb54442d18, -50⟩ := by decide +kernel
  unfold remainder
  rw [hgood, hinf, hparts]
  simp only [Bool.false_eq_true, ↓reduceIte]
  generalize Parts.ofFloat x = a
  refine Parts.within_toFloat ?_ (by decide)
  -- the remainder is less than a full turn in units of `2 ^ e`
  obtain ⟨e, he⟩ : ∃ e, min a.exponent (-50) = e := ⟨_, rfl⟩
  have hscaled : (⟨false, 0x1921fb54442d18, -50⟩ : Parts).scaled e = 0x1921fb54442d18 <<< (-50 - e).toNat :=
    if_pos (show e ≤ -50 by omega)
  rw [he, hscaled, Nat.shiftLeft_eq]
  have hlt : a.scaled e % (0x1921fb54442d18 * 2 ^ (-50 - e).toNat) < 2 ^ (53 + (-50 - e).toNat) := by
    rw [Nat.pow_add]
    refine lt_of_lt_of_le (Nat.mod_lt _ (Nat.mul_pos (by decide) (Nat.two_pow_pos _))) ?_
    exact Nat.mul_le_mul_right _ (by decide)
  generalize a.scaled e % (0x1921fb54442d18 * 2 ^ (-50 - e).toNat) = r at hlt
  have hlog : r.log2 < 53 + (-50 - e).toNat := by
    by_cases hr : r = 0
    · subst hr
      rw [Nat.log2_zero]
      omega
    · exact (Nat.log2_lt hr).2 hlt
  unfold Parts.lastPlace
  dsimp only
  omega

/-- A finite angle brought into one turn is bounded, and any other one is no number. -/
theorem within_normalize {x : Float} (h : x.isFinite = true) : Within 10 (parts (normalize x)) := by
  have hrem := (within_remainder h).mono (show (-49 : Int) ≤ 10 by decide)
  have hsum := Double.within_parts_add hrem within_twoPi (by decide) (by decide) (by decide)
  unfold normalize
  dsimp only
  split
  · split
    · trivial
    · exact hsum
  · split
    · trivial
    · exact hrem

theorem normalize_of_not_isFinite {x : Float} (h : x.isFinite = false) : normalize x = nan := by
  have hnan : ¬ nan < 0 ∧ ¬ nan ≥ twoPi := by decide +kernel
  unfold normalize
  rw [remainder_of_not_isFinite h]
  dsimp only
  rw [if_neg hnan.1, if_neg hnan.2]

theorem isFinite_normalize (x : Float) : (normalize x).isFinite = x.isFinite := by
  cases h : x.isFinite with
  | true => exact Double.isFinite_of_within (within_normalize h) (by decide)
  | false =>
    rw [normalize_of_not_isFinite h]
    rfl

/-- The distance of two angles is a number if their difference is finite, and only then. -/
theorem isNaN_distance (a b : Float) : (distance a b).isNaN = !(a - b).isFinite := by
  cases h : (a - b).isFinite with
  | true =>
    have hwithin := within_normalize h
    have hrest := Double.within_parts_sub (hwithin.mono (show (10 : Int) ≤ 971 by decide)) within_twoPi (by decide)
      (by decide) (by decide)
    unfold distance
    dsimp only
    split
    · exact Double.isNaN_of_isFinite (Double.isFinite_of_within hrest.2 (by decide))
    · exact Double.isNaN_of_isFinite (Double.isFinite_of_within hwithin (by decide))
  | false =>
    have hnan : ¬ nan > pi := by decide +kernel
    unfold distance
    rw [normalize_of_not_isFinite h]
    dsimp only
    rw [if_neg hnan]
    rfl

theorem within_eighths {k : Nat} (hk : k < 8) : Within (-49) (parts (Angle.eighths k : Float)) := by
  interval_cases k <;> exact Double.within_unpack (v := Float.toModel _ |>.toBits.toBitVec) (by decide +kernel)
    (by decide +kernel) (by decide)

/-- Turning an angle on by eighths makes a number of it exactly if it was finite. -/
theorem isFinite_advance (x : Float) {k : Nat} (hk : k < 8) : (Angle.advance x k).isFinite = x.isFinite := by
  show (normalize (x + Angle.eighths k)).isFinite = x.isFinite
  rw [isFinite_normalize]
  cases h : x.isFinite with
  | true =>
    have hsum := Double.within_parts_add ((Double.isFinite_iff x).1 h) (within_eighths hk) (by decide) (by decide)
      (by decide)
    exact Double.isFinite_of_within hsum (by decide)
  | false =>
    by_contra hsum
    rw [Bool.not_eq_false] at hsum
    have hx := (Double.isFinite_of_isFinite_add hsum).1
    rw [h] at hx
    cases hx

end Numeric

namespace Verify

open CliffordT.Numeric (normalize distance)

/-- A difference with a normalized angle is finite unless one of the angles is no number or the other one infinite. -/
theorem isFinite_normalize_sub (x y : Float) :
    (normalize x - y).isFinite = false ↔ (normalize x).isNaN = true ∨ y.isFinite = false := by
  cases hx : x.isFinite with
  | false =>
    have hnan : (normalize x).isNaN = true := by
      rw [Numeric.normalize_of_not_isFinite hx]
      rfl
    refine ⟨fun _ => Or.inl hnan, fun _ => ?_⟩
    by_contra hsub
    rw [Bool.not_eq_false] at hsub
    have hfinite := (Double.isFinite_of_isFinite_sub hsub).1
    rw [Numeric.isFinite_normalize, hx] at hfinite
    cases hfinite
  | true =>
    have hwithin := Numeric.within_normalize hx
    have hnan := Double.isNaN_of_isFinite (Double.isFinite_of_within hwithin (by decide))
    constructor
    · intro hsub
      right
      by_contra hy
      rw [Bool.not_eq_false] at hy
      have hboth := Double.within_parts_sub ((Double.isFinite_iff y).1 hy) hwithin (by decide) (by decide) (by decide)
      rw [Double.isFinite_of_within hboth.2 (by decide)] at hsub
      cases hsub
    · rintro (h | hy)
      · rw [hnan] at h
        cases h
      · by_contra hsub
        rw [Bool.not_eq_false] at hsub
        rw [(Double.isFinite_of_isFinite_sub hsub).2] at hy
        cases hy

/-- The comparison of a verification is the negation of one that fails for what is no number. -/
theorem far_within_eq_false_iff {eps : Float} (heps : eps.isNaN = false) (a b : Float) :
    (Check.within eps).far a b = false ↔ distance a b < eps ∨ (a - b).isFinite = false := by
  have hfar : (Check.within eps).far a b = decide (eps ≤ distance a b) := rfl
  have hdist := Numeric.isNaN_distance a b
  rw [hfar, decide_eq_false_iff_not, Double.le_iff, Double.lt_iff]
  have heps : (Double.parts eps).isNaN = false := heps
  have hdist : (Double.parts (distance a b)).isNaN = !(a - b).isFinite := hdist
  cases hfinite : (a - b).isFinite with
  | true =>
    rw [hfinite] at hdist
    simp only [heps, hdist, Bool.not_true, true_and, Bool.true_eq_false, or_false]
    omega
  | false =>
    rw [hfinite] at hdist
    simp [hdist]

theorem isNaN_of_isDiagonal {eps : Float} {m : Matrix} (h : m.isDiagonal eps = true) : eps.isNaN = false := by
  have hlt : m.b.abs < eps := by
    unfold Mat.isDiagonal at h
    simp only [Bool.and_eq_true, decide_eq_true_eq] at h
    exact h.1
  exact ((Double.lt_iff _ _).1 hlt).2.1

/-- The words and angles that a check passes. -/
theorem checkWord_within_eq_none_iff (eps : Float) (bucket : Int) (slot : Option Nat) (gates : Word) (expected : Float) :
    checkWord (Check.within eps) bucket slot gates expected = none ↔
      ∃ m : Matrix, Word.replay gates = .ok m ∧ m.isDiagonal eps = true ∧
        (distance m.relativePhase expected < eps ∨ m.relativePhase.isNaN = true ∨ expected.isFinite = false) := by
  unfold checkWord
  cases hreplay : Word.replay (M := Matrix) gates with
  | error e => simp
  | ok m =>
    have hdiag : (Check.within eps).isDiagonal m = m.isDiagonal eps := rfl
    have hphase : (Check.within eps).phase m = m.relativePhase := rfl
    dsimp only
    rw [hdiag, hphase]
    cases hm : m.isDiagonal eps with
    | false => simp [hm]
    | true =>
      have hfar := far_within_eq_false_iff (isNaN_of_isDiagonal hm) m.relativePhase expected
      rw [Mat.relativePhase, isFinite_normalize_sub, ← Mat.relativePhase] at hfar
      cases hfalse : (Check.within eps).far m.relativePhase expected with
      | false => simpa [hm] using hfar.1 hfalse
      | true =>
        have hnot : ¬ (distance m.relativePhase expected < eps ∨ m.relativePhase.isNaN = true ∨
            expected.isFinite = false) := by
          intro h
          rw [hfar.2 h] at hfalse
          cases hfalse
        simp only [Bool.not_true, Bool.false_eq_true, ↓reduceIte, reduceCtorEq, false_iff]
        rintro ⟨m', hm', -, h⟩
        cases hm'
        exact hnot h

theorem canonical_ok_iff (c : Check Matrix Float Float) (t : DoubleTable) :
    (canonical c t).ok = true ↔ ∀ e ∈ t.entries, checkWord c e.bucket none e.gates e.phase = none := by
  rw [Report.ok, List.isEmpty_iff, canonical, List.filterMap_eq_nil_iff]

/-- Slots without a word pass, so all depends on the words of the found buckets. -/
theorem expanded_ok_iff (c : Check Matrix Float Float) (t : DoubleTable) :
    (expanded c t t.expand).ok = true ↔ ∀ s < t.points, ∀ e, t.entry? (s % t.phaseCount) = some e →
      checkWord c (s % t.phaseCount : Nat) (some s) (t.slotWord s) (Angle.advance e.phase (s / t.phaseCount)) = none := by
  rw [Report.ok, List.isEmpty_iff, mismatches_expanded, List.filterMap_eq_nil_iff]
  simp only [List.mem_range]
  refine forall_congr' fun s => forall_congr' fun _ => ?_
  cases he : t.entry? (s % t.phaseCount) with
  | none => simp [checkSlot_of_missing c he]
  | some e =>
    by_cases hword : t.slotWord s = Table.notFound
    · -- a found bucket needs a word in each slot, and this one cannot be replayed
      have hslot : checkSlot c t s Table.notFound ≠ none := by
        unfold checkSlot
        dsimp only
        rw [he]
        simp
      have hfails : checkWord c (s % t.phaseCount : Nat) (some s) Table.notFound
          (Angle.advance e.phase (s / t.phaseCount)) ≠ none := by
        intro h
        cases h
      simpa [hword, hslot] using hfails
    · simp [checkSlot_of_found c he hword]

/-! ### Tables that were made or read -/

/-- A table that was read is made of the entries of its record. -/
theorem exists_ofEntries_of_loadTable {fs : Files} {path : RawText} {t : DoubleTable}
    (h : Artifact.loadTable fs path = .ok t) : ∃ points es, Table.ofEntries points es = .ok t := by
  unfold Artifact.loadTable at h
  cases hread : Artifact.readDiagnostics fs path with
  | error e =>
    rw [hread] at h
    cases h
  | ok record =>
    rw [hread] at h
    change Artifact.tableOf path record = .ok t at h
    unfold Artifact.tableOf at h
    cases hentries : Artifact.entriesFrom path 0 record with
    | error e =>
      rw [hentries] at h
      cases h
    | ok es =>
      simp only [hentries, bind, Except.bind] at h
      split at h
      · rename_i t' hmade
        cases h
        exact ⟨_, es, hmade⟩
      · cases h

/-- What the verifications of a table accept.  They find nothing wrong exactly if every word of a found bucket or slot can
be replayed, the result is diagonal within the tolerance, and it turns by an angle that is nearer to the recorded one
than the tolerance, or by one that is no number, or the recorded one is infinite or no number. -/
theorem verification_accepts_iff {t : DoubleTable}
    (h : (∃ points es, Table.ofEntries points es = .ok t) ∨ ∃ fs path, Artifact.loadTable fs path = .ok t)
    (eps : Float) :
    ((canonical (Check.within eps) t).ok = true ↔ ∀ e ∈ t.entries, ∃ m : Matrix,
      Word.replay e.gates = .ok m ∧ m.isDiagonal eps = true ∧
      (distance m.relativePhase e.phase < eps ∨ m.relativePhase.isNaN = true ∨ e.phase.isFinite = false)) ∧
    ((expanded (Check.within eps) t t.expand).ok = true ↔ ∀ s < t.points, ∀ e,
      t.entry? (s % t.phaseCount) = some e → ∃ m : Matrix,
      Word.replay (t.slotWord s) = .ok m ∧ m.isDiagonal eps = true ∧
      (distance m.relativePhase (Angle.advance e.phase (s / t.phaseCount)) < eps ∨ m.relativePhase.isNaN = true ∨
        e.phase.isFinite = false)) := by
  have hmade : ∃ points es, Table.ofEntries points es = .ok t := by
    rcases h with hmade | ⟨fs, path, hload⟩
    · exact hmade
    · exact exists_ofEntries_of_loadTable hload
  obtain ⟨points, es, hmade⟩ := hmade
  have hwf : t.WellFormed := Table.wellFormed_of_made (Or.inr hmade) []
  refine ⟨?_, ?_⟩
  · rw [canonical_ok_iff]
    simp only [checkWord_within_eq_none_iff]
  · rw [expanded_ok_iff]
    simp only [checkWord_within_eq_none_iff]
    refine forall_congr' fun s => forall_congr' fun hs => ?_
    have hsector : s / t.phaseCount < 8 :=
      (Nat.div_lt_iff_lt_mul hwf.phaseCount_pos).2 (by rw [← hwf.points_eq]; exact hs)
    simp only [Numeric.isFinite_advance _ hsector]

/-- One bucket, found with the empty word, whose recorded angle is a quarter of a turn. -/
theorem verification_accepts_iff_quarter_turn :
    let t : DoubleTable := (Table.empty 8).accept ⟨0, Numeric.pi / 2, [], 1, 0⟩
    Table.ofEntries 8 [⟨0, Numeric.pi / 2, [], 1, 0⟩] = .ok t ∧
    ((canonical (Check.within 1e-3) t).ok = true ↔ ∀ e ∈ t.entries, ∃ m : Matrix,
      Word.replay e.gates = .ok m ∧ m.isDiagonal 1e-3 = true ∧
      (distance m.relativePhase e.phase < 1e-3 ∨ m.relativePhase.isNaN = true ∨ e.phase.isFinite = false)) ∧
    (canonical (Check.within 1e-3) t).ok = false := by
  intro t
  have hmade : Table.ofEntries 8 [⟨0, Numeric.pi / 2, [], 1, 0⟩] = .ok t := rfl
  exact ⟨hmade, (verification_accepts_iff (Or.inl ⟨8, _, hmade⟩) 1e-3).1, by decide +kernel⟩

/-- A recorded angle that is no number passes both verifications, though it is not near to any angle. -/
theorem verification_accepts_nan :
    let t : DoubleTable := (Table.empty 8).accept ⟨0, Numeric.nan, [], 1, 0⟩
    Table.ofEntries 8 [⟨0, Numeric.nan, [], 1, 0⟩] = .ok t ∧
    (canonical (Check.within 1e-3) t).ok = true ∧ (expanded (Check.within 1e-3) t t.expand).ok = true ∧
    ∀ m : Matrix, Word.replay [] = .ok m → ¬ distance m.relativePhase Numeric.nan < 1e-3 := by
  intro t
  refine ⟨rfl, by decide +kernel, by decide +kernel, fun m hm => ?_⟩
  cases hm
  decide +kernel

end Verify

end CliffordT
