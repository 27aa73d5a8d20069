import Mathlib
import CliffordT.Proofs.ExpandedWords

/-!
# Rounding on the whole circle

Measured in turns, angles are rational numbers: an angle is brought into one turn by its fractional part, an eighth is
`1/8`, and the nearest slot is the product with the number of slots, rounded with halves away from zero.

The slot of an angle is then the rounded product modulo the number of slots, whole turns or not (`Angle.slot_cast`).  On
a circle of `8 * n` slots an eighth is worth `n` slots, so turning by eighths and rounding commute modulo the circle
(`Angle.slot_add_eighths`), at a half and across the full turn as elsewhere.  The entry that a candidate makes has been
turned back into the first sector and rounds to its own bucket (`slot_phase_entryOf`), and turned on by `k` eighths to
slot `b + k * n`.
-/

namespace CliffordT

/-- The nearest integer, a half away from zero. -/
def roundAway (x : ℚ) : ℤ := if x < 0 then -round (-x) else round x

theorem roundAway_of_nonneg {x : ℚ} (h : 0 ≤ x) : roundAway x = round x := if_neg (not_lt.2 h)

/-- Angles in turns. -/
instance : Angle ℚ where
  zero := 0
  eighths k := k / 8
  normalize φ := Int.fract φ
  nearest n φ := (roundAway (φ * n)).toNat

namespace Angle

theorem slot_cast {points : Nat} (φ : ℚ) : (slot points φ : ℤ) = round (φ * points) % points := by
  have hfract : 0 ≤ Int.fract φ * points := mul_nonneg (Int.fract_nonneg φ) (Nat.cast_nonneg points)
  have hround : 0 ≤ round (Int.fract φ * (points : ℚ)) := by
    rw [round_eq]
    exact Int.floor_nonneg.2 (by linarith)
  have hturns : Int.fract φ * points = φ * points - ((⌊φ⌋ * points : ℤ) : ℚ) := by
    rw [← Int.self_sub_floor]
    push_cast
    ring
  have hslot : slot points φ = (round (Int.fract φ * (points : ℚ))).toNat % points := by
    rw [← roundAway_of_nonneg hfract]
    rfl
  rw [hslot, Int.natCast_mod, Int.toNat_of_nonneg hround, hturns, round_sub_intCast, Int.sub_mul_emod_self_right]

theorem slot_normalize (points : Nat) (φ : ℚ) : slot points (normalize φ) = slot points φ := by
  show nearest points (Int.fract (Int.fract φ)) % points = nearest points (Int.fract φ) % points
  rw [Int.fract_fract]

/-- An eighth of a turn is an eighth of the slots. -/
theorem slot_add_eighths (n : Nat) (φ : ℚ) (k : Nat) :
    slot (8 * n) (φ + eighths k) = (slot (8 * n) φ + k * n) % (8 * n) := by
  have hshift : (φ + k / 8) * ((8 * n : Nat) : ℚ) = φ * (8 * n : Nat) + ((k * n : ℤ) : ℚ) := by
    push_cast
    ring
  apply Int.ofNat_inj.1
  calc ((slot (8 * n) (φ + eighths k) : Nat) : ℤ)
      = round ((φ + k / 8) * ((8 * n : Nat) : ℚ)) % (8 * n : Nat) := slot_cast _
    _ = (round (φ * (8 * n : Nat)) + k * n) % (8 * n : Nat) := by rw [hshift, round_add_intCast]
    _ = (slot (8 * n) φ + k * n) % (8 * n : Nat) := by rw [slot_cast, Int.emod_add_emod]
    _ = ((slot (8 * n) φ + k * n) % (8 * n) : Nat) := by push_cast; rfl

theorem slot_advance (n : Nat) (φ : ℚ) (k : Nat) :
    slot (8 * n) (advance φ k) = (slot (8 * n) φ + k * n) % (8 * n) := by
  rw [advance, slot_normalize, slot_add_eighths]

end Angle

namespace Table

variable {M E : Type} [GateAlgebra M] [Residual E] {t : Table M ℚ E}

omit [GateAlgebra M] [Residual E] in
private theorem phaseCount_of_points {n : Nat} (ht : t.points = 8 * n) : t.phaseCount = n := by
  unfold phaseCount
  omega

omit [Residual E] in
/-- The entry of a candidate rounds to its own bucket. -/
theorem slot_phase_entryOf {n : Nat} (hn : 0 < n) (ht : t.points = 8 * n) (c : Candidate M ℚ E) :
    Angle.slot (8 * n) (t.entryOf c).phase = Angle.slot (8 * n) c.phase % n := by
  have hlt : Angle.slot (8 * n) c.phase < 8 * n := Nat.mod_lt _ (by omega)
  unfold entryOf
  rw [phaseCount_of_points ht, ht]
  generalize hs : Angle.slot (8 * n) c.phase = s at *
  have hsector : s / n < 8 := (Nat.div_lt_iff_lt_mul hn).2 hlt
  have hdecomp : n * (s / n) + s % n = s := Nat.div_add_mod s n
  have hbucket : s % n < n := Nat.mod_lt s hn
  dsimp only
  generalize s / n = q at *
  generalize s % n = b at *
  split
  · rename_i hzero
    rw [hs, ← hdecomp, hzero]
    omega
  · rename_i hne
    -- the sectors before the slot and the ones by which it is turned make a full turn
    have hturn : n * q + b + (8 - q) * n = b + 8 * n := by
      rw [Nat.sub_mul, Nat.mul_comm q n]
      have : n * q ≤ 8 * n := by omega
      omega
    rw [Angle.slot_advance, hs, Nat.mod_eq_of_lt (show 8 - q < 8 by omega), ← hdecomp, hturn, Nat.add_mod_right]
    exact Nat.mod_eq_of_lt (by omega)

/-- Every stored entry, turned on by any number of eighths, rounds to the slot it stands for.  The circle has eight
times as many slots as there are buckets. -/
theorem slots_of_stored_phases_exact {points : Int} (hpos : 0 < points) (hdvd : 8 ∣ points) :
    ∃ t₀ : Table M ℚ E, Table.new points = .ok t₀ ∧ ∀ cs : List (Candidate M ℚ E),
      let t := cs.foldl offer t₀
      (∀ b e, t.entry? b = some e → ∀ k : Nat, k < 8 → Angle.slot t.points (e.phase + k / 8) = b + k * t.phaseCount) ∧
      ∀ s < t.points, ∀ e, t.entry? (s % t.phaseCount) = some e →
        t.correctionOf s = (((s % t.phaseCount : Nat) : ℤ), ((s / t.phaseCount : Nat) : ℤ)) ∧
        t.expand[s]? = some (if s / t.phaseCount = 0 then e.gates
          else Word.fold (e.gates ++ Word.phaseRun (s / t.phaseCount))) ∧
        Angle.slot t.points (Angle.advance e.phase (s / t.phaseCount)) = s := by
  have hnew : Table.new points = .ok (empty points.toNat : Table M ℚ E) := new_of_dvd hpos hdvd
  refine ⟨_, hnew, fun cs => ?_⟩
  intro t
  obtain ⟨n, hn⟩ : ∃ n, points.toNat = 8 * n := ⟨points.toNat / 8, by omega⟩
  have hpoints : t.points = 8 * n := (points_foldl_offer _ cs).trans hn
  have hcount : t.phaseCount = n := phaseCount_of_points hpoints
  have hbucket {b : Nat} {e : Entry M ℚ E} (he : t.entry? b = some e) : b < n ∧ Angle.slot (8 * n) e.phase = b := by
    obtain ⟨c, -, hb, rfl⟩ := exists_candidate_of_found hnew he
    have hempty : (empty points.toNat : Table M ℚ E).points = 8 * n := hn
    rw [phaseCount_of_points hempty, hempty] at hb
    rw [slot_phase_entryOf (by omega) hempty, hb]
    exact ⟨hb ▸ Nat.mod_lt _ (by omega), rfl⟩
  rw [hpoints, hcount]
  refine ⟨fun b e he k hk => ?_, fun s hs e he => ⟨?_, ?_, ?_⟩⟩
  · obtain ⟨hlt, hslot⟩ := hbucket he
    have hfit : b + k * n < 8 * n := by nlinarith
    exact (Angle.slot_add_eighths n e.phase k).trans (by rw [hslot, Nat.mod_eq_of_lt hfit])
  · unfold correctionOf
    rw [hcount]
    rfl
  · rw [← hcount] at he ⊢
    rw [getElem?_expand (hpoints ▸ hs), slotWord_of_found he]
  · obtain ⟨-, hslot⟩ := hbucket he
    rw [Angle.slot_advance, hslot, Nat.mul_comm, Nat.mod_add_div, Nat.mod_eq_of_lt hs]

/-- A phase half a slot before the full turn goes to bucket 0. -/
theorem slots_of_stored_phases_exact_before_full_turn :
    let c : Candidate Matrix ℚ Float := ⟨31 / 32, [], 1, 0⟩
    ∃ e, entry? ((empty 16).offer c) 0 = some e ∧ ∀ k : Nat, k < 8 → Angle.slot 16 (e.phase + k / 8) = 0 + k * 2 := by
  intro c
  have hslot : Angle.slot 16 c.phase = 0 := by decide +kernel
  have hpoints : ((empty 16).offer c).points = 16 := points_apply _ (.offer c)
  have hstored : ((empty 16).offer c).Stores c :=
    stores_offer (wellFormed_empty (by decide) (by decide)) (entry?_empty 16 _)
  rw [Stores, phaseCount, hpoints, hslot] at hstored
  obtain ⟨t₀, hnew, hexact⟩ :=
    slots_of_stored_phases_exact (M := Matrix) (E := Float) (show (0 : ℤ) < 16 by decide) (by decide)
  obtain rfl : empty 16 = t₀ := Except.ok.inj hnew
  have hexact := (hexact [c]).1 0 _ hstored
  rw [List.foldl_cons, List.foldl_nil, hpoints, phaseCount, hpoints] at hexact
  exact ⟨_, hstored, hexact⟩

end Table

end CliffordT
