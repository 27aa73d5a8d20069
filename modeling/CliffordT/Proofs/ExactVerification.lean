import CliffordT.Proofs.Exact
import CliffordT.Proofs.ExpandedWords
import CliffordT.Proofs.OwnMatrix

/-!
# A searched table passes verification

Verification replays every word of a table and compares the result with what the table says.  In exact arithmetic it has
nothing to report about a table that a search has filled (`searched_table_verifies`).

The matrix of a word is unitary (`unitary_of_replay`), so a matrix that is diagonal within a tolerance of at most one
does not vanish at its lower corner, and a correction of `k` eighths advances its phase by exactly `k` eighths.  Hence
every entry replays to a diagonal matrix with the recorded phase (`Faithful`), whether it was stored as found or turned
back into the first sector, and what `expand` makes of it replays to one with the phase advanced by whole eighths.
-/

namespace CliffordT

open ComplexConjugate

/-! ### Unitary matrices -/

namespace Mat

/-- The conjugate transpose. -/
def dagger (m : Mat ℂ) : Mat ℂ := ⟨conj m.a, conj m.c, conj m.b, conj m.d⟩

/-- A matrix whose conjugate transpose is its inverse. -/
def Unitary (m : Mat ℂ) : Prop := m * m.dagger = 1

theorem dagger_mul (m n : Mat ℂ) : (m * n).dagger = n.dagger * m.dagger := by
  simp only [dagger, mul_def, map_add, map_mul, mk.injEq]
  refine ⟨?_, ?_, ?_, ?_⟩ <;> ring

theorem unitary_one : Unitary 1 := by
  simp [Unitary, dagger, mul_def, one_def]

theorem Unitary.mul {m n : Mat ℂ} (hm : m.Unitary) (hn : n.Unitary) : (m * n).Unitary := by
  calc m * n * (m * n).dagger = m * (n * n.dagger) * m.dagger := by rw [dagger_mul]; simp only [mul_assoc]
    _ = 1 := by rw [show n * n.dagger = 1 from hn, mul_one]; exact hm

theorem unitary_diag_root_pow (k : Nat) : (diag 1 (ExactNumbers.root ^ k) : Mat ℂ).Unitary := by
  have hroot : (ExactNumbers.root ^ k : ℂ) * conj (ExactNumbers.root ^ k) = 1 := by
    rw [Complex.mul_conj', norm_root_pow]
    norm_num
  have hdagger : (diag 1 (ExactNumbers.root ^ k) : Mat ℂ).dagger = diag 1 (conj (ExactNumbers.root ^ k)) := by
    simp [dagger, diag]
  rw [Unitary, hdagger, diag_one_mul]
  show (⟨1, 0, ExactNumbers.root ^ k * 0, ExactNumbers.root ^ k * conj (ExactNumbers.root ^ k)⟩ : Mat ℂ) = ⟨1, 0, 0, 1⟩
  rw [mul_zero, hroot]

theorem unitary_gate (g : Gate) : (GateAlgebra.gate g : Mat ℂ).Unitary := by
  cases g with
  | h =>
    -- the basis change is its own conjugate transpose
    have hreal : conj (ExactNumbers.rootHalf : ℂ) = ExactNumbers.rootHalf := Complex.conj_ofReal _
    have hself : (GateAlgebra.gate .h : Mat ℂ).dagger = GateAlgebra.gate .h := by
      show (⟨conj ExactNumbers.rootHalf, conj ExactNumbers.rootHalf, conj ExactNumbers.rootHalf,
        conj (-ExactNumbers.rootHalf)⟩ : Mat ℂ) = _
      rw [map_neg, hreal]
      rfl
    rw [Unitary, hself, gate_h_mul_gate_h]
  | t => exact unitary_diag_root_pow 1
  | s => exact unitary_diag_root_pow 2
  | z => exact unitary_diag_root_pow 4
  | sInv => exact unitary_diag_root_pow 6
  | tInv => exact unitary_diag_root_pow 7
  | x =>
    show (⟨0, 1, 1, 0⟩ : Mat ℂ).Unitary
    simp [Unitary, dagger, mul_def, one_def]

private theorem unitary_of_replayFrom {w : Word} {offset : Nat} {m n : Mat ℂ} (hm : m.Unitary)
    (h : Word.replayFrom offset m w = .ok n) : n.Unitary := by
  induction w generalizing offset m with
  | nil => cases h; exact hm
  | cons b w ih =>
    rw [Word.replayFrom] at h
    cases hb : Gate.ofByte? b with
    | none => rw [hb] at h; cases h
    | some g =>
      rw [hb] at h
      exact ih ((unitary_gate g).mul hm) h

theorem unitary_of_replay {w : Word} {m : Mat ℂ} (h : Word.replay w = .ok m) : m.Unitary :=
  unitary_of_replayFrom unitary_one h

/-- The second row of a unitary matrix has length one. -/
theorem Unitary.norm_sq_add_norm_sq {m : Mat ℂ} (h : m.Unitary) : ‖m.c‖ ^ 2 + ‖m.d‖ ^ 2 = 1 := by
  have hrow : m.c * conj m.c + m.d * conj m.d = 1 := congrArg Mat.d h
  rw [Complex.mul_conj', Complex.mul_conj'] at hrow
  exact_mod_cast hrow

theorem Unitary.d_ne_zero {m : Mat ℂ} (h : m.Unitary) (hc : ‖m.c‖ < 1) : m.d ≠ 0 := by
  intro hd
  have hrow := h.norm_sq_add_norm_sq
  rw [hd, norm_zero] at hrow
  have := norm_nonneg m.c
  nlinarith

end Mat

/-! ### Faithful words -/

/-- A word that replays to a matrix that is diagonal within a tolerance and turns by the given angle. -/
structure Faithful (eps : ℝ) (w : Word) (φ : ℝ) (m : Mat ℂ) : Prop where
  replay_eq : Word.replay w = .ok m
  norm_b_lt : ‖m.b‖ < eps
  norm_c_lt : ‖m.c‖ < eps
  phase_eq : m.phase = φ

namespace Faithful

variable {eps φ : ℝ} {w : Word} {m : Mat ℂ}

theorem isDiagonal (h : Faithful eps w φ m) : (Probe.exact eps).isDiagonal m = true := by
  simp [Probe.exact, h.norm_b_lt, h.norm_c_lt]

theorem advance_zero (h : Faithful eps w φ m) : Angle.advance φ 0 = φ := by
  rw [← h.phase_eq]
  refine (Angle.normalize_eq_of_coe_eq ?_).trans m.normalize_phase
  show ((m.phase + ((0 : Nat) * Real.pi / 4 : ℝ) : ℝ) : Real.Angle) = m.phase
  simp

/-- A correction behind a faithful word advances its angle. -/
theorem fold_append_phaseRun (h : Faithful eps w φ m) (heps : eps ≤ 1) (k : Nat) :
    Faithful eps (Word.fold (w ++ Word.phaseRun k)) (Angle.advance φ k) (correction k * m) := by
  have hcorner : m.d ≠ 0 := (Mat.unitary_of_replay h.replay_eq).d_ne_zero (lt_of_lt_of_le h.norm_c_lt heps)
  refine ⟨Word.replay_fold_append_phaseRun h.replay_eq k, ?_, ?_, ?_⟩
  · rw [correction_eq_diag, Mat.diag_one_mul]
    exact h.norm_b_lt
  · rw [correction_eq_diag, Mat.diag_one_mul]
    show ‖ExactNumbers.root ^ k * m.c‖ < eps
    rw [norm_mul, norm_root_pow, one_mul]
    exact h.norm_c_lt
  · rw [correction_eq_diag, Mat.phase_diag_mul hcorner, h.phase_eq]

/-- A word that has a matrix is not the text for a missing word. -/
theorem ne_notFound (h : Faithful eps w φ m) : w ≠ Table.notFound := by
  rintro rfl
  have := h.replay_eq
  cases this

/-- Verification has nothing to say about a faithful word. -/
theorem checkWord_eq_none (h : Faithful eps w φ m) (heps : 0 < eps) (bucket : Int) (slot : Option Nat) :
    Verify.checkWord (Verify.Check.exact eps) bucket slot w φ = none := by
  have hdiag : (Verify.Check.exact eps).isDiagonal m = true := h.isDiagonal
  have hfar : (Verify.Check.exact eps).far ((Verify.Check.exact eps).phase m) φ = false := by
    show decide (eps ≤ Angle.distance m.phase φ) = false
    rw [h.phase_eq, Angle.distance_self]
    exact decide_eq_false (not_le.2 heps)
  simp [Verify.checkWord, h.replay_eq, hdiag, hfar]

end Faithful

/-! ### Faithful tables -/

/-- Every entry of the table is faithful to its own word, angle and matrix. -/
def Table.AllFaithful (eps : ℝ) (t : Table (Mat ℂ) ℝ ℝ) : Prop :=
  ∀ e ∈ t.entries, Faithful eps e.gates e.phase e.matrix

theorem Probe.Finds.faithful {eps : ℝ} (heps : 0 < eps) {precision : Precision} {c : Candidate (Mat ℂ) ℝ ℝ}
    (h : (Probe.exact eps).Finds precision c) : Faithful eps c.gates c.phase c.matrix := by
  have hreplay := h.replay_gates
  cases h with
  | seed =>
    have hzero : ‖(1 : Mat ℂ).b‖ < eps := by
      show ‖(0 : ℂ)‖ < eps
      rwa [norm_zero]
    exact ⟨hreplay, hzero, hzero, Mat.phase_one⟩
  | hit source hc hdiag =>
    simp only [Probe.exact, Bool.and_eq_true, decide_eq_true_eq] at hdiag
    exact ⟨hreplay, hdiag.1, hdiag.2, rfl⟩

namespace Table

variable {eps : ℝ} {t : Table (Mat ℂ) ℝ ℝ}

theorem faithful_entryOf (heps : eps ≤ 1) {c : Candidate (Mat ℂ) ℝ ℝ}
    (h : Faithful eps c.gates c.phase c.matrix) (t : Table (Mat ℂ) ℝ ℝ) :
    Faithful eps (t.entryOf c).gates (t.entryOf c).phase (t.entryOf c).matrix := by
  unfold entryOf
  dsimp only
  split
  · exact h
  · exact h.fold_append_phaseRun heps _

/-- The word of a slot is faithful to the phase of its bucket, advanced by the eighths of its sector. -/
theorem AllFaithful.slotWord (h : t.AllFaithful eps) (heps : eps ≤ 1) {s : Nat} {e : Entry (Mat ℂ) ℝ ℝ}
    (he : t.entry? (s % t.phaseCount) = some e) :
    ∃ m, Faithful eps (t.slotWord s) (Angle.advance e.phase (s / t.phaseCount)) m := by
  have hentry := h e (mem_entries_of_bucket he)
  unfold Table.slotWord
  rw [he]
  dsimp only
  split
  · rename_i hk
    rw [hk, hentry.advance_zero]
    exact ⟨_, hentry⟩
  · exact ⟨_, hentry.fold_append_phaseRun heps _⟩

theorem AllFaithful.canonical_ok (h : t.AllFaithful eps) (heps : 0 < eps) :
    (Verify.canonical (Verify.Check.exact eps) t).ok = true := by
  rw [Verify.Report.ok, List.isEmpty_iff]
  refine List.filterMap_eq_nil_iff.2 ?_
  intro e he
  exact (h e he).checkWord_eq_none heps _ _

theorem AllFaithful.checkSlot_slotWord (h : t.AllFaithful eps) (hpos : 0 < eps) (heps : eps ≤ 1) (s : Nat) :
    Verify.checkSlot (Verify.Check.exact eps) t s (t.slotWord s) = none := by
  cases he : t.entry? (s % t.phaseCount) with
  | none => exact Verify.checkSlot_of_missing _ he
  | some e =>
    obtain ⟨m, hm⟩ := h.slotWord heps he
    rw [Verify.checkSlot_of_found _ he hm.ne_notFound]
    exact hm.checkWord_eq_none hpos _ _

theorem AllFaithful.expanded_ok (h : t.AllFaithful eps) (hpos : 0 < eps) (heps : eps ≤ 1) :
    (Verify.expanded (Verify.Check.exact eps) t t.expand).ok = true := by
  rw [Verify.Report.ok, List.isEmpty_iff, Verify.mismatches_expanded, List.filterMap_eq_nil_iff]
  intro s _
  exact h.checkSlot_slotWord hpos heps s

end Table

namespace Search

/-- In exact arithmetic, a table that was filled by runs of the passes passes verification, as it is and expanded: for
every number of slots and every depth that can be asked for, every tolerance up to one, and wherever the run stops. -/
theorem searched_table_verifies {points : Int} (hpos : 0 < points) (hdvd : 8 ∣ points) {D : Nat} (hlow : 1 ≤ D)
    (hhigh : D ≤ Buffer.maxDepth) (precision : Precision) {eps : ℝ} (heps : 0 < eps) (hone : eps ≤ 1) :
    ∃ (t₀ : Table (Mat ℂ) ℝ ℝ) (b₀ : Buffer (Mat ℂ)),
      Table.new points = .ok t₀ ∧ Buffer.new D precision = .ok b₀ ∧
      ∀ (complete : Table (Mat ℂ) ℝ ℝ → Bool) (b : Buffer (Mat ℂ)) (t : Table (Mat ℂ) ℝ ℝ),
        Run (Probe.exact eps) ⟨Table.offer, complete⟩ b₀ t₀ b t →
        (Verify.canonical (Verify.Check.exact eps) t).ok = true ∧
        (Verify.expanded (Verify.Check.exact eps) t t.expand).ok = true := by
  have hnew := Buffer.new_of_le (M := Mat ℂ) hlow hhigh precision
  refine ⟨Table.empty points.toNat, Buffer.empty D precision, Table.new_of_dvd hpos hdvd, hnew, ?_⟩
  intro complete b t hrun
  have hfaithful : t.AllFaithful eps := by
    refine (hrun.keeps (P := Table.AllFaithful eps) (Buffer.History.new hnew).wellFilled ?_ ?_).1
    · intro t c hc ht
      exact Table.forall_entries_offer ht (Table.faithful_entryOf hone (hc.faithful heps) t)
    · simp [Table.AllFaithful, Table.entries_empty]
  exact ⟨hfaithful.canonical_ok heps, hfaithful.expanded_ok heps hone⟩

/-- Both passes of depth 3 with tolerance one half, into a table of 64 slots. -/
theorem searched_table_verifies_depth_three :
    let x : Setup (Mat ℂ) ℝ ℝ (Table (Mat ℂ) ℝ ℝ) Unit :=
      ⟨Probe.exact (1 / 2), Table.sink, Options.default, none, fun _ => none⟩
    let first := exhaustive x (Buffer.empty 3 .single) (Table.empty 64) 0
    let second := meetInTheMiddle x first.1 first.2.sink first.2.polls
    let t := second.2.1.sink
    (Verify.canonical (Verify.Check.exact (1 / 2)) t).ok = true ∧
    (Verify.expanded (Verify.Check.exact (1 / 2)) t t.expand).ok = true := by
  intro x first second t
  obtain ⟨t₀, b₀, ht, hb, hverifies⟩ := searched_table_verifies (show 0 < (64 : Int) by decide)
    (show (8 : Int) ∣ 64 by decide) (show 1 ≤ 3 by decide) (show 3 ≤ Buffer.maxDepth by decide) .single
    (show (0 : ℝ) < 1 / 2 by norm_num) (show (1 / 2 : ℝ) ≤ 1 by norm_num)
  cases ht
  cases hb
  exact hverifies _ _ _ (.meetInTheMiddle x rfl rfl first.2.polls (.exhaustive x rfl rfl 0 .start))

end Search

end CliffordT
