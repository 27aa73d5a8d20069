import CliffordT.Proofs.Exact
import CliffordT.Proofs.ExactAngle
import CliffordT.Proofs.FoldMeaning
import CliffordT.Proofs.Runs
import CliffordT.Proofs.TableEntries

/-!
# Entries carry the matrix of their own word

The word and the matrix of a candidate are made in two ways: the word by decoding, spelling and folding, the matrix by
products of stored matrices with completions and corrections.  With exact matrices they agree.

* Replaying two words in a row multiplies their matrices in reverse (`replay_append`), so a row of blocks replays to
  its product (`replay_spell`), and every candidate of a search to its matrix (`Probe.Finds.replay_gates`).
* What a table stores is a candidate, turned back into the first sector by a correction (`Table.entryOf`).  The
  correction is appended to the word and multiplied to the matrix, and it does not change the size of any number off
  the diagonal (`Table.carries_entryOf`).

Hence every candidate offered, and every entry stored, replays to its own matrix (`entries_carry_own_matrix`).
-/

namespace CliffordT

/-! ### Replaying words in a row -/

section

variable {K : Type} [ExactNumbers K]

namespace Word

private theorem replayFrom_append_of_ok {v : Word} (w : Word) {offset : Nat} {m n : Mat K}
    (h : replayFrom offset m v = .ok n) : replayFrom offset m (v ++ w) = replayFrom (offset + v.length) n w := by
  induction v generalizing offset m with
  | nil => cases h; rfl
  | cons b v ih =>
    rw [List.cons_append, replayFrom]
    rw [replayFrom] at h
    cases hb : Gate.ofByte? b with
    | none => rw [hb] at h; cases h
    | some g =>
      rw [hb] at h
      refine (ih h).trans ?_
      rw [List.length_cons, Nat.add_comm v.length, ← Nat.add_assoc]

/-- What was applied before a word stands on the right of its matrix. -/
private theorem replayFrom_mul {w : Word} {offset offset' : Nat} {m n : Mat K} (l : Mat K)
    (h : replayFrom offset m w = .ok n) : replayFrom offset' (m * l) w = .ok (n * l) := by
  induction w generalizing offset offset' m with
  | nil => cases h; rfl
  | cons b w ih =>
    rw [replayFrom] at h ⊢
    cases hb : Gate.ofByte? b with
    | none => rw [hb] at h; cases h
    | some g =>
      rw [hb] at h
      have hassoc : GateAlgebra.gate g * (m * l) = GateAlgebra.gate g * m * l := (mul_assoc _ _ _).symm
      show replayFrom (offset' + 1) (GateAlgebra.gate g * (m * l)) w = _
      rw [hassoc]
      exact ih h

theorem replay_append {v w : Word} {m n : Mat K} (hv : replay v = .ok m) (hw : replay w = .ok n) :
    replay (v ++ w) = .ok (n * m) := by
  have hrest : replayFrom (0 + v.length) (1 * m) w = .ok (n * m) := replayFrom_mul m hw
  rw [one_mul] at hrest
  rw [replay, replayFrom_append_of_ok w hv, hrest]

theorem replay_block {b : Block} (h : b.Valid) : (replay b.word : Except UnknownGate (Mat K)) = .ok b.matrix := by
  have hgates (g : Gate) : GateAlgebra.gate g * (GateAlgebra.gate .h * 1) =
      (GateAlgebra.gate g * GateAlgebra.gate .h : Mat K) := by rw [mul_one]
  rcases h with rfl | rfl
  · exact congrArg Except.ok (hgates .t)
  · exact congrArg Except.ok (hgates .tInv)

/-- A row of blocks replays to its product. -/
theorem replay_spell {bs : List Block} (h : ∀ b ∈ bs, b.Valid) :
    (replay (spell bs) : Except UnknownGate (Mat K)) = .ok (Block.product bs) := by
  -- from the back, since the last block is the outermost factor
  induction bs using List.reverseRecOn with
  | nil => rfl
  | append_singleton bs b ih =>
    have hlast : spell [b] = b.word := List.append_nil _
    have hproduct : (Block.product (bs ++ [b]) : Mat K) = b.matrix * Block.product bs := by
      rw [Block.product, List.foldl_append]
      rfl
    rw [spell_append, hlast, hproduct]
    exact replay_append (ih fun c hc => h c (by simp [hc])) (replay_block (h b (by simp)))

theorem replay_completion {c : Completion (Mat K)} (h : c ∈ completions) : replay c.word = .ok c.matrix := by
  simp only [completions, List.mem_cons, List.not_mem_nil, or_false] at h
  rcases h with rfl | rfl | rfl
  · exact congrArg Except.ok (mul_one _)
  · exact congrArg Except.ok (mul_one _)
  · have : GateAlgebra.gate .x * (GateAlgebra.gate .h * 1) =
        (GateAlgebra.gate .x * GateAlgebra.gate .h : Mat K) := by rw [mul_one]
    exact congrArg Except.ok this

/-- The shortest run of `k` eighths turns the second row by `k` eighths. -/
theorem replay_phaseRun (k : Nat) :
    replay (phaseRun k) = .ok (Mat.diag 1 (ExactNumbers.root ^ k) : Mat K) := by
  have hmod : (ExactNumbers.root : K) ^ k = ExactNumbers.root ^ (k % 8) := pow_eq_pow_mod k root_pow_eight
  have hlt : k % 8 < 8 := Nat.mod_lt k (by omega)
  have hgates (i j : Nat) : Mat.diag 1 (ExactNumbers.root ^ i) * (Mat.diag 1 (ExactNumbers.root ^ j) * 1) =
      (Mat.diag 1 (ExactNumbers.root ^ (i + j)) : Mat K) := by
    rw [mul_one, ← gate_t_pow, ← gate_t_pow, ← pow_add, gate_t_pow]
  have hgate (i : Nat) : Mat.diag 1 (ExactNumbers.root ^ i) * 1 = (Mat.diag 1 (ExactNumbers.root ^ i) : Mat K) :=
    mul_one _
  rw [hmod]
  unfold phaseRun
  generalize k % 8 = r at hlt
  interval_cases r
  · exact congrArg Except.ok (by rw [pow_zero]; rfl)
  · exact congrArg Except.ok (hgate 1)
  · exact congrArg Except.ok (hgate 2)
  · exact congrArg Except.ok (hgates 1 2)
  · exact congrArg Except.ok (hgate 4)
  · exact congrArg Except.ok (hgates 1 4)
  · exact congrArg Except.ok (hgate 6)
  · exact congrArg Except.ok (hgate 7)

/-- A word that has a matrix keeps it when it is folded. -/
theorem replay_fold {w : Word} {m : Mat K} (h : replay w = .ok m) : replay (fold w) = .ok m := by
  have hfold := toOption_replay_fold (K := K) w
  rw [h] at hfold
  cases hw : (replay (fold w) : Except UnknownGate (Mat K)) with
  | error e => rw [hw] at hfold; cases hfold
  | ok n => rw [hw] at hfold; cases hfold; rfl

end Word

theorem correction_eq_diag (k : Nat) : (correction k : Mat K) = Mat.diag 1 (ExactNumbers.root ^ k) := by
  rw [correction, Word.replay_phaseRun]

/-- A correction behind a word is a factor in front of its matrix. -/
theorem Word.replay_fold_append_phaseRun {w : Word} {m : Mat K} (h : replay w = .ok m) (k : Nat) :
    replay (fold (w ++ phaseRun k)) = .ok (correction k * m) := by
  rw [correction_eq_diag]
  exact replay_fold (replay_append h (replay_phaseRun k))

/-! ### Candidates -/

theorem Source.stored_eq_product (precision : Precision) (source : Source) :
    (source.stored precision : Mat K) = Block.product source.blockList := by
  cases source with
  | single i =>
    rw [blockList_single]
    rfl
  | joined p s =>
    rw [blockList_joined, Block.product_append]
    rfl

variable {A E : Type}

theorem Probe.Finds.replay_gates [Zero A] [Zero E] {probe : Probe (Mat K) A E} {precision : Precision}
    {c : Candidate (Mat K) A E} (h : probe.Finds precision c) : Word.replay c.gates = .ok c.matrix := by
  cases h with
  | seed => rfl
  | hit source hc _ =>
    show Word.replay (source.word _) = .ok (_ * source.stored precision)
    rw [source.word_eq hc, source.stored_eq_product]
    exact Word.replay_append (Word.replay_spell fun b hb => Source.valid_of_mem_blockList hb)
      (Word.replay_completion hc)

/-! ### Sizes -/

variable (K E) in
/-- A way to measure numbers: zero has size zero, and turning a number by eighths does not change its size. -/
structure Magnitude [Zero E] [Max E] where
  size : K → E
  size_zero : size 0 = 0
  size_root_pow_mul (k : Nat) (z : K) : size (ExactNumbers.root ^ k * z) = size z
  max_zero_zero : max (0 : E) 0 = 0

/-- The larger size off the diagonal. -/
def Magnitude.offDiagonal [Zero E] [Max E] (μ : Magnitude K E) (m : Mat K) : E := max (μ.size m.b) (μ.size m.c)

theorem Magnitude.offDiagonal_one [Zero E] [Max E] (μ : Magnitude K E) : μ.offDiagonal 1 = 0 := by
  show max (μ.size 0) (μ.size 0) = 0
  rw [μ.size_zero, μ.max_zero_zero]

theorem Magnitude.offDiagonal_correction_mul [Zero E] [Max E] (μ : Magnitude K E) (k : Nat) (m : Mat K) :
    μ.offDiagonal (correction k * m) = μ.offDiagonal m := by
  rw [correction_eq_diag, Mat.diag_one_mul, offDiagonal, offDiagonal, μ.size_root_pow_mul]

theorem Probe.Finds.error_eq [Zero A] [Zero E] [Max E] {probe : Probe (Mat K) A E} {precision : Precision}
    {c : Candidate (Mat K) A E} (h : probe.Finds precision c) {μ : Magnitude K E}
    (herror : probe.error = μ.offDiagonal) : c.error = μ.offDiagonal c.matrix := by
  cases h with
  | seed => exact μ.offDiagonal_one.symm
  | hit source hc _ => exact congrFun herror _

/-! ### Entries -/

variable [Angle A] [Residual E] [Max E]

/-- A word with its own matrix, and with the size of that matrix off the diagonal as its error. -/
def Magnitude.Carries (μ : Magnitude K E) (e : Entry (Mat K) A E) : Prop :=
  Word.replay e.gates = .ok e.matrix ∧ e.error = μ.offDiagonal e.matrix

/-- A candidate that carries its own matrix makes an entry that does. -/
theorem Table.carries_entryOf {μ : Magnitude K E} {c : Candidate (Mat K) A E}
    (hreplay : Word.replay c.gates = .ok c.matrix) (herror : c.error = μ.offDiagonal c.matrix)
    (t : Table (Mat K) A E) : μ.Carries (t.entryOf c) := by
  unfold entryOf
  dsimp only
  split
  · exact ⟨hreplay, herror⟩
  · refine ⟨Word.replay_fold_append_phaseRun hreplay _, ?_⟩
    rw [μ.offDiagonal_correction_mul]
    exact herror

end

namespace Search

variable {K A E : Type} [ExactNumbers K] [Angle A] [Residual E] [Max E]

/-- In exact arithmetic, whatever runs of the passes offer to any sink replays to its matrix, and so does every entry of
a table that was new before the run; the error of the entry is the size of that matrix off the diagonal. Runs start
from a buffer with any history, and the table may call itself complete at any point. -/
theorem entries_carry_own_matrix (μ : Magnitude K E) {probe : Probe (Mat K) A E} (herror : probe.error = μ.offDiagonal)
    {b₀ : Buffer (Mat K)} {log : List (Visit (Mat K))} (hb : Buffer.History b₀ log) :
    (∀ (σ : Type) (sink : Sink (Candidate (Mat K) A E) σ) (s₀ s : σ) (b : Buffer (Mat K))
      (offered : List (Candidate (Mat K) A E)), Run probe sink.recording b₀ (s₀, []) b (s, offered) →
      ∀ c ∈ offered, Word.replay c.gates = .ok c.matrix) ∧
    ∀ (points : Int) (t₀ t : Table (Mat K) A E) (complete : Table (Mat K) A E → Bool) (b : Buffer (Mat K)),
      Table.new points = .ok t₀ → Run probe ⟨Table.offer, complete⟩ b₀ t₀ b t →
      ∀ e ∈ t.entries, Word.replay e.gates = .ok e.matrix ∧ e.error = μ.offDiagonal e.matrix := by
  constructor
  · intro σ sink s₀ s b offered hrun
    refine (hrun.keeps (P := fun s => ∀ c ∈ s.2, Word.replay c.gates = .ok c.matrix) hb.wellFilled ?_ (by simp)).1
    intro s c hc hs d hd
    rcases List.mem_append.1 hd with hd | hd
    · exact hs d hd
    · rw [List.mem_singleton.1 hd]
      exact hc.replay_gates
  · intro points t₀ t complete b hnew hrun
    obtain ⟨-, -, rfl⟩ := Table.new_eq_ok hnew
    refine (hrun.keeps (P := fun t => ∀ e ∈ t.entries, μ.Carries e) hb.wellFilled ?_ ?_).1
    · intro t c hc ht
      exact Table.forall_entries_offer ht (Table.carries_entryOf hc.replay_gates (hc.error_eq herror) t)
    · simp [Table.entries_empty]

/-- Both passes of depth 2 over the complex numbers, polled at every step and told to stop at poll 9, into a table of 64
slots. -/
theorem entries_carry_own_matrix_interrupted :
    let μ : Magnitude ℂ ℝ :=
      ⟨fun z => ‖z‖, norm_zero, fun k z => by rw [norm_mul, norm_root_pow, one_mul], max_self 0⟩
    let x : Setup (Mat ℂ) ℝ ℝ (Table (Mat ℂ) ℝ ℝ) Unit :=
      ⟨Probe.exact (1 / 2), Table.sink, ⟨1, 1, false⟩, none, fun k => if k = 9 then some .canceled else none⟩
    let first := exhaustive x (Buffer.empty 2 .double) (Table.empty 64) 0
    let second := meetInTheMiddle x first.1 first.2.sink first.2.polls
    x.probe.error = μ.offDiagonal ∧ Buffer.History (Buffer.empty 2 .double : Buffer (Mat ℂ)) [] ∧
    Table.new 64 = .ok (Table.empty 64 : Table (Mat ℂ) ℝ ℝ) ∧
    ∀ e ∈ second.2.1.sink.entries, Word.replay e.gates = .ok e.matrix ∧ e.error = max ‖e.matrix.b‖ ‖e.matrix.c‖ := by
  intro μ x first second
  have hb : Buffer.History (Buffer.empty 2 .double : Buffer (Mat ℂ)) [] :=
    .new (show Buffer.new 2 .double = .ok (Buffer.empty 2 .double) from rfl)
  have ht : Table.new 64 = .ok (Table.empty 64 : Table (Mat ℂ) ℝ ℝ) := rfl
  have hstart : Run x.probe x.sink (Buffer.empty 2 .double) (Table.empty 64) (Buffer.empty 2 .double)
      (Table.empty 64) := .start
  have hrun := Run.meetInTheMiddle x rfl rfl first.2.polls (Run.exhaustive x rfl rfl 0 hstart)
  exact ⟨rfl, hb, ht, (entries_carry_own_matrix μ rfl hb).2 64 _ _ _ _ ht hrun⟩

end Search

end CliffordT
