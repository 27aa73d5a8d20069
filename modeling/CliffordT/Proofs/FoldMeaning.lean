import CliffordT.Proofs.Exact
import CliffordT.Word.Fold

/-!
# Folding keeps the meaning of a word

An interpretation gives every byte a value in a monoid such that basis changes undo each other and the phase gates are
powers of one element with eighth power one; all other bytes are free.  A word is worth the product of its bytes, and
the folded word is worth the same (`product_fold`): each step of folding multiplies the word kept so far by the value of
the byte read, since a run of phase gates is worth the power of its total phase, and so is the shortest run of that
phase.

Exact matrices are one, multiplied in the opposite order, with zero for bytes that stand for no gate.  There the product
of a word is its replay, so folding changes neither the matrix of a word nor whether it has one
(`toOption_replay_fold`).
-/

namespace CliffordT

universe u

/-- A value for every byte, in a monoid where the gates that folding moves obey their relations. -/
structure Word.Interpretation (G : Type u) [Monoid G] where
  value : UInt8 → G
  /-- the value of an eighth of a turn -/
  turn : G
  turn_pow_eight : turn ^ 8 = 1
  value_h_mul_value_h : value (Gate.byte .h) * value (Gate.byte .h) = 1
  value_t : value (Gate.byte .t) = turn
  value_s : value (Gate.byte .s) = turn ^ 2
  value_z : value (Gate.byte .z) = turn ^ 4
  value_sInv : value (Gate.byte .sInv) = turn ^ 6
  value_tInv : value (Gate.byte .tInv) = turn ^ 7

namespace Word.Interpretation

variable {G : Type u} [Monoid G] (ρ : Word.Interpretation G)

/-- The product of the values of a word, in the order of the word. -/
def product (w : Word) : G := (w.map ρ.value).prod

@[simp] theorem product_nil : ρ.product [] = 1 := rfl

@[simp] theorem product_cons (b : UInt8) (w : Word) : ρ.product (b :: w) = ρ.value b * ρ.product w :=
  List.prod_cons

theorem product_append (v w : Word) : ρ.product (v ++ w) = ρ.product v * ρ.product w := by
  simp [product]

/-! ### Runs of phase gates -/

theorem value_of_eighths? {b : UInt8} {n : Nat} (h : Word.eighths? b = some n) : ρ.value b = ρ.turn ^ n := by
  unfold Word.eighths? at h
  split at h
  · rename_i hb; cases h; rw [hb, ρ.value_t, pow_one]
  split at h
  · rename_i hb; cases h; rw [hb, ρ.value_s]
  split at h
  · rename_i hb; cases h; rw [hb, ρ.value_z]
  split at h
  · rename_i hb; cases h; rw [hb, ρ.value_sInv]
  split at h
  · rename_i hb; cases h; rw [hb, ρ.value_tInv]
  · cases h

theorem value_of_isPhase {b : UInt8} (h : Word.isPhase b = true) : ρ.value b = ρ.turn ^ Word.eighths b := by
  obtain ⟨n, hn⟩ := Option.isSome_iff_exists.1 h
  rw [ρ.value_of_eighths? hn, Word.eighths, hn]
  rfl

/-- A run of phase gates is worth the power of its total phase, whichever way round it is written. -/
theorem product_reverse_of_isPhase {w : Word} (h : ∀ b ∈ w, Word.isPhase b = true) :
    ρ.product w.reverse = ρ.turn ^ w.foldr (fun b n => Word.eighths b + n) 0 := by
  induction w with
  | nil => rw [List.reverse_nil, product_nil, List.foldr_nil, pow_zero]
  | cons b w ih =>
    rw [List.reverse_cons, product_append, ih (fun c hc => h c (by simp [hc])), product_cons, product_nil, mul_one,
      ρ.value_of_isPhase (h b (by simp)), ← pow_add, List.foldr_cons, Nat.add_comm]

theorem product_phaseRun (k : Nat) : ρ.product (Word.phaseRun k) = ρ.turn ^ k := by
  -- only the phase modulo a full turn is written, which is all that the power sees
  have hmod : ρ.turn ^ k = ρ.turn ^ (k % 8) := pow_eq_pow_mod k ρ.turn_pow_eight
  have hlt : k % 8 < 8 := Nat.mod_lt k (by omega)
  rw [hmod]
  unfold Word.phaseRun
  generalize k % 8 = r at hlt
  interval_cases r <;>
    simp [ρ.value_t, ρ.value_s, ρ.value_z, ρ.value_sInv, ρ.value_tInv, ← pow_succ]

/-! ### One step of folding, and all of them -/

theorem product_foldStep (kept : Word) (b : UInt8) :
    ρ.product (Word.foldStep kept b).reverse = ρ.product kept.reverse * ρ.value b := by
  cases hb : Word.eighths? b with
  | some u =>
    -- the run at the end of the kept word and the new gate become one run
    have hrun : ρ.product (kept.takeWhile Word.isPhase).reverse = ρ.turn ^ Word.leadingEighths kept :=
      ρ.product_reverse_of_isPhase (fun c hc => List.mem_takeWhile_imp hc)
    have hsplit : ρ.product kept.reverse =
        ρ.product (kept.dropWhile Word.isPhase).reverse * ρ.turn ^ Word.leadingEighths kept := by
      rw [← hrun, ← product_append, ← List.reverse_append, List.takeWhile_append_dropWhile]
    simp only [Word.foldStep, hb]
    rw [List.reverse_append, List.reverse_reverse, product_append, product_phaseRun, hsplit, mul_assoc,
      ρ.value_of_eighths? hb, ← pow_add, Nat.add_comm]
  | none =>
    cases kept with
    | nil => simp [Word.foldStep, hb]
    | cons a rest =>
      simp only [Word.foldStep, hb]
      split
      · rename_i hpair
        rw [List.reverse_cons, product_append, product_cons, product_nil, mul_one, hpair.1, hpair.2, mul_assoc,
          ρ.value_h_mul_value_h, mul_one]
      · rw [List.reverse_cons, product_append, product_cons, product_nil, mul_one]

theorem product_foldl_foldStep (w kept : Word) :
    ρ.product (w.foldl Word.foldStep kept).reverse = ρ.product kept.reverse * ρ.product w := by
  induction w generalizing kept with
  | nil => rw [List.foldl_nil, product_nil, mul_one]
  | cons b w ih => rw [List.foldl_cons, ih, product_foldStep, product_cons, mul_assoc]

theorem product_fold (w : Word) : ρ.product (Word.fold w) = ρ.product w := by
  rw [Word.fold, product_foldl_foldStep, List.reverse_nil, product_nil, one_mul]

end Word.Interpretation

/-! ### Replaying a folded word -/

section

variable {K : Type}

/-- A matrix as a factor of a word that is read from the left. -/
private def factor (m : Mat K) : WithZero (Mat K)ᵐᵒᵖ := (MulOpposite.op m : (Mat K)ᵐᵒᵖ)

private theorem factor_ne_zero (m : Mat K) : factor m ≠ 0 := WithZero.coe_ne_zero

private theorem factor_injective {m n : Mat K} (h : factor m = factor n) : m = n :=
  MulOpposite.op_injective (WithZero.coe_injective h)

/-- What a replay is worth as a product: zero if it fails. -/
private def worth (r : Except UnknownGate (Mat K)) : WithZero (Mat K)ᵐᵒᵖ := r.toOption.elim 0 factor

private theorem toOption_eq_of_worth_eq {r s : Except UnknownGate (Mat K)} (h : worth r = worth s) :
    r.toOption = s.toOption := by
  unfold worth at h
  cases hr : r.toOption with
  | none =>
    cases hs : s.toOption with
    | none => rfl
    | some n =>
      rw [hr, hs] at h
      exact absurd h.symm (factor_ne_zero n)
  | some m =>
    cases hs : s.toOption with
    | none =>
      rw [hr, hs] at h
      exact absurd h (factor_ne_zero m)
    | some n =>
      rw [hr, hs] at h
      rw [factor_injective h]

variable [ExactNumbers K]

private theorem factor_mul (m n : Mat K) : factor m * factor n = factor (n * m) := rfl

private theorem factor_one : factor (1 : Mat K) = 1 := rfl

private theorem factor_pow (m : Mat K) (n : Nat) : factor m ^ n = factor (m ^ n) := by
  induction n with
  | zero => rfl
  | succ n ih => rw [pow_succ, ih, factor_mul, ← pow_succ']

variable (K) in
/-- The exact matrices of the gates as an interpretation. A byte that stands for no gate is zero. -/
private def gateInterpretation : Word.Interpretation (WithZero (Mat K)ᵐᵒᵖ) where
  value b := match Gate.ofByte? b with
    | some g => factor (GateAlgebra.gate g)
    | none => 0
  turn := factor (GateAlgebra.gate .t)
  turn_pow_eight := by rw [factor_pow, gate_t_pow_eight, factor_one]
  value_h_mul_value_h := by
    simp only [Gate.ofByte?_byte]
    rw [factor_mul, gate_h_mul_gate_h, factor_one]
  value_t := by simp only [Gate.ofByte?_byte]
  value_s := by simp only [Gate.ofByte?_byte]; rw [factor_pow, gate_t_pow]; rfl
  value_z := by simp only [Gate.ofByte?_byte]; rw [factor_pow, gate_t_pow]; rfl
  value_sInv := by simp only [Gate.ofByte?_byte]; rw [factor_pow, gate_t_pow]; rfl
  value_tInv := by simp only [Gate.ofByte?_byte]; rw [factor_pow, gate_t_pow]; rfl

private theorem worth_replayFrom (w : Word) (offset : Nat) (m : Mat K) :
    worth (Word.replayFrom offset m w) = factor m * (gateInterpretation K).product w := by
  induction w generalizing offset m with
  | nil => exact (mul_one (factor m)).symm
  | cons b w ih =>
    rw [Word.replayFrom, Word.Interpretation.product_cons]
    cases hb : Gate.ofByte? b with
    | some g =>
      have hvalue : (gateInterpretation K).value b = factor (GateAlgebra.gate g) := by
        simp only [gateInterpretation, hb]
      rw [hvalue, ← mul_assoc, factor_mul]
      exact ih _ _
    | none =>
      -- the replay ends here, and zero absorbs the rest of the word
      have hvalue : (gateInterpretation K).value b = 0 := by simp only [gateInterpretation, hb]
      rw [hvalue, zero_mul, mul_zero]
      rfl

/-- A word and its folded form have the same exact matrix, or none. -/
theorem toOption_replay_fold (w : Word) :
    (Word.replay (Word.fold w) : Except UnknownGate (Mat K)).toOption = (Word.replay w).toOption := by
  have hworth (v : Word) : worth (Word.replay v : Except UnknownGate (Mat K)) = (gateInterpretation K).product v := by
    rw [Word.replay, worth_replayFrom, factor_one, one_mul]
  apply toOption_eq_of_worth_eq
  rw [hworth, hworth, Word.Interpretation.product_fold]

end

/-- Folding a word changes neither its product under any interpretation nor its exact matrix, if it has one. -/
theorem fold_preserves_meaning (w : Word) :
    (∀ (G : Type u) [Monoid G] (ρ : Word.Interpretation G), ρ.product (Word.fold w) = ρ.product w) ∧
    ∀ (K : Type) [ExactNumbers K],
      (Word.replay (Word.fold w) : Except UnknownGate (Mat K)).toOption = (Word.replay w).toOption := by
  constructor
  · intro G _ ρ
    exact ρ.product_fold w
  · intro K _
    exact toOption_replay_fold w

end CliffordT
