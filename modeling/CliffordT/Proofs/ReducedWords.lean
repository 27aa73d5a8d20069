import CliffordT.Proofs.NormalForm
import CliffordT.Proofs.BlockWords

/-!
# Reduced words

A word is reduced if it has no two basis changes side by side and each of its maximal phase runs is a shortest one
(`Word.Reduced`).  Folded words are reduced (`reduced_fold`), since what folding keeps is settled, and a settled word
stays settled when bytes are taken off its end.

The words that a search makes are folded as they stand (`Searched.fold_eq`): a block ends in a single phase gate and
begins with a basis change, so a phase gate never meets another one, nor a basis change another one.  A phase run that
is appended and folded in goes away again when the run that completes it to a full turn is appended
(`fold_fold_append_phaseRun`).
-/

namespace CliffordT.Word

/-- No two basis changes side by side, and every maximal run of phase gates is a shortest one. -/
structure Reduced (w : Word) : Prop where
  no_pair : ¬ [Gate.byte .h, Gate.byte .h] <:+: w
  run_eq (u v r : Word) : w = u ++ r ++ v → (∀ b ∈ r, isPhase b = true) →
    (∀ b ∈ u.getLast?, isPhase b = false) → (∀ b ∈ v.head?, isPhase b = false) → ∃ k < 8, r = phaseRun k

/-! ### Folded words are reduced -/

/-- A shortest run without its last gate is a shortest run. -/
private theorem exists_of_reverse_phaseRun_eq_cons {k : Nat} {a : UInt8} {w : Word}
    (h : (phaseRun k).reverse = a :: w) : ∃ j, w = (phaseRun j).reverse := by
  have htail : ∀ r < 8, ∃ j < 8, (phaseRun r).reverse.tail = (phaseRun j).reverse := by decide
  obtain ⟨j, -, hj⟩ := htail (k % 8) (Nat.mod_lt k (by omega))
  rw [phaseRun_congr (Nat.mod_mod k 8), h] at hj
  exact ⟨j, hj⟩

theorem Settled.tail {a : UInt8} {w : Word} (h : Settled (a :: w)) : Settled w := by
  generalize hv : a :: w = v at h
  cases h with
  | run k =>
    obtain ⟨j, rfl⟩ := exists_of_reverse_phaseRun_eq_cons hv.symm
    exact Settled.run j
  | other k hb hpair hw =>
    cases hrun : (phaseRun k).reverse with
    | nil =>
      rw [hrun] at hv
      cases hv
      exact hw
    | cons c run =>
      -- the byte is the last gate of the run
      obtain ⟨j, rfl⟩ := exists_of_reverse_phaseRun_eq_cons hrun
      rw [hrun] at hv
      cases hv
      exact Settled.other j hb hpair hw

private theorem Settled.of_append {v w : Word} (h : Settled (v ++ w)) : Settled w := by
  induction v with
  | nil => exact h
  | cons a v ih => exact ih h.tail

private theorem Settled.eq_run {r w : Word} (h : Settled (r ++ w)) (hr : ∀ b ∈ r, isPhase b = true)
    (hw : ∀ b ∈ w.head?, isPhase b = false) : r = (phaseRun (leadingEighths (r ++ w))).reverse := by
  have hdrop : (r ++ w).dropWhile isPhase = w := by
    rw [List.dropWhile_append_of_pos hr]
    exact dropWhile_run_append 0 hw
  have hsplit := h.run_leadingEighths_append
  rw [hdrop] at hsplit
  exact (List.append_cancel_right hsplit).symm

theorem reduced_of_settled {w : Word} (h : Settled w.reverse) : Reduced w := by
  constructor
  · rintro ⟨u, v, rfl⟩
    simp only [List.reverse_append, List.reverse_cons, List.reverse_nil, List.nil_append, List.cons_append] at h
    exact (h.of_append.of_cons isPhase_h).2 rfl rfl
  · rintro u v r rfl hr hu -
    rw [List.reverse_append, List.reverse_append] at h
    have hrun := h.of_append.eq_run (fun b hb => hr b (List.mem_reverse.1 hb)) (by rwa [List.head?_reverse])
    generalize leadingEighths (r.reverse ++ u.reverse) = k at hrun
    exact ⟨k % 8, Nat.mod_lt k (by omega), by rw [phaseRun_congr (Nat.mod_mod k 8), List.reverse_inj.1 hrun]⟩

theorem reduced_fold (w : Word) : Reduced (fold w) := by
  apply reduced_of_settled
  rw [fold, List.reverse_reverse]
  exact settled_nil.foldl_foldStep w

theorem fold_fold (w : Word) : fold (fold w) = fold w := (equivalent_fold w).fold_eq

/-! ### Appending phase runs -/

private theorem totalEighths_append (v w : Word) : totalEighths (v ++ w) = totalEighths v + totalEighths w := by
  induction v with
  | nil => exact (Nat.zero_add _).symm
  | cons b v ih =>
    show eighths b + totalEighths (v ++ w) = eighths b + totalEighths v + totalEighths w
    rw [ih, Nat.add_assoc]

private theorem totalEighths_phaseRun (k : Nat) : totalEighths (phaseRun k) % 8 = k % 8 :=
  phaseRun_cases (P := fun r w => totalEighths w % 8 = r) (by decide) k

/-- Two runs that make a full turn leave the folded word. -/
theorem fold_fold_append_phaseRun (w : Word) {j k : Nat} (h : (j + k) % 8 = 0) :
    fold (fold (w ++ phaseRun j) ++ phaseRun k) = fold w := by
  have hturn : Equivalent (phaseRun j ++ phaseRun k) [] := by
    refine Equivalent.run (fun b hb => ?_) (by simp) ?_
    · rcases List.mem_append.1 hb with hb | hb
      · exact isPhase_of_mem_phaseRun hb
      · exact isPhase_of_mem_phaseRun hb
    · have hj := totalEighths_phaseRun j
      have hk := totalEighths_phaseRun k
      rw [totalEighths_append]
      show _ = 0 % 8
      omega
  have hinner : Equivalent (fold (w ++ phaseRun j) ++ phaseRun k) (w ++ (phaseRun j ++ phaseRun k)) := by
    rw [← List.append_assoc]
    exact Equivalent.append (equivalent_fold _) (Equivalent.refl _)
  have houter : Equivalent (w ++ (phaseRun j ++ phaseRun k)) (w ++ []) :=
    Equivalent.append (Equivalent.refl w) hturn
  rw [(hinner.trans houter).fold_eq, List.append_nil]

/-! ### The words of a search -/

/-- Blocks with a completion behind them, or no gate at all. -/
inductive Searched : Word → Prop
  | seed : Searched []
  | hit (bs : List Block) {v : Word}
      (hv : v = [Gate.byte .h] ∨ v = [Gate.byte .x] ∨ v = [Gate.byte .h, Gate.byte .x]) : Searched (spell bs ++ v)

private theorem foldStep_h {kept : Word} (h : kept.head? ≠ some (Gate.byte .h)) :
    foldStep kept (Gate.byte .h) = Gate.byte .h :: kept :=
  foldStep_of_not_isPhase isPhase_h fun _ => h

/-- A block behind a word that does not end in a basis change is kept as it is. -/
private theorem foldl_foldStep_block (b : Block) {kept : Word} (h : kept.head? ≠ some (Gate.byte .h)) :
    b.word.foldl foldStep kept = b.word.reverse ++ kept ∧
      (b.word.reverse ++ kept).head? ≠ some (Gate.byte .h) := by
  unfold Block.word
  split
  · rw [List.foldl_cons, foldStep_h h]
    exact ⟨rfl, show some (Gate.byte .tInv) ≠ some (Gate.byte .h) by decide⟩
  · rw [List.foldl_cons, foldStep_h h]
    exact ⟨rfl, show some (Gate.byte .t) ≠ some (Gate.byte .h) by decide⟩

private theorem foldl_foldStep_completion {v kept : Word} (h : kept.head? ≠ some (Gate.byte .h))
    (hv : v = [Gate.byte .h] ∨ v = [Gate.byte .x] ∨ v = [Gate.byte .h, Gate.byte .x]) :
    v.foldl foldStep kept = v.reverse ++ kept := by
  have hlast (kept : Word) : foldStep kept (Gate.byte .x) = Gate.byte .x :: kept :=
    foldStep_of_not_isPhase (by decide) fun heq => absurd heq (by decide)
  rcases hv with rfl | rfl | rfl
  · exact foldStep_h h
  · exact hlast kept
  · rw [List.foldl_cons, foldStep_h h]
    exact hlast (Gate.byte .h :: kept)

private theorem foldl_foldStep_spell_append (bs : List Block) {v kept : Word} (h : kept.head? ≠ some (Gate.byte .h))
    (hv : v = [Gate.byte .h] ∨ v = [Gate.byte .x] ∨ v = [Gate.byte .h, Gate.byte .x]) :
    (spell bs ++ v).foldl foldStep kept = (spell bs ++ v).reverse ++ kept := by
  -- what is kept grows, and it never ends in a basis change where a block begins
  induction bs generalizing kept with
  | nil => exact foldl_foldStep_completion h hv
  | cons b bs ih =>
    obtain ⟨hblock, hhead⟩ := foldl_foldStep_block b h
    rw [spell_cons, List.append_assoc, List.foldl_append, hblock, ih hhead]
    simp only [List.reverse_append, List.append_assoc]

/-- There is nothing to fold in the words of a search. -/
theorem Searched.fold_eq {w : Word} (h : Searched w) : fold w = w := by
  cases h with
  | seed => rfl
  | hit bs hv => rw [fold, foldl_foldStep_spell_append bs (by simp) hv, List.append_nil, List.reverse_reverse]

end CliffordT.Word
