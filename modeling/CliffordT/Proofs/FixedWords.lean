import CliffordT.Proofs.ReducedWords
import Mathlib.Data.List.SplitBy

/-!
# Words that folding leaves alone

Folding returns a word as it is exactly if the word is reduced, and a reduced word can be told by its bytes: no two
basis changes are neighbours, and every maximal run of phase gates (`maximalRuns`) is one of the seven shortest runs
(`reduced_iff`).

* A settled word is read as it is (`Settled.foldl_reverse`).  The run at the end of what is kept, summed with the phase
  gate that comes next, is that run with the gate behind it (`Settled.foldStep_eq_cons`).
* A reduced word is settled (`settled_of_reduced`).  Its last run is a shortest one, and what stands in front of the
  byte before that run is reduced again.
-/

namespace CliffordT.Word

/-! ### Settled words are read as they are -/

theorem Settled.foldStep_eq_cons {b : UInt8} {kept : Word} (h : Settled (b :: kept)) :
    Word.foldStep kept b = b :: kept := by
  cases hb : isPhase b with
  | true =>
    have hlead : leadingEighths (b :: kept) = eighths b + leadingEighths kept := by
      rw [leadingEighths, List.takeWhile_cons_of_pos hb, List.foldr_cons, leadingEighths]
    have hsplit := h.run_leadingEighths_append
    rw [hlead, List.dropWhile_cons_of_pos hb] at hsplit
    rw [foldStep_of_isPhase hb, hsplit]
  | false => exact foldStep_of_not_isPhase hb (h.of_cons hb).2

theorem Settled.foldl_reverse {w : Word} (h : Settled w) : w.reverse.foldl Word.foldStep [] = w := by
  induction w with
  | nil => rfl
  | cons b w ih => rw [List.reverse_cons, List.foldl_concat, ih h.tail, h.foldStep_eq_cons]

theorem fold_eq_self_iff_settled {w : Word} : fold w = w ↔ Settled w.reverse := by
  constructor
  · intro h
    rw [← h, fold, List.reverse_reverse]
    exact settled_nil.foldl_foldStep w
  · intro h
    have hread := h.foldl_reverse
    rw [List.reverse_reverse] at hread
    rw [fold, hread, List.reverse_reverse]

/-! ### Reduced words are settled -/

/-- The part of a reduced word in front of a byte that is no phase gate. -/
private theorem Reduced.of_append_cons {u v : Word} {b : UInt8} (h : Reduced (u ++ b :: v)) (hb : isPhase b = false) :
    Reduced u := by
  constructor
  · intro hpair
    exact h.no_pair (hpair.trans (List.prefix_append u (b :: v)).isInfix)
  · rintro u' v' r rfl hr hu hv
    refine h.run_eq u' (v' ++ b :: v) r (by simp) hr hu ?_
    -- a run that ends where the part ends is followed by `b`
    cases v' with
    | nil => simpa using hb
    | cons c v' => simpa using hv

private theorem Reduced.takeWhile_eq_run {w : Word} (h : Reduced w.reverse) :
    ∃ k, w.takeWhile isPhase = (phaseRun k).reverse := by
  have hsplit : w.reverse = (w.dropWhile isPhase).reverse ++ (w.takeWhile isPhase).reverse ++ [] := by
    rw [List.append_nil, ← List.reverse_append, List.takeWhile_append_dropWhile]
  obtain ⟨k, -, hk⟩ := h.run_eq _ _ _ hsplit (fun b hb => List.mem_takeWhile_imp (List.mem_reverse.1 hb))
    (by rw [List.getLast?_reverse]; exact isPhase_head?_dropWhile w) (by simp)
  exact ⟨k, by rw [← hk, List.reverse_reverse]⟩

theorem settled_of_reduced {w : Word} (h : Reduced w.reverse) : Settled w := by
  -- on the length: the last run goes away together with the byte before it
  induction hlength : w.length using Nat.strong_induction_on generalizing w with
  | _ n ih =>
    obtain ⟨k, hk⟩ := h.takeWhile_eq_run
    have hsplit : (phaseRun k).reverse ++ w.dropWhile isPhase = w := by rw [← hk, List.takeWhile_append_dropWhile]
    cases hrest : w.dropWhile isPhase with
    | nil =>
      rw [hrest, List.append_nil] at hsplit
      rw [← hsplit]
      exact Settled.run k
    | cons b rest =>
      have hb : isPhase b = false := isPhase_head?_dropWhile w b (by rw [hrest]; rfl)
      rw [hrest] at hsplit
      have hreverse : w.reverse = rest.reverse ++ b :: phaseRun k := by simp [← hsplit]
      have hshorter : rest.length < n := by
        rw [← hlength, ← hsplit, List.length_append, List.length_cons]
        omega
      rw [hreverse] at h
      rw [← hsplit]
      refine Settled.other k hb (fun hbh hhead => ?_) (ih rest.length hshorter (h.of_append_cons hb) rfl)
      obtain ⟨rest, rfl⟩ := List.head?_eq_some_iff.1 hhead
      exact h.no_pair ⟨rest.reverse, phaseRun k, by simp [hbh]⟩

theorem fold_eq_self_iff_reduced {w : Word} : fold w = w ↔ Reduced w := by
  rw [fold_eq_self_iff_settled]
  exact ⟨reduced_of_settled, fun h => settled_of_reduced (by rwa [List.reverse_reverse])⟩

/-! ### Maximal runs -/

/-- The bytes that write phase gates: `T`, `t`, `S`, `s` and `Z`. -/
def phaseBytes : List UInt8 := [Gate.byte .t, Gate.byte .tInv, Gate.byte .s, Gate.byte .sInv, Gate.byte .z]

/-- Whether two bytes are both phase gates or both none. -/
def sameKind (a b : UInt8) : Bool := phaseBytes.contains a == phaseBytes.contains b

/-- The maximal runs of phase gates in a word, in the order in which they stand. -/
def maximalRuns (w : Word) : List Word := (w.splitBy sameKind).filter fun r => r.all fun b => phaseBytes.contains b

theorem contains_phaseBytes (b : UInt8) : phaseBytes.contains b = isPhase b := by
  unfold phaseBytes isPhase eighths?
  grind

theorem sameKind_eq (a b : UInt8) : sameKind a b = (isPhase a == isPhase b) := by
  rw [sameKind, contains_phaseBytes, contains_phaseBytes]

private theorem exists_head?_of_flatten {runs : List Word} (hne : [] ∉ runs) {b : UInt8}
    (h : b ∈ runs.flatten.head?) : ∃ s ∈ runs.head?, b ∈ s.head? := by
  cases runs with
  | nil => simp at h
  | cons s runs =>
    have hs : s ≠ [] := fun hs => hne (by simp [hs])
    rw [List.flatten_cons, List.head?_append_of_ne_nil _ hs] at h
    exact ⟨s, rfl, h⟩

private theorem exists_getLast?_of_flatten {runs : List Word} (hne : [] ∉ runs) {b : UInt8}
    (h : b ∈ runs.flatten.getLast?) : ∃ s ∈ runs.getLast?, b ∈ s.getLast? := by
  rcases List.eq_nil_or_concat' runs with rfl | ⟨runs, s, rfl⟩
  · simp at h
  · have hs : s ≠ [] := fun hs => hne (by simp [hs])
    rw [List.flatten_concat, List.getLast?_append_of_ne_nil _ hs] at h
    exact ⟨s, by simp, h⟩

/-- A word is split on both sides of a run of phase gates that has no phase gate next to it. -/
private theorem splitBy_append_run_append {u r v : Word} (hne : r ≠ []) (hr : ∀ b ∈ r, isPhase b = true)
    (hu : ∀ b ∈ u.getLast?, isPhase b = false) (hv : ∀ b ∈ v.head?, isPhase b = false) :
    (u ++ r ++ v).splitBy sameKind = u.splitBy sameKind ++ r :: v.splitBy sameKind := by
  have hleft : ∀ a ∈ u.getLast?, ∀ b ∈ (r ++ v).head?, sameKind a b = false := by
    intro a ha b hb
    rw [List.head?_append_of_ne_nil _ hne] at hb
    rw [sameKind_eq, hu a ha, hr b (List.mem_of_mem_head? hb)]
    rfl
  have hright : ∀ a ∈ r.getLast?, ∀ b ∈ v.head?, sameKind a b = false := by
    intro a ha b hb
    rw [sameKind_eq, hr a (List.mem_of_mem_getLast? ha), hv b hb]
    rfl
  have hinside : r.IsChain fun a b => sameKind a b = true := by
    refine (List.pairwise_of_forall_mem_list fun a ha b hb => ?_).isChain
    rw [sameKind_eq, hr a ha, hr b hb]
    rfl
  rw [List.append_assoc, List.splitBy_append hleft, List.splitBy_append hright, List.splitBy_of_isChain hne hinside,
    List.singleton_append]

/-- A list of phase gates in a word is a maximal run if there is no phase gate next to it. -/
theorem mem_maximalRuns_iff {r w : Word} :
    r ∈ maximalRuns w ↔ r ≠ [] ∧ (∀ b ∈ r, isPhase b = true) ∧ ∃ u v, w = u ++ r ++ v ∧
      (∀ b ∈ u.getLast?, isPhase b = false) ∧ ∀ b ∈ v.head?, isPhase b = false := by
  simp only [maximalRuns, List.mem_filter, List.all_eq_true, contains_phaseBytes]
  constructor
  · rintro ⟨hmem, hr⟩
    have hne : r ≠ [] := List.ne_nil_of_mem_splitBy hmem
    have hflatten := List.flatten_splitBy sameKind w
    have hnil := List.nil_notMem_splitBy sameKind w
    have hnext := List.isChain_getLast_head_splitBy sameKind w
    obtain ⟨before, after, hsplit⟩ := List.append_of_mem hmem
    rw [hsplit, List.flatten_append, List.flatten_cons, ← List.append_assoc] at hflatten
    rw [hsplit, List.mem_append, List.mem_cons, not_or, not_or] at hnil
    rw [hsplit, List.isChain_append, List.isChain_cons] at hnext
    refine ⟨hne, hr, before.flatten, after.flatten, hflatten.symm, fun b hb => ?_, fun b hb => ?_⟩
    · obtain ⟨s, hs, hbs⟩ := exists_getLast?_of_flatten hnil.1 hb
      obtain ⟨_, _, hdiffer⟩ := hnext.2.2 s hs r rfl
      rw [sameKind_eq, List.getLast_of_mem_getLast? hbs, hr _ (List.head_mem hne)] at hdiffer
      simpa using hdiffer
    · obtain ⟨s, hs, hbs⟩ := exists_head?_of_flatten hnil.2.2 hb
      obtain ⟨_, _, hdiffer⟩ := hnext.2.1.1 s hs
      rw [sameKind_eq, List.head_of_mem_head? hbs, hr _ (List.getLast_mem hne)] at hdiffer
      simpa using hdiffer
  · rintro ⟨hne, hr, u, v, rfl, hu, hv⟩
    rw [splitBy_append_run_append hne hr hu hv]
    exact ⟨by simp, hr⟩

/-- Reduced words, told by their bytes. -/
theorem reduced_iff {w : Word} : Reduced w ↔ ¬ [Gate.byte .h, Gate.byte .h] <:+: w ∧
    ∀ r ∈ maximalRuns w, ∃ k, 1 ≤ k ∧ k ≤ 7 ∧ r = phaseRun k := by
  have hzero : phaseRun 0 = [] := rfl
  constructor
  · refine fun h => ⟨h.no_pair, fun r hr => ?_⟩
    obtain ⟨hne, hphase, u, v, hw, hu, hv⟩ := mem_maximalRuns_iff.1 hr
    obtain ⟨k, hk, rfl⟩ := h.run_eq u v r hw hphase hu hv
    have hpos : k ≠ 0 := fun hk => hne (hk ▸ hzero)
    exact ⟨k, by omega, by omega, rfl⟩
  · rintro ⟨hpair, hruns⟩
    refine ⟨hpair, fun u v r hw hphase hu hv => ?_⟩
    by_cases hne : r = []
    · exact ⟨0, by omega, by rw [hne, hzero]⟩
    · obtain ⟨k, -, hk, rfl⟩ := hruns r (mem_maximalRuns_iff.2 ⟨hne, hphase, u, v, hw, hu, hv⟩)
      exact ⟨k, by omega, rfl⟩

/-- A folded word has no two basis changes side by side and only shortest phase runs, and the words of this form are
those that folding leaves alone. -/
theorem fold_fixes_reduced_words (g : Word) :
    (¬ [Gate.byte .h, Gate.byte .h] <:+: fold g ∧
      ∀ r ∈ maximalRuns (fold g), ∃ k, 1 ≤ k ∧ k ≤ 7 ∧ r = phaseRun k) ∧
    (fold g = g ↔ ¬ [Gate.byte .h, Gate.byte .h] <:+: g ∧
      ∀ r ∈ maximalRuns g, ∃ k, 1 ≤ k ∧ k ≤ 7 ∧ r = phaseRun k) ∧
    fold (fold g) = fold g := by
  rw [← reduced_iff, ← reduced_iff]
  exact ⟨reduced_fold g, fold_eq_self_iff_reduced, fold_eq_self_iff_reduced.2 (reduced_fold g)⟩

-- of the two runs with one `S` and one `T` folding keeps `ST` and turns the other round
example : (fold (ofText "HSTXTSH")).text = "HSTXSTH" := by cbv

end CliffordT.Word
