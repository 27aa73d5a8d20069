import CliffordT.Proofs.ExpandedWords

/-!
# Folded words are shortest

A word is shortest if no equivalent word has fewer gates (`Word.Shortest`).  Equivalent words may be much longer or
shorter than each other, and a chain of rewritings that shortens a word may have to lengthen it first.  But they all
fold alike, so it is enough that folding lengthens no word (`length_fold_le`): each byte read lengthens what is kept
by at most one byte (`length_foldStep_le`).  For a phase gate this is so because the run at the end of the kept word
is empty, and then the gate is kept as one gate, or is not, and then two gates are enough for the sum.

Every part of a shortest word is shortest (`Shortest.of_infix`).  In particular there is no pair of neighbours in it
that could be left out.
-/

namespace CliffordT

namespace Word

/-- No equivalent word has fewer gates. -/
def Shortest (w : Word) : Prop := ∀ y, Equivalent w y → w.length ≤ y.length

/-! ### Folding lengthens no word -/

theorem length_phaseRun_le (k : Nat) : (phaseRun k).length ≤ 2 :=
  phaseRun_cases (P := fun _ w => w.length ≤ 2) (by decide) k

/-- What one phase gate is worth can be written as one gate. -/
theorem length_phaseRun_eighths {b : UInt8} (hb : isPhase b = true) : (phaseRun (eighths b)).length = 1 := by
  obtain ⟨u, hu⟩ := Option.isSome_iff_exists.1 hb
  have heighths : eighths b = u := by simp [eighths, hu]
  rw [heighths]
  unfold eighths? at hu
  grind [phaseRun]

theorem length_foldStep_le (kept : Word) (b : UInt8) : (foldStep kept b).length ≤ kept.length + 1 := by
  cases hb : isPhase b with
  | true =>
    have hsplit := congrArg List.length (List.takeWhile_append_dropWhile (p := isPhase) (l := kept))
    rw [List.length_append] at hsplit
    rw [foldStep_of_isPhase hb, List.length_append, List.length_reverse]
    by_cases hrun : kept.takeWhile isPhase = []
    · -- there is no run yet, and the gate is one
      have hlead : leadingEighths kept = 0 := by simp [leadingEighths, hrun]
      have hone := length_phaseRun_eighths hb
      rw [hlead, Nat.add_zero]
      simp only [hrun, List.length_nil] at hsplit
      omega
    · have hpos := List.length_pos_iff.2 hrun
      have htwo := length_phaseRun_le (eighths b + leadingEighths kept)
      omega
  | false =>
    by_cases hpair : b = Gate.byte .h ∧ kept.head? = some (Gate.byte .h)
    · obtain ⟨rfl, hhead⟩ := hpair
      obtain ⟨rest, rfl⟩ := List.head?_eq_some_iff.1 hhead
      rw [foldStep_cons_h, List.length_cons]
      omega
    · rw [foldStep_of_not_isPhase hb (fun hb hw => hpair ⟨hb, hw⟩), List.length_cons]

theorem length_foldl_foldStep_le (w kept : Word) : (w.foldl foldStep kept).length ≤ kept.length + w.length := by
  induction w generalizing kept with
  | nil => simp
  | cons b w ih =>
    have hstep := length_foldStep_le kept b
    have hrest := ih (foldStep kept b)
    simp only [List.foldl_cons, List.length_cons]
    omega

theorem length_fold_le (w : Word) : (fold w).length ≤ w.length := by
  have hkept := length_foldl_foldStep_le w []
  simpa [fold] using hkept

/-! ### Shortest words -/

theorem Equivalent.length_fold_le {g y : Word} (h : Equivalent g y) : (fold g).length ≤ y.length := by
  rw [h.fold_eq]
  exact Word.length_fold_le y

theorem shortest_fold (g : Word) : (fold g).Shortest := by
  intro y hy
  exact ((equivalent_fold g).symm.trans hy).length_fold_le

theorem Shortest.of_infix {r w : Word} (h : w.Shortest) (hr : r <:+: w) : r.Shortest := by
  obtain ⟨u, v, rfl⟩ := hr
  intro y hy
  have hlength := h (u ++ y ++ v) (((Equivalent.refl u).append hy).append (.refl v))
  simp only [List.length_append] at hlength
  omega

/-- Two gates in a row that are worth nothing do not stand in a shortest word. -/
theorem Shortest.not_equivalent_nil {w : Word} (h : w.Shortest) {a b : UInt8} (hab : [a, b] <:+: w) :
    ¬ Equivalent [a, b] [] := by
  intro hnil
  have hlength := h.of_infix hab [] hnil
  simp at hlength

end Word

namespace Table

variable {M A E : Type}

/-- The words outside the first sector are folded; that of a missing bucket is folded as it is. -/
theorem exists_slotWord_eq_fold (t : Table M A E) {s : Nat} (hs : s / t.phaseCount ≠ 0) :
    ∃ w, t.slotWord s = Word.fold w := by
  unfold slotWord
  cases t.entry? (s % t.phaseCount) with
  | none =>
    have hnotFound : notFound = Word.fold notFound := by decide
    exact ⟨notFound, hnotFound⟩
  | some e => exact ⟨_, if_neg hs⟩

end Table

/-- A word folds to a shortest one among all that are equivalent to it.  What is kept while it is folded is never longer
than what has been read.  In an expanded table, no slot with a correction has a pair of gates that could be left out. -/
theorem fold_is_shortest {M A E : Type} (g : Word) (t : Table M A E) :
    Word.Equivalent g (Word.fold g) ∧ (∀ y, Word.Equivalent g y → (Word.fold g).length ≤ y.length) ∧
    (Word.fold g).length ≤ g.length ∧ (∀ n, ((g.take n).foldl Word.foldStep []).length ≤ min n g.length) ∧
    ∀ (s : Nat) (w : Word), t.expand[s]? = some w → (t.correctionOf s).2 ≠ 0 →
      w.Shortest ∧ ∀ a b, [a, b] <:+: w → ¬ Word.Equivalent [a, b] [] := by
  refine ⟨(Word.equivalent_fold g).symm, fun y hy => hy.length_fold_le, Word.length_fold_le g, ?_, ?_⟩
  · intro n
    have hkept := Word.length_foldl_foldStep_le (g.take n) []
    simpa using hkept
  · intro s w hw hcorrection
    have hsector : s / t.phaseCount ≠ 0 := by
      intro hzero
      apply hcorrection
      rw [t.correctionOf_natCast, hzero]
      rfl
    obtain ⟨g', hg'⟩ := t.exists_slotWord_eq_fold hsector
    have hshortest : w.Shortest := by
      rw [← (Table.getElem?_expand_eq_some hw).2, hg']
      exact Word.shortest_fold g'
    exact ⟨hshortest, fun a b hab => hshortest.not_equivalent_nil hab⟩

/-- Six gates fold to no more than the two that they are worth.  With the word `HTHT` in bucket 1 of two, the correction
of slot 3 merges with the gate at the end. -/
theorem fold_is_shortest_two_buckets :
    let t : DoubleTable := (Table.empty 16).accept ⟨1, 0.4, Word.ofText "HTHT", 1, 0⟩
    (Word.fold (Word.ofText "HHSSSt")).length ≤ (Word.ofText "TZ").length ∧
    t.expand[3]? = some (Word.ofText "HTHS") ∧ (Word.ofText "HTHS").Shortest := by
  intro t
  have hword : Word.ofText "HHSSSt" = [Gate.byte .h, Gate.byte .h] ++ Word.ofText "SSSt" := by decide +kernel
  have hequivalent : Word.Equivalent (Word.ofText "HHSSSt") (Word.ofText "TZ") := by
    rw [hword]
    exact Word.Equivalent.pair.append (.run (by decide +kernel) (by decide +kernel) (by decide +kernel))
  have hslot : t.expand[3]? = some (Word.ofText "HTHS") := by decide +kernel
  obtain ⟨-, hshortest, -, -, hslots⟩ := fold_is_shortest (Word.ofText "HHSSSt") t
  exact ⟨hshortest _ hequivalent, hslot, (hslots 3 _ hslot (by decide +kernel)).1⟩

end CliffordT
