import CliffordT.Proofs.BlockWords
import CliffordT.Proofs.NormalForm
import Mathlib.Data.List.SplitBy

/-!
# Cancelling basis changes, run by run

`simplify` keeps of every maximal run of basis changes one if their number is odd and none if it is even
(`simplify_eq_cancelRuns`).  It reads bytes onto a stack on which no two basis changes are neighbours (`Unpaired`), or
returns the word at once if it is such a word itself; then the stack ends up with the whole word on it, so that the
two ways agree (`simplify_eq`).

On such a stack two basis changes in a row do nothing (`Unpaired.cancelStep_cancelStep`).  Hence a word and what is
left of it do the same to every stack (`Unpaired.foldl_simplify`), and parts of a word may be simplified first.  Since
pairs of basis changes are all that goes away, the simplified word is equivalent to the word and folds alike.
-/

namespace CliffordT.Word

/-- What is left of a run of equal bytes. -/
def cancelRun (run : Word) : Word :=
  if run.head? = some (Gate.byte .h) then List.replicate (run.length % 2) (Gate.byte .h) else run

/-- The word with every maximal run of `n` basis changes replaced by `n % 2` of them. -/
def cancelRuns (w : Word) : Word := (w.splitBy (· == ·)).flatMap cancelRun

/-! ### Words without a pair -/

/-- No two basis changes are neighbours. -/
def Unpaired (w : Word) : Prop := w.IsChain fun a b => ¬ (a = Gate.byte .h ∧ b = Gate.byte .h)

theorem hasPair_eq_false_iff {w : Word} : hasPair w = false ↔ Unpaired w := by
  unfold Unpaired
  induction w with
  | nil => simp [hasPair]
  | cons a w ih =>
    cases w with
    | nil => simp [hasPair]
    | cons b w => rw [List.isChain_cons_cons, hasPair, Bool.or_eq_false_iff, ih]; simp

theorem unpaired_nil : Unpaired [] := List.IsChain.nil

theorem Unpaired.reverse {w : Word} (h : Unpaired w) : Unpaired w.reverse := by
  rw [Unpaired, List.isChain_reverse]
  exact h.imp fun a b hab hba => hab ⟨hba.2, hba.1⟩

theorem Unpaired.no_pair {w : Word} (h : Unpaired w) : ¬ [Gate.byte .h, Gate.byte .h] <:+: w := by
  intro hpair
  have hchain := List.IsChain.infix h hpair
  simp at hchain

theorem unpaired_cons {b : UInt8} {w : Word} :
    Unpaired (b :: w) ↔ (b = Gate.byte .h → w.head? ≠ some (Gate.byte .h)) ∧ Unpaired w := by
  rw [Unpaired, List.isChain_cons]
  refine and_congr_left fun _ => ?_
  constructor
  · intro h hb hw
    exact h _ hw ⟨hb, rfl⟩
  · rintro h a ha ⟨hb, rfl⟩
    exact h hb ha

/-! ### Reading a byte onto the stack -/

theorem cancelStep_cons_h (kept : Word) : cancelStep (Gate.byte .h :: kept) (Gate.byte .h) = kept := by
  simp [cancelStep]

theorem cancelStep_of_not_pair {kept : Word} {b : UInt8}
    (h : b = Gate.byte .h → kept.head? ≠ some (Gate.byte .h)) : cancelStep kept b = b :: kept := by
  cases kept with
  | nil => rfl
  | cons a rest =>
    rw [cancelStep, if_neg]
    rintro ⟨hb, ha⟩
    exact h hb (congrArg some ha)

/-- A byte cancels the basis change on top of the stack, or is put on the stack. -/
theorem cancelStep_cases (kept : Word) (b : UInt8) :
    (∃ rest, b = Gate.byte .h ∧ kept = Gate.byte .h :: rest ∧ cancelStep kept b = rest) ∨
    ((b = Gate.byte .h → kept.head? ≠ some (Gate.byte .h)) ∧ cancelStep kept b = b :: kept) := by
  by_cases hpair : b = Gate.byte .h ∧ kept.head? = some (Gate.byte .h)
  · obtain ⟨rfl, hhead⟩ := hpair
    obtain ⟨rest, rfl⟩ := List.head?_eq_some_iff.1 hhead
    exact Or.inl ⟨rest, rfl, rfl, cancelStep_cons_h rest⟩
  · have hnot : b = Gate.byte .h → kept.head? ≠ some (Gate.byte .h) := fun hb hk => hpair ⟨hb, hk⟩
    exact Or.inr ⟨hnot, cancelStep_of_not_pair hnot⟩

theorem Unpaired.cancelStep {kept : Word} (h : Unpaired kept) (b : UInt8) : Unpaired (Word.cancelStep kept b) := by
  obtain ⟨rest, -, rfl, hstep⟩ | ⟨hnot, hstep⟩ := cancelStep_cases kept b
  · rw [hstep]
    exact (unpaired_cons.1 h).2
  · rw [hstep]
    exact unpaired_cons.2 ⟨hnot, h⟩

theorem Unpaired.foldl_cancelStep {kept : Word} (h : Unpaired kept) (w : Word) :
    Unpaired (w.foldl Word.cancelStep kept) := by
  induction w generalizing kept with
  | nil => exact h
  | cons b w ih => exact ih (h.cancelStep b)

/-- Two basis changes in a row do nothing. -/
theorem Unpaired.cancelStep_cancelStep {kept : Word} (h : Unpaired kept) :
    Word.cancelStep (Word.cancelStep kept (Gate.byte .h)) (Gate.byte .h) = kept := by
  obtain ⟨rest, -, rfl, hstep⟩ | ⟨-, hstep⟩ := cancelStep_cases kept (Gate.byte .h)
  · rw [hstep, cancelStep_of_not_pair (unpaired_cons.1 h).1]
  · rw [hstep, cancelStep_cons_h]

/-! ### The early return and the stack -/

/-- A word without a pair is put on the stack as it is, if none arises where it meets the stack. -/
private theorem foldl_cancelStep_of_unpaired {w kept : Word} (h : Unpaired (kept.reverse ++ w)) :
    w.foldl cancelStep kept = w.reverse ++ kept := by
  induction w generalizing kept with
  | nil => rfl
  | cons b w ih =>
    have hstack : Unpaired (b :: kept) := by
      have hpart : kept.reverse ++ [b] <:+: kept.reverse ++ b :: w := ⟨[], w, by simp⟩
      have hunpaired : Unpaired (kept.reverse ++ [b]) := List.IsChain.infix h hpart
      simpa using hunpaired.reverse
    rw [List.foldl_cons, cancelStep_of_not_pair (unpaired_cons.1 hstack).1, ih (by simpa using h)]
    simp

/-- Whether it returns early or not, `simplify` gives what the stack holds in the end. -/
theorem simplify_eq (w : Word) : simplify w = (w.foldl cancelStep []).reverse := by
  cases hpair : hasPair w with
  | true => rw [simplify, if_pos hpair]
  | false =>
    have hunpaired : Unpaired w := hasPair_eq_false_iff.1 hpair
    rw [simplify_of_not_hasPair hpair, foldl_cancelStep_of_unpaired (by simpa using hunpaired)]
    simp

theorem unpaired_simplify (w : Word) : Unpaired (simplify w) := by
  rw [simplify_eq]
  exact (unpaired_nil.foldl_cancelStep w).reverse

theorem simplify_simplify (w : Word) : simplify (simplify w) = simplify w :=
  simplify_of_not_hasPair (hasPair_eq_false_iff.2 (unpaired_simplify w))

/-! ### Simplifying parts first -/

/-- A word and its simplified form do the same to a stack. -/
theorem Unpaired.foldl_simplify {kept : Word} (h : Unpaired kept) (w : Word) :
    (simplify w).foldl Word.cancelStep kept = w.foldl Word.cancelStep kept := by
  rw [simplify_eq]
  -- from the back: a byte that cancels undoes the one that it cancels
  induction w using List.reverseRecOn with
  | nil => rfl
  | append_singleton w b ih =>
    rw [List.foldl_concat, List.foldl_concat, ← ih]
    obtain ⟨rest, rfl, hstack, hstep⟩ | ⟨-, hstep⟩ := cancelStep_cases (w.foldl Word.cancelStep []) b
    · have hrest : Unpaired (rest.reverse.foldl Word.cancelStep kept) := h.foldl_cancelStep _
      rw [hstep, hstack, List.reverse_cons, List.foldl_concat, hrest.cancelStep_cancelStep]
    · rw [hstep, List.reverse_cons, List.foldl_concat]

theorem simplify_append (x y : Word) : simplify (x ++ y) = simplify (simplify x ++ simplify y) := by
  have hstack : Unpaired (x.foldl cancelStep []) := unpaired_nil.foldl_cancelStep x
  rw [simplify_eq (x ++ y), simplify_eq (simplify x ++ simplify y), List.foldl_append, List.foldl_append,
    unpaired_nil.foldl_simplify x, hstack.foldl_simplify y]

/-! ### Run by run -/

private theorem foldl_cancelStep_replicate_h (n : Nat) {kept : Word} (h : kept.head? ≠ some (Gate.byte .h)) :
    (List.replicate n (Gate.byte .h)).foldl cancelStep kept = List.replicate (n % 2) (Gate.byte .h) ++ kept := by
  induction n using Nat.twoStepInduction with
  | zero => rfl
  | one => exact cancelStep_of_not_pair fun _ => h
  | more n ih _ =>
    rw [List.replicate_succ, List.replicate_succ, List.foldl_cons, List.foldl_cons, cancelStep_of_not_pair fun _ => h,
      cancelStep_cons_h, ih, Nat.add_mod_right]

private theorem foldl_cancelStep_replicate_of_ne (n : Nat) {a : UInt8} (ha : a ≠ Gate.byte .h) (kept : Word) :
    (List.replicate n a).foldl cancelStep kept = List.replicate n a ++ kept := by
  induction n generalizing kept with
  | zero => rfl
  | succ n ih =>
    rw [List.replicate_succ, List.foldl_cons, cancelStep_of_not_pair fun hb => absurd hb ha, ih, List.append_cons,
      ← List.replicate_succ', List.replicate_succ]

private theorem exists_eq_replicate {run : Word} (hne : run ≠ [])
    (hequal : run.IsChain fun a b => (a == b) = true) : ∃ n a, run = List.replicate (n + 1) a := by
  obtain ⟨a, w, rfl⟩ := List.exists_cons_of_ne_nil hne
  simp only [beq_iff_eq] at hequal
  refine ⟨w.length, a, ?_⟩
  rw [List.replicate_succ, ← List.isChain_cons_eq_iff_eq_replicate.1 hequal]

private theorem cancelRun_replicate_of_ne (n : Nat) {a : UInt8} (ha : a ≠ Gate.byte .h) :
    cancelRun (List.replicate (n + 1) a) = List.replicate (n + 1) a := by
  simp [cancelRun, List.replicate_succ, ha]

/-- A run of equal bytes is read as what is left of it, unless it is of basis changes and meets one. -/
private theorem foldl_cancelStep_run (n : Nat) (a : UInt8) {kept : Word}
    (h : a = Gate.byte .h → kept.head? ≠ some (Gate.byte .h)) :
    (List.replicate (n + 1) a).foldl cancelStep kept = (cancelRun (List.replicate (n + 1) a)).reverse ++ kept := by
  by_cases ha : a = Gate.byte .h
  · have hleft : cancelRun (List.replicate (n + 1) a) = List.replicate ((n + 1) % 2) (Gate.byte .h) := by
      simp [cancelRun, List.replicate_succ, ha]
    rw [hleft, ha, List.reverse_replicate, foldl_cancelStep_replicate_h _ (h ha)]
  · rw [cancelRun_replicate_of_ne n ha, List.reverse_replicate, foldl_cancelStep_replicate_of_ne _ ha]

/-- The runs of a word, each of equal bytes and followed by a different byte, are read one after the other. -/
private theorem foldl_cancelStep_flatten {runs : List Word} (hne : [] ∉ runs)
    (hequal : ∀ run ∈ runs, run.IsChain fun a b => (a == b) = true)
    (hnext : runs.IsChain fun r s => ∃ hr hs, (r.getLast hr == s.head hs) = false) {kept : Word}
    (hkept : ∀ run ∈ runs.head?, run.head? = some (Gate.byte .h) → kept.head? ≠ some (Gate.byte .h)) :
    runs.flatten.foldl cancelStep kept = (runs.flatMap cancelRun).reverse ++ kept := by
  induction runs generalizing kept with
  | nil => rfl
  | cons run runs ih =>
    obtain ⟨hrun, hne'⟩ : run ≠ [] ∧ [] ∉ runs := by simpa [eq_comm] using hne
    obtain ⟨n, a, rfl⟩ := exists_eq_replicate hrun (hequal run (by simp))
    rw [List.isChain_cons] at hnext
    have hmeets : a = Gate.byte .h → kept.head? ≠ some (Gate.byte .h) := by
      rintro rfl
      exact hkept _ rfl rfl
    have hread := foldl_cancelStep_run n a hmeets
    rw [List.flatten_cons, List.foldl_append, hread, List.flatMap_cons, List.reverse_append, List.append_assoc]
    refine ih hne' (fun s hs => hequal s (by simp [hs])) hnext.2 fun s hs hsh => ?_
    -- a run of basis changes comes next, so this one is of another byte and still on the stack
    have ha : a ≠ Gate.byte .h := by
      rintro rfl
      obtain ⟨hr, hsne, hlast⟩ := hnext.1 s hs
      rw [List.getLast_replicate, (List.head_eq_iff_head?_eq_some hsne).2 hsh] at hlast
      simp at hlast
    rw [cancelRun_replicate_of_ne n ha, List.reverse_replicate, List.replicate_succ]
    simpa using ha

theorem simplify_eq_cancelRuns (w : Word) : simplify w = cancelRuns w := by
  have hread : (w.splitBy (· == ·)).flatten.foldl cancelStep [] = (cancelRuns w).reverse ++ [] :=
    foldl_cancelStep_flatten (List.nil_notMem_splitBy _ w) (fun run => List.isChain_of_mem_splitBy)
      (List.isChain_getLast_head_splitBy _ w) (fun run _ _ => by simp)
  rw [List.flatten_splitBy, List.append_nil] at hread
  rw [simplify_eq, hread, List.reverse_reverse]

/-! ### Simplified words fold alike -/

private theorem equivalent_cancelStep (kept : Word) (b : UInt8) :
    Equivalent (cancelStep kept b).reverse (kept.reverse ++ [b]) := by
  obtain ⟨rest, rfl, rfl, hstep⟩ | ⟨-, hstep⟩ := cancelStep_cases kept b
  · rw [hstep, List.reverse_cons, List.append_assoc]
    have hpair := (Equivalent.refl rest.reverse).append Equivalent.pair.symm
    rwa [List.append_nil] at hpair
  · rw [hstep, List.reverse_cons]
    exact Equivalent.refl _

private theorem equivalent_foldl_cancelStep (w kept : Word) :
    Equivalent (w.foldl cancelStep kept).reverse (kept.reverse ++ w) := by
  induction w generalizing kept with
  | nil => simpa using Equivalent.refl kept.reverse
  | cons b w ih =>
    rw [List.foldl_cons, List.append_cons]
    exact (ih (cancelStep kept b)).trans ((equivalent_cancelStep kept b).append (.refl w))

theorem equivalent_simplify (w : Word) : Equivalent (simplify w) w := by
  rw [simplify_eq]
  exact equivalent_foldl_cancelStep w []

/-- Of every maximal run of basis changes `simplify` keeps one or none, as their number is odd or even, and everything
else as it stands, both through the stack and without it.  So no pair is left, parts of a word may be simplified
first, and folding finds the same. -/
theorem simplify_halves_runs (g x y : Word) :
    simplify g = cancelRuns g ∧ (g.foldl cancelStep []).reverse = cancelRuns g ∧
    ¬ [Gate.byte .h, Gate.byte .h] <:+: simplify g ∧ simplify (simplify g) = simplify g ∧
    simplify (x ++ y) = simplify (simplify x ++ simplify y) ∧ fold (simplify g) = fold g := by
  refine ⟨simplify_eq_cancelRuns g, ?_, (unpaired_simplify g).no_pair, simplify_simplify g, simplify_append x y,
    (equivalent_simplify g).fold_eq⟩
  rw [← simplify_eq, simplify_eq_cancelRuns]

-- the pair inside goes first, and brings the outer two together
example : (simplify (ofText "THHHHXHHH")).text = "TXH" := by cbv

end CliffordT.Word
