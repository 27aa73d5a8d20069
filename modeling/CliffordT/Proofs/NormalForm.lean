import CliffordT.Proofs.FoldMeaning

/-!
# Folded words are normal forms

Words are equivalent if pairs of basis changes, put in or taken out, and phase runs, exchanged for others of the same
total phase, lead from one to the other: anywhere in the word, in any order and any number of times.  This is the least
congruence with these two rules (`Word.Equivalent`).  Two words are equivalent exactly if they fold to the same word
(`fold_decides_equivalence`).

* Equivalent words fold alike.  What folding keeps is always settled (`Settled`): shortest phase runs with single other
  bytes between them, and no two basis changes side by side.  Reading bytes is an action on settled words, and the
  rules hold for it: a pair of basis changes does nothing (`Settled.foldStep_foldStep_h`), and a phase run does what
  its total phase says (`Settled.foldl_run`).
* A word is equivalent to its folded form, since the classes of equivalent words are an interpretation of the gates,
  and folding keeps the product of a word under every interpretation.
-/

namespace CliffordT.Word

/-- The total phase of a word, in eighths of a turn. -/
def totalEighths (w : Word) : Nat := w.foldr (fun b n => eighths b + n) 0

/-- The least congruence for which a pair of basis changes is worth nothing and phase runs of the same total phase,
up to whole turns, are worth the same. -/
inductive Equivalent : Word → Word → Prop
  | pair : Equivalent [Gate.byte .h, Gate.byte .h] []
  | run {v w : Word} (hv : ∀ b ∈ v, isPhase b = true) (hw : ∀ b ∈ w, isPhase b = true)
      (h : totalEighths v % 8 = totalEighths w % 8) : Equivalent v w
  | append {v v' w w' : Word} (hv : Equivalent v v') (hw : Equivalent w w') : Equivalent (v ++ w) (v' ++ w')
  | refl (w : Word) : Equivalent w w
  | symm {v w : Word} (h : Equivalent v w) : Equivalent w v
  | trans {u v w : Word} (huv : Equivalent u v) (hvw : Equivalent v w) : Equivalent u w

/-! ### Shortest phase runs -/

theorem phaseRun_congr {j k : Nat} (h : j % 8 = k % 8) : phaseRun j = phaseRun k := by
  unfold phaseRun
  rw [h]

/-- A fact about the shortest runs is one about eight words. -/
theorem phaseRun_cases {P : Nat → Word → Prop} (h : ∀ r < 8, P r (phaseRun r)) (k : Nat) :
    P (k % 8) (phaseRun k) := by
  rw [phaseRun_congr (Nat.mod_mod k 8).symm]
  exact h _ (Nat.mod_lt k (by omega))

theorem isPhase_of_mem_phaseRun {k : Nat} {b : UInt8} (h : b ∈ phaseRun k) : isPhase b = true :=
  List.all_eq_true.1 (phaseRun_cases (P := fun _ w => w.all isPhase = true) (by decide) k) b h

theorem totalEighths_reverse_phaseRun (k : Nat) : totalEighths (phaseRun k).reverse % 8 = k % 8 :=
  phaseRun_cases (P := fun r w => totalEighths w.reverse % 8 = r) (by decide) k

private theorem isPhase_of_mem_reverse_phaseRun {k : Nat} : ∀ b ∈ (phaseRun k).reverse, isPhase b = true :=
  fun _ h => isPhase_of_mem_phaseRun (List.mem_reverse.1 h)

theorem dropWhile_run_append (k : Nat) {w : Word} (h : ∀ b ∈ w.head?, isPhase b = false) :
    ((phaseRun k).reverse ++ w).dropWhile isPhase = w := by
  rw [List.dropWhile_append_of_pos isPhase_of_mem_reverse_phaseRun]
  cases w with
  | nil => rfl
  | cons b w => rw [List.dropWhile_cons_of_neg (by simp [h b rfl])]

theorem leadingEighths_run_append (k : Nat) {w : Word} (h : ∀ b ∈ w.head?, isPhase b = false) :
    leadingEighths ((phaseRun k).reverse ++ w) % 8 = k % 8 := by
  have hnil : w.takeWhile isPhase = [] := by
    cases w with
    | nil => rfl
    | cons b w => rw [List.takeWhile_cons_of_neg (by simp [h b rfl])]
  have htake : ((phaseRun k).reverse ++ w).takeWhile isPhase = (phaseRun k).reverse := by
    rw [List.takeWhile_append_of_pos isPhase_of_mem_reverse_phaseRun, hnil, List.append_nil]
  rw [leadingEighths, htake]
  exact totalEighths_reverse_phaseRun k

/-- The byte behind a run of phase gates is no phase gate. -/
theorem isPhase_head?_dropWhile (w : Word) : ∀ b ∈ (w.dropWhile isPhase).head?, isPhase b = false := by
  intro b hb
  have := List.head?_dropWhile_not isPhase w
  rw [Option.mem_def.1 hb] at this
  simpa using this

/-! ### Settled words -/

/-- The words that folding keeps, held in reverse: shortest phase runs with single other bytes between them, and no two
basis changes side by side. -/
inductive Settled : Word → Prop
  | run (k : Nat) : Settled (phaseRun k).reverse
  | other (k : Nat) {b : UInt8} {w : Word} (hb : isPhase b = false)
      (hpair : b = Gate.byte .h → w.head? ≠ some (Gate.byte .h)) (hw : Settled w) :
      Settled ((phaseRun k).reverse ++ b :: w)

theorem settled_nil : Settled [] := Settled.run 0

/-- A settled word is its first run and the rest, and any other run may take the place of the first. -/
theorem Settled.run_append_dropWhile {w : Word} (h : Settled w) (k : Nat) :
    Settled ((phaseRun k).reverse ++ w.dropWhile isPhase) := by
  cases h with
  | run j =>
    have hdrop := dropWhile_run_append j (w := []) (by simp)
    rw [List.append_nil] at hdrop
    rw [hdrop, List.append_nil]
    exact Settled.run k
  | other j hb hpair hw =>
    rw [dropWhile_run_append j (by simpa using hb)]
    exact Settled.other k hb hpair hw

theorem Settled.run_leadingEighths_append {w : Word} (h : Settled w) :
    (phaseRun (leadingEighths w)).reverse ++ w.dropWhile isPhase = w := by
  cases h with
  | run j =>
    have hdrop := dropWhile_run_append j (w := []) (by simp)
    have hlead := leadingEighths_run_append j (w := []) (by simp)
    rw [List.append_nil] at hdrop hlead
    rw [hdrop, phaseRun_congr hlead, List.append_nil]
  | @other j b w hb _ _ =>
    have hhead : ∀ c ∈ (b :: w).head?, isPhase c = false := by simpa using hb
    rw [dropWhile_run_append j hhead, phaseRun_congr (leadingEighths_run_append j hhead)]

theorem Settled.of_cons {a : UInt8} {w : Word} (h : Settled (a :: w)) (ha : isPhase a = false) :
    Settled w ∧ (a = Gate.byte .h → w.head? ≠ some (Gate.byte .h)) := by
  generalize hv : a :: w = v at h
  cases h with
  | run k =>
    have : isPhase a = true := isPhase_of_mem_reverse_phaseRun a (by rw [← hv]; simp)
    rw [ha] at this
    cases this
  | other k hb hpair hw =>
    cases hrun : (phaseRun k).reverse with
    | nil =>
      rw [hrun] at hv
      obtain ⟨rfl, rfl⟩ := List.cons.inj hv
      exact ⟨hw, hpair⟩
    | cons c run =>
      -- a word that begins with a phase gate does not begin with `a`
      rw [hrun] at hv
      have : isPhase c = true := isPhase_of_mem_reverse_phaseRun (k := k) c (by rw [hrun]; simp)
      rw [← (List.cons.inj hv).1, ha] at this
      cases this

/-! ### Reading one byte -/

theorem isPhase_h : isPhase (Gate.byte .h) = false := by decide

theorem foldStep_of_isPhase {b : UInt8} (hb : isPhase b = true) (kept : Word) :
    foldStep kept b = (phaseRun (eighths b + leadingEighths kept)).reverse ++ kept.dropWhile isPhase := by
  obtain ⟨u, hu⟩ := Option.isSome_iff_exists.1 hb
  simp [foldStep, eighths, hu]

theorem foldStep_cons_h (kept : Word) : foldStep (Gate.byte .h :: kept) (Gate.byte .h) = kept := by
  have hnone : eighths? (Gate.byte .h) = none := by decide
  simp [foldStep, hnone]

theorem foldStep_of_not_isPhase {b : UInt8} {kept : Word} (hb : isPhase b = false)
    (hpair : b = Gate.byte .h → kept.head? ≠ some (Gate.byte .h)) : foldStep kept b = b :: kept := by
  have hnone : eighths? b = none := by simpa [isPhase] using hb
  cases kept with
  | nil => simp [foldStep, hnone]
  | cons a rest =>
    simp only [foldStep, hnone]
    rw [if_neg]
    rintro ⟨hb, ha⟩
    exact hpair hb (congrArg some ha)

/-- Reading a byte keeps a word settled. -/
theorem Settled.foldStep {w : Word} (h : Settled w) (b : UInt8) : Settled (Word.foldStep w b) := by
  cases hb : isPhase b with
  | true =>
    rw [foldStep_of_isPhase hb]
    exact h.run_append_dropWhile _
  | false =>
    by_cases hpair : b = Gate.byte .h ∧ w.head? = some (Gate.byte .h)
    · obtain ⟨rfl, hhead⟩ := hpair
      obtain ⟨rest, rfl⟩ := List.head?_eq_some_iff.1 hhead
      rw [foldStep_cons_h]
      exact (h.of_cons hb).1
    · have hpair : b = Gate.byte .h → w.head? ≠ some (Gate.byte .h) := fun hb hw => hpair ⟨hb, hw⟩
      rw [foldStep_of_not_isPhase hb hpair]
      exact Settled.other 0 hb hpair h

theorem Settled.foldl_foldStep {w : Word} (h : Settled w) (v : Word) : Settled (v.foldl Word.foldStep w) := by
  induction v generalizing w with
  | nil => exact h
  | cons b v ih => exact ih (h.foldStep b)

/-! ### The rules hold for reading -/

/-- Two basis changes read in a row undo each other. -/
theorem Settled.foldStep_foldStep_h {w : Word} (h : Settled w) :
    Word.foldStep (Word.foldStep w (Gate.byte .h)) (Gate.byte .h) = w := by
  by_cases hhead : w.head? = some (Gate.byte .h)
  · -- the first cancels the one at the end of the word, and the second takes its place
    obtain ⟨rest, rfl⟩ := List.head?_eq_some_iff.1 hhead
    rw [foldStep_cons_h, foldStep_of_not_isPhase isPhase_h (h.of_cons isPhase_h).2]
  · rw [foldStep_of_not_isPhase isPhase_h (fun _ => hhead), foldStep_cons_h]

/-- Reading a phase run turns the run at the end of the word by its total phase. -/
theorem Settled.foldl_run {w : Word} (h : Settled w) {v : Word} (hv : ∀ b ∈ v, isPhase b = true) :
    v.foldl Word.foldStep w =
      (phaseRun (totalEighths v + leadingEighths w)).reverse ++ w.dropWhile isPhase := by
  induction v generalizing w with
  | nil =>
    have hzero : totalEighths [] = 0 := rfl
    rw [hzero, Nat.zero_add, h.run_leadingEighths_append, List.foldl_nil]
  | cons b v ih =>
    have hrest := isPhase_head?_dropWhile w
    have hlead := leadingEighths_run_append (eighths b + leadingEighths w) hrest
    have htotal : totalEighths (b :: v) = eighths b + totalEighths v := rfl
    rw [List.foldl_cons, ih (h.foldStep b) (fun c hc => hv c (by simp [hc])), foldStep_of_isPhase (hv b (by simp)),
      dropWhile_run_append _ hrest, htotal,
      phaseRun_congr (k := eighths b + totalEighths v + leadingEighths w) (by omega)]

theorem Equivalent.foldl_foldStep_eq {x y : Word} (h : Equivalent x y) {w : Word} (hw : Settled w) :
    x.foldl foldStep w = y.foldl foldStep w := by
  induction h generalizing w with
  | pair => exact hw.foldStep_foldStep_h
  | @run u v hu hv htotal =>
    have hsum : (totalEighths u + leadingEighths w) % 8 = (totalEighths v + leadingEighths w) % 8 := by omega
    rw [hw.foldl_run hu, hw.foldl_run hv, phaseRun_congr hsum]
  | append _ _ ih ih' =>
    rw [List.foldl_append, List.foldl_append, ih hw, ih' (hw.foldl_foldStep _)]
  | refl => rfl
  | symm _ ih => exact (ih hw).symm
  | trans _ _ ih ih' => exact (ih hw).trans (ih' hw)

theorem Equivalent.fold_eq {x y : Word} (h : Equivalent x y) : fold x = fold y := by
  rw [fold, fold, h.foldl_foldStep_eq settled_nil]

/-! ### A word and its folded form -/

/-- Equivalence as a congruence of the monoid of words. -/
def congruence : Con (FreeMonoid UInt8) where
  r v w := Equivalent v.toList w.toList
  iseqv := ⟨fun v => Equivalent.refl v.toList, Equivalent.symm, Equivalent.trans⟩
  mul' hv hw := Equivalent.append hv hw

/-- The class of a word. -/
private def classOf (w : Word) : congruence.Quotient := (FreeMonoid.ofList w : FreeMonoid UInt8)

private theorem classOf_eq_iff {v w : Word} : classOf v = classOf w ↔ Equivalent v w :=
  Con.eq congruence

private theorem classOf_append (v w : Word) : classOf (v ++ w) = classOf v * classOf w := rfl

private theorem classOf_replicate (b : UInt8) (n : Nat) : classOf (List.replicate n b) = classOf [b] ^ n := by
  induction n with
  | zero => rfl
  | succ n ih => rw [List.replicate_succ, pow_succ', ← ih, ← classOf_append]; rfl

/-- A word of phase gates is as many eighths of a turn, one by one. -/
private theorem classOf_run {v : Word} (n : Nat) (hv : v.all isPhase = true)
    (h : totalEighths v % 8 = totalEighths (List.replicate n (Gate.byte .t)) % 8) :
    classOf v = classOf [Gate.byte .t] ^ n := by
  have ht : isPhase (Gate.byte .t) = true := by decide
  rw [← classOf_replicate, classOf_eq_iff]
  refine Equivalent.run (List.all_eq_true.1 hv) (fun b hb => ?_) h
  rw [List.eq_of_mem_replicate hb, ht]

/-- The classes of equivalent words as an interpretation. -/
private def classInterpretation : Interpretation congruence.Quotient where
  value b := classOf [b]
  turn := classOf [Gate.byte .t]
  turn_pow_eight := (classOf_run (v := []) 8 (by decide) (by decide)).symm
  value_h_mul_value_h := classOf_eq_iff.2 Equivalent.pair
  value_t := rfl
  value_s := classOf_run 2 (by decide) (by decide)
  value_z := classOf_run 4 (by decide) (by decide)
  value_sInv := classOf_run 6 (by decide) (by decide)
  value_tInv := classOf_run 7 (by decide) (by decide)

private theorem product_classInterpretation (w : Word) : classInterpretation.product w = classOf w := by
  induction w with
  | nil => rfl
  | cons b w ih =>
    rw [Interpretation.product_cons, ih]
    exact (classOf_append [b] w).symm

theorem equivalent_fold (w : Word) : Equivalent (fold w) w := by
  rw [← classOf_eq_iff, ← product_classInterpretation, ← product_classInterpretation, Interpretation.product_fold]

/-- Words are equivalent exactly if they have the same folded form, so parts of a word may be folded first. -/
theorem fold_decides_equivalence (x y : Word) :
    (Equivalent x y ↔ fold x = fold y) ∧ fold (x ++ y) = fold (fold x ++ y) ∧ fold (x ++ y) = fold (x ++ fold y) := by
  refine ⟨⟨Equivalent.fold_eq, fun h => ?_⟩, ?_, ?_⟩
  · have hx := (equivalent_fold x).symm
    rw [h] at hx
    exact hx.trans (equivalent_fold y)
  · exact Equivalent.fold_eq (.append (equivalent_fold x).symm (.refl y))
  · exact Equivalent.fold_eq (.append (.refl x) (equivalent_fold y).symm)

-- a run that folds away brings basis changes together, and they the runs around them
example : (fold (ofText "HTHTtHtHX")).text = "X" := by cbv

end CliffordT.Word
