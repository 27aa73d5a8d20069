import CliffordT.Proofs.CancelledPairs
import CliffordT.Proofs.LoadedRecords

/-!
# The bytes that rewriting leaves alone

Only basis changes and phase gates are ever put in or taken out of a word.  Everything else, flips and the bytes that
stand for no gate, stays where it is among its like (`untouched_fold`, `untouched_simplify`).  This is one more
interpretation of the bytes: those that may be rewritten are worth nothing and each of the others is a free generator,
so the product of a word spells the bytes that are left alone (`product_spelling`).  Folding keeps the product.

A replay fails at the first byte that stands for no gate (`reported_replay`), which is one of those left alone.  Hence a
rewritten word fails where the word does, and reports the same byte.
-/

namespace CliffordT.Word

/-- The gates that rewriting puts in and takes out. -/
def rewritten : List UInt8 :=
  [Gate.byte .h, Gate.byte .t, Gate.byte .tInv, Gate.byte .s, Gate.byte .sInv, Gate.byte .z]

/-- The other bytes of a word, in their order. -/
def untouched (w : Word) : Word := w.filter fun b => b ∉ rewritten

/-- The byte that a replay reports as unknown, if it fails. -/
def reported {M : Type} : Except UnknownGate M → Option UInt8
  | .ok _ => none
  | .error e => some e.byte

theorem untouched_append (v w : Word) : untouched (v ++ w) = untouched v ++ untouched w :=
  List.filter_append v w

/-! ### The order of the bytes left alone -/

/-- The value of a byte among the bytes left alone: nothing if it may be rewritten, and itself if not. -/
private def spellingOf (b : UInt8) : FreeMonoid UInt8 := if b ∈ rewritten then 1 else FreeMonoid.of b

private theorem spellingOf_of_mem {b : UInt8} (h : b ∈ rewritten) : spellingOf b = 1 := if_pos h

/-- The bytes left alone as an interpretation. -/
private def spelling : Interpretation (FreeMonoid UInt8) where
  value := spellingOf
  turn := 1
  turn_pow_eight := one_pow 8
  value_h_mul_value_h := by rw [spellingOf_of_mem (by decide), mul_one]
  value_t := spellingOf_of_mem (by decide)
  value_s := by rw [spellingOf_of_mem (by decide), one_pow]
  value_z := by rw [spellingOf_of_mem (by decide), one_pow]
  value_sInv := by rw [spellingOf_of_mem (by decide), one_pow]
  value_tInv := by rw [spellingOf_of_mem (by decide), one_pow]

private theorem product_spelling (w : Word) : spelling.product w = FreeMonoid.ofList (untouched w) := by
  induction w with
  | nil => rfl
  | cons b w ih =>
    rw [Interpretation.product_cons, ih]
    show spellingOf b * _ = _
    by_cases hb : b ∈ rewritten
    · rw [spellingOf_of_mem hb, one_mul, untouched, untouched, List.filter_cons_of_neg (by simpa using hb)]
    · rw [spellingOf, if_neg hb, untouched, untouched, List.filter_cons_of_pos (by simpa using hb),
        FreeMonoid.ofList_cons]

theorem untouched_fold (w : Word) : untouched (fold w) = untouched w := by
  have hproduct := spelling.product_fold w
  rw [product_spelling, product_spelling] at hproduct
  exact FreeMonoid.ofList.injective hproduct

theorem Equivalent.untouched_eq {v w : Word} (h : Equivalent v w) : untouched v = untouched w := by
  rw [← untouched_fold v, h.fold_eq, untouched_fold]

theorem untouched_simplify (w : Word) : untouched (simplify w) = untouched w :=
  (equivalent_simplify w).untouched_eq

theorem untouched_phaseRun (k : Nat) : untouched (phaseRun k) = [] :=
  phaseRun_cases (P := fun _ w => untouched w = []) (by decide) k

/-! ### The byte that a replay reports -/

/-- A byte that stands for no gate is left alone. -/
private theorem not_mem_rewritten {b : UInt8} (h : (Gate.ofByte? b).isNone = true) : b ∉ rewritten := by
  intro hb
  have hgates : ∀ b ∈ rewritten, (Gate.ofByte? b).isNone = false := by decide +kernel
  rw [hgates b hb] at h
  cases h

/-- The first unknown byte is found among the bytes left alone. -/
private theorem find?_untouched (w : Word) :
    (untouched w).find? (fun b => (Gate.ofByte? b).isNone) = w.find? fun b => (Gate.ofByte? b).isNone := by
  rw [untouched, List.find?_filter]
  congr 1
  funext b
  cases hb : (Gate.ofByte? b).isNone with
  | false => simp
  | true => simpa using not_mem_rewritten hb

private theorem isNone_of_overGates {w : Word} (h : OverGates w) {b : UInt8} (hb : b ∈ w) :
    (Gate.ofByte? b).isNone = false := by
  rw [← Option.not_isSome, h b hb, Bool.not_true]

theorem isOk_eq_isNone_reported {M : Type} (r : Except UnknownGate M) : r.isOk = (reported r).isNone := by
  cases r <;> rfl

section

variable {M : Type} [GateAlgebra M]

theorem reported_replay (w : Word) :
    reported (replay w : Except UnknownGate M) = w.find? fun b => (Gate.ofByte? b).isNone := by
  rcases overGates_or_exists_foreign w with hw | ⟨u, b, v, rfl, hu, hb⟩
  · obtain ⟨m, hm⟩ : ∃ m : M, replay w = .ok m := exists_replay hw
    have hnone : (w.find? fun b => (Gate.ofByte? b).isNone) = none := by
      rw [List.find?_eq_none]
      intro b hb
      simp [isNone_of_overGates hw hb]
    rw [hm, hnone, reported]
  · have hfound : ((u ++ b :: v).find? fun b => (Gate.ofByte? b).isNone) = some b := by
      rw [List.find?_eq_some_iff_append]
      refine ⟨by simp [hb], u, v, rfl, fun a ha => ?_⟩
      simp [isNone_of_overGates hu ha]
    rw [replay_foreign hu hb, hfound, reported]

theorem reported_replay_congr {v w : Word} (h : untouched v = untouched w) :
    reported (replay v : Except UnknownGate M) = reported (replay w : Except UnknownGate M) := by
  rw [reported_replay, reported_replay, ← find?_untouched v, h, find?_untouched]

end

/-- A word, simplified or folded, also with a correction appended, has the bytes that stand for no gate and the flips as
before, each as often and in the same order.  Its replay fails exactly if that of the word does, and it then reports
the same byte, the first of the word that stands for no gate. -/
theorem rewriting_keeps_unknown_bytes (g : Word) (k : Nat) :
    (∀ w ∈ [simplify g, fold g, fold (g ++ phaseRun k)],
      untouched w = untouched g ∧
      ∀ (M : Type) [GateAlgebra M],
        (replay w : Except UnknownGate M).isOk = (replay g : Except UnknownGate M).isOk ∧
        reported (replay w : Except UnknownGate M) = reported (replay g : Except UnknownGate M)) ∧
    ∀ (M : Type) [GateAlgebra M],
      reported (replay g : Except UnknownGate M) = g.find? fun b => (Gate.ofByte? b).isNone := by
  refine ⟨?_, fun M _ => reported_replay g⟩
  intro w hw
  have huntouched : untouched w = untouched g := by
    simp only [List.mem_cons, List.not_mem_nil, or_false] at hw
    rcases hw with rfl | rfl | rfl
    · exact untouched_simplify g
    · exact untouched_fold g
    · rw [untouched_fold, untouched_append, untouched_phaseRun, List.append_nil]
  refine ⟨huntouched, fun M _ => ?_⟩
  have hreported : reported (replay w : Except UnknownGate M) = reported (replay g : Except UnknownGate M) :=
    reported_replay_congr huntouched
  exact ⟨by rw [isOk_eq_isNone_reported, isOk_eq_isNone_reported, hreported], hreported⟩

/-- The gates around two unknown bytes and a flip fold away, and a correction of three eighths merges with the gate at
the end.  The first unknown byte comes to stand in front, and is reported as before. -/
theorem rewriting_keeps_unknown_bytes_folded_away :
    let g := ofText "HTtH?XHHs!S"
    fold (g ++ phaseRun 3) = ofText "?Xs!ZT" ∧ untouched (ofText "?Xs!ZT") = untouched g ∧
    reported (replay (ofText "?Xs!ZT") : Except UnknownGate Matrix) = reported (replay g : Except UnknownGate Matrix) ∧
    reported (replay g : Except UnknownGate Matrix) = some 63 := by
  intro g
  have hfold : fold (g ++ phaseRun 3) = ofText "?Xs!ZT" := by decide +kernel
  have hfirst : (g.find? fun b => (Gate.ofByte? b).isNone) = some 63 := by decide +kernel
  obtain ⟨hwords, hreported⟩ := rewriting_keeps_unknown_bytes g 3
  obtain ⟨huntouched, hreplay⟩ := hwords (fold (g ++ phaseRun 3)) (by simp)
  rw [hfold] at huntouched hreplay
  exact ⟨hfold, huntouched, (hreplay Matrix).2, (hreported Matrix).trans hfirst⟩

end CliffordT.Word
