import CliffordT.Proofs.ReducedWords
import CliffordT.Proofs.Runs
import CliffordT.Proofs.TableInvariant
import CliffordT.Table.Expand

/-!
# The words of the whole circle

A candidate outside the first sector is stored with the run appended that completes its sector to a full turn, and
expanding the table appends the run of the sector.  Both words are folded, and together the two runs are worth nothing,
so the slot of a stored candidate gets back the word of the candidate, folded (`slotWord_of_stores`).  In the first
sector nothing is appended, and the word is not folded either.

The words of a search are folded as they are.  A table that was filled by a search therefore expands to the very words
that were found, and all its words are reduced.
-/

namespace CliffordT.Table

variable {M A E : Type} [GateAlgebra M] [Angle A] {t : Table M A E} {c : Candidate M A E}

/-- The candidate is the one that is kept for its bucket. -/
def Stores (t : Table M A E) (c : Candidate M A E) : Prop :=
  t.entry? (Angle.slot t.points c.phase % t.phaseCount) = some (t.entryOf c)

omit [GateAlgebra M] [Angle A] in
theorem getElem?_expand {s : Nat} (hs : s < t.points) : t.expand[s]? = some (t.slotWord s) := by
  simp [expand, hs]

omit [GateAlgebra M] [Angle A] in
theorem getElem?_expand_eq_some {s : Nat} {w : Word} (h : t.expand[s]? = some w) : s < t.points ∧ t.slotWord s = w := by
  have hlength : t.expand.length = t.points := by simp [expand]
  have hs : s < t.points := by
    rw [← hlength]
    exact (List.getElem?_eq_some_iff.1 h).1
  rw [getElem?_expand hs] at h
  exact ⟨hs, Option.some.inj h⟩

omit [GateAlgebra M] [Angle A] in
theorem correctionOf_natCast (t : Table M A E) (s : Nat) :
    t.correctionOf s = (((s % t.phaseCount : Nat) : Int), ((s / t.phaseCount : Nat) : Int)) := by
  rw [correctionOf, Int.ofNat_tmod, Int.ofNat_tdiv]

omit [GateAlgebra M] [Angle A] in
theorem slotWord_of_found {s : Nat} {e : Entry M A E} (he : t.entry? (s % t.phaseCount) = some e) :
    t.slotWord s =
      if s / t.phaseCount = 0 then e.gates else Word.fold (e.gates ++ Word.phaseRun (s / t.phaseCount)) := by
  unfold slotWord
  rw [he]

theorem gates_entryOf (t : Table M A E) (c : Candidate M A E) :
    (t.entryOf c).gates = if Angle.slot t.points c.phase / t.phaseCount = 0 then c.gates
      else Word.fold (c.gates ++ Word.phaseRun ((8 - Angle.slot t.points c.phase / t.phaseCount) % 8)) := by
  unfold entryOf
  dsimp only
  split <;> rfl

/-- The slot of a stored candidate gets back its word. -/
theorem slotWord_of_stores (hpoints : t.points = 8 * t.phaseCount) (hcount : 0 < t.phaseCount) (h : t.Stores c) :
    t.slotWord (Angle.slot t.points c.phase) =
      if Angle.slot t.points c.phase < t.phaseCount then c.gates else Word.fold c.gates := by
  have hlt : Angle.slot t.points c.phase < t.points := Nat.mod_lt _ (by omega)
  rw [slotWord_of_found h, gates_entryOf]
  generalize Angle.slot t.points c.phase = s at hlt ⊢
  by_cases hs : s < t.phaseCount
  · rw [if_pos hs, if_pos (Nat.div_eq_of_lt hs), if_pos (Nat.div_eq_of_lt hs)]
  · have hsector : s / t.phaseCount < 8 := (Nat.div_lt_iff_lt_mul hcount).2 (by omega)
    have hne : s / t.phaseCount ≠ 0 := fun hzero => hs ((Nat.div_eq_zero_iff_lt hcount).1 hzero)
    rw [if_neg hs, if_neg hne, if_neg hne]
    -- the run appended for storing and the run of the sector make a full turn
    generalize s / t.phaseCount = k at hsector hne ⊢
    exact Word.fold_fold_append_phaseRun c.gates (by omega)

/-- The entry of a folded word has a folded word. -/
theorem fold_gates_entryOf (h : Word.fold c.gates = c.gates) (t : Table M A E) :
    Word.fold (t.entryOf c).gates = (t.entryOf c).gates := by
  rw [gates_entryOf]
  split
  · exact h
  · exact Word.fold_fold _

omit [GateAlgebra M] [Angle A] in
theorem fold_slotWord {s : Nat} {e : Entry M A E} (he : t.entry? (s % t.phaseCount) = some e)
    (hgates : Word.fold e.gates = e.gates) : Word.fold (t.slotWord s) = t.slotWord s := by
  rw [slotWord_of_found he]
  split
  · exact hgates
  · exact Word.fold_fold _

end CliffordT.Table

namespace CliffordT

variable {M A E : Type} [GateAlgebra M]

/-- A verification of the whole circle checks slot after slot, each with its own word. -/
theorem Verify.mismatches_expanded [Angle A] [Zero E] (c : Verify.Check M A E) (t : Table M A E) :
    (Verify.expanded c t t.expand).mismatches =
      (List.range t.points).filterMap fun s => Verify.checkSlot c t s (t.slotWord s) := by
  have hslots : t.expand.zipIdx = (List.range t.points).map fun s => (t.slotWord s, s) := by
    apply List.ext_getElem
    · simp [Table.expand]
    · intro s hs hs'
      simp [Table.expand]
  rw [Verify.expanded, hslots, List.filterMap_map]
  rfl

/-- A slot without a word passes. -/
theorem Verify.checkSlot_of_missing [Angle A] [Zero E] (c : Verify.Check M A E) {t : Table M A E} {s : Nat}
    (h : t.entry? (s % t.phaseCount) = none) : Verify.checkSlot c t s (t.slotWord s) = none := by
  have hword : t.slotWord s = Table.notFound := by
    unfold Table.slotWord
    rw [h]
  unfold Verify.checkSlot
  dsimp only
  rw [h]
  exact if_pos hword

theorem Verify.checkSlot_of_found [Angle A] [Zero E] (c : Verify.Check M A E) {t : Table M A E} {s : Nat}
    {e : Entry M A E} (h : t.entry? (s % t.phaseCount) = some e) {w : Word} (hw : w ≠ Table.notFound) :
    Verify.checkSlot c t s w =
      Verify.checkWord c (s % t.phaseCount : Nat) (some s) w (Angle.advance e.phase (s / t.phaseCount)) := by
  unfold Verify.checkSlot
  dsimp only
  rw [h]
  exact if_neg hw

theorem Probe.Finds.searched [Storable M] [Zero A] [Zero E] {probe : Probe M A E} {precision : Precision}
    {c : Candidate M A E} (h : probe.Finds precision c) : c.gates.Searched := by
  cases h with
  | seed => exact .seed
  | hit source hc _ =>
    show (source.word _).Searched
    rw [source.word_eq hc]
    exact .hit _ (completion_word_cases hc)

namespace Table

variable [Angle A] [Residual E]

/-- A candidate for a missing bucket is stored. -/
theorem stores_offer {t : Table M A E} (h : t.WellFormed) {c : Candidate M A E}
    (hmissing : t.entry? (Angle.slot t.points c.phase % t.phaseCount) = none) : (t.offer c).Stores c := by
  have hpoints : (t.offer c).points = t.points := points_apply t (.offer c)
  rw [Stores, phaseCount, hpoints, entryOf_congr hpoints]
  rcases entry?_apply (h.bucket_lt (x := .offer c) trivial) with ⟨-, hstored⟩ | ⟨⟨old, hold, -⟩, -⟩
  · exact (hstored _).trans (if_pos rfl)
  · have hsome : t.entry? (Angle.slot t.points c.phase % t.phaseCount) = some old := hold
    rw [hmissing] at hsome
    cases hsome

/-- A run of the passes offers words of a search to the table, one after the other. -/
theorem exists_offers_of_run [Storable M] {probe : Probe M A E} {complete : Table M A E → Bool} {b₀ b : Buffer M}
    {log : List (Visit M)} (hb : Buffer.History b₀ log) {t₀ t : Table M A E}
    (h : Search.Run probe ⟨offer, complete⟩ b₀ t₀ b t) :
    ∃ cs : List (Candidate M A E), (∀ c ∈ cs, c.gates.Searched) ∧ t = cs.foldl offer t₀ := by
  refine (h.keeps (P := fun t => ∃ cs : List (Candidate M A E),
    (∀ c ∈ cs, c.gates.Searched) ∧ t = cs.foldl offer t₀) hb.wellFilled ?_ ⟨[], by simp, rfl⟩).1
  rintro t c hc ⟨cs, hcs, rfl⟩
  refine ⟨cs ++ [c], fun d hd => ?_, by rw [List.foldl_append]; rfl⟩
  rcases List.mem_append.1 hd with hd | hd
  · exact hcs d hd
  · rw [List.mem_singleton.1 hd]
    exact hc.searched

/-- Expanding a table gives every stored candidate back to its own slot: its word as it is in the first sector, and
folded elsewhere.  The words of a search, which runs of the passes put in the table, come back as they are, and with
them every found slot has a reduced word. -/
theorem expand_returns_stored_words {points : Int} {t₀ : Table M A E} (hnew : Table.new points = .ok t₀) :
    (∀ cs : List (Candidate M A E),
      let t := cs.foldl offer t₀
      (∀ b e, t.entry? b = some e → ∃ c ∈ cs, Angle.slot t.points c.phase % t.phaseCount = b ∧
        t.entryOf c = e ∧ t.Stores c) ∧
      (∀ c, t.Stores c → t.expand[Angle.slot t.points c.phase]? =
        some (if Angle.slot t.points c.phase < t.phaseCount then c.gates else Word.fold c.gates)) ∧
      ((∀ c ∈ cs, c.gates.Searched) →
        (∀ c ∈ cs, t.Stores c → t.expand[Angle.slot t.points c.phase]? = some c.gates) ∧
        ∀ s < t.points, (t.entry? (s % t.phaseCount)).isSome = true →
          ∃ w, t.expand[s]? = some w ∧ Word.fold w = w ∧ w.Reduced)) ∧
    ∀ [Storable M] (probe : Probe M A E) (complete : Table M A E → Bool) (b₀ b : Buffer M) (log : List (Visit M))
      (t : Table M A E), Buffer.History b₀ log → Search.Run probe ⟨offer, complete⟩ b₀ t₀ b t →
      ∃ cs : List (Candidate M A E), (∀ c ∈ cs, c.gates.Searched) ∧ t = cs.foldl offer t₀ := by
  refine ⟨fun cs => ?_, fun probe complete b₀ b log t hb hrun => exists_offers_of_run hb hrun⟩
  intro t
  have hwf : t.WellFormed := wellFormed_foldl_offer hnew cs
  have hpoints : t.points = t₀.points := points_foldl_offer t₀ cs
  have hslot (φ : A) : Angle.slot t.points φ < t.points := Nat.mod_lt _ (by
    have := hwf.points_eq
    have := hwf.phaseCount_pos
    omega)
  have hmade {b : Nat} {e : Entry M A E} (he : t.entry? b = some e) :
      ∃ c ∈ cs, Angle.slot t.points c.phase % t.phaseCount = b ∧ t.entryOf c = e := by
    obtain ⟨c, hc, hbucket, hentry⟩ := exists_candidate_of_found hnew he
    rw [← entryOf_congr hpoints] at hentry
    rw [phaseCount, ← hpoints] at hbucket
    exact ⟨c, hc, hbucket, hentry⟩
  have hback (c : Candidate M A E) (hc : t.Stores c) : t.expand[Angle.slot t.points c.phase]? =
      some (if Angle.slot t.points c.phase < t.phaseCount then c.gates else Word.fold c.gates) := by
    rw [getElem?_expand (hslot c.phase), slotWord_of_stores hwf.points_eq hwf.phaseCount_pos hc]
  refine ⟨fun b e he => ?_, hback, fun hcs => ⟨fun c hc hstored => ?_, fun s hs hfound => ?_⟩⟩
  · obtain ⟨c, hc, rfl, rfl⟩ := hmade he
    exact ⟨c, hc, rfl, rfl, he⟩
  · rw [hback c hstored, (hcs c hc).fold_eq, ite_self]
  · obtain ⟨e, he⟩ := Option.isSome_iff_exists.1 hfound
    obtain ⟨c, hc, -, rfl⟩ := hmade he
    have hfold := fold_slotWord he (fold_gates_entryOf (hcs c hc).fold_eq t)
    exact ⟨_, getElem?_expand hs, hfold, hfold ▸ Word.reduced_fold _⟩

/-- A word found for slot 2 of 16 is kept in bucket 0, and expanding puts it back. -/
theorem expand_returns_stored_words_second_sector :
    let c : DoubleCandidate := ⟨0.8, Word.ofText "HTH", 1, 0⟩
    ((empty 16).offer c).expand[2]? = some c.gates := by
  intro c
  have hnew : Table.new 16 = .ok (empty 16 : DoubleTable) := rfl
  have hslot : Angle.slot 16 c.phase = 2 := by decide +kernel
  have hword : c.gates = Word.spell [.forward] ++ [Gate.byte .h] := by decide +kernel
  have hsearched : ∀ d ∈ [c], d.gates.Searched := by
    rw [List.forall_mem_singleton, hword]
    exact .hit _ (Or.inl rfl)
  have hstored : ((empty 16).offer c).Stores c :=
    stores_offer (wellFormed_empty (by decide) (by decide)) (entry?_empty 16 _)
  have hpoints : ((empty 16).offer c).points = 16 := points_apply _ (.offer c)
  have hback := (((expand_returns_stored_words hnew).1 [c]).2.2 hsearched).1 c (by simp) hstored
  rw [List.foldl_cons, List.foldl_nil, hpoints, hslot] at hback
  exact hback

end Table

end CliffordT
