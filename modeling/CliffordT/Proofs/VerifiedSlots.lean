import CliffordT.Proofs.Acceptance
import CliffordT.Proofs.LoadedRecords
import CliffordT.Proofs.SlotWrites

/-!
# What a verification sees of the slots

An expansion finds the slot of a bucket and a sector by a product, and a verification finds the bucket and the sector
of a slot by division.  The two have to agree, and so do the two meanings of a slot without a word: that its bucket is
missing, and that the word is the text for a missing word.

They agree for every table whose words are over the alphabet (`seesSlots_of_overGates`).  Then the words of the slots
of found buckets are over the alphabet too (`overGates_slotWord`), so each of them can be replayed and none of them is
the text for a missing word.  All that can be wrong with a slot is the matrix of its word (`of_checkSlot_slotWord`).
The words of a search are over the alphabet, and so are those of a record that was loaded.
-/

namespace CliffordT

variable {M A E : Type}

theorem Word.OverGates.ne_notFound {w : Word} (h : w.OverGates) : w ≠ Table.notFound := by
  have hnot : ¬ Word.OverGates Table.notFound := by decide +kernel
  rintro rfl
  exact hnot h

theorem Table.overGates_slotWord {t : Table M A E} {s : Nat} {e : Entry M A E}
    (he : t.entry? (s % t.phaseCount) = some e) (h : e.gates.OverGates) : (t.slotWord s).OverGates := by
  rw [slotWord_of_found he]
  split
  · exact h
  · exact (h.append (Word.overGates_phaseRun _)).fold

namespace Verify

variable [GateAlgebra M] [Angle A] [Residual E] {c : Check M A E} {t : Table M A E}

/-! ### The check of one slot -/

section

variable {bucket : Int} {slot : Option Nat} {w : Word} {n : M} {expected : A}

/-- A word that can be replayed is reported only for its matrix. -/
theorem of_checkWord_eq_some (hn : Word.replay w = .ok n) {m : Mismatch A E}
    (h : checkWord c bucket slot w expected = some m) :
    m.bucket = bucket ∧ m.slot = slot ∧ (m.reason = .notDiagonal ∨ m.reason = .phaseMismatch) := by
  unfold checkWord at h
  rw [hn] at h
  dsimp only at h
  split at h
  · cases h
    exact ⟨rfl, rfl, Or.inl rfl⟩
  · split at h
    · cases h
      exact ⟨rfl, rfl, Or.inr rfl⟩
    · cases h

theorem isSome_checkWord_iff (hn : Word.replay w = .ok n) :
    (checkWord c bucket slot w expected).isSome = true ↔
      c.isDiagonal n = false ∨ c.far (c.phase n) expected = true := by
  unfold checkWord
  rw [hn]
  dsimp only
  cases c.isDiagonal n <;> cases c.far (c.phase n) expected <;> simp

end

section

variable (hgates : ∀ e ∈ t.entries, e.gates.OverGates)
include hgates

theorem of_checkSlot_slotWord {s : Nat} {m : Mismatch A E} (h : checkSlot c t s (t.slotWord s) = some m) :
    ∃ e, t.entry? (s % t.phaseCount) = some e ∧ m.bucket = (s % t.phaseCount : Nat) ∧ m.slot = some s ∧
      (m.reason = .notDiagonal ∨ m.reason = .phaseMismatch) := by
  cases he : t.entry? (s % t.phaseCount) with
  | none =>
    rw [checkSlot_of_missing c he] at h
    cases h
  | some e =>
    have hword := hgates e (Table.mem_entries_of_bucket he)
    have hslot := Table.overGates_slotWord he hword
    obtain ⟨n, hn⟩ := Word.exists_replay (M := M) hslot
    rw [checkSlot_of_found c he hslot.ne_notFound] at h
    exact ⟨e, rfl, of_checkWord_eq_some hn h⟩

theorem isSome_checkSlot_iff {b k : Nat} (hb : b < t.phaseCount) :
    (checkSlot c t (b + k * t.phaseCount) (t.slotWord (b + k * t.phaseCount))).isSome = true ↔
      ∃ e n, t.entry? b = some e ∧ Word.replay (Table.sectorWord e.gates k) = .ok n ∧
        (c.isDiagonal n = false ∨ c.far (c.phase n) (Angle.advance e.phase k) = true) := by
  have hmod : (b + k * t.phaseCount) % t.phaseCount = b := Table.slot_mod hb
  have hdiv : (b + k * t.phaseCount) / t.phaseCount = k := Table.slot_div hb
  cases he : t.entry? b with
  | none =>
    rw [checkSlot_of_missing c (by rw [hmod, he])]
    simp
  | some e =>
    have hfound : t.entry? ((b + k * t.phaseCount) % t.phaseCount) = some e := by rw [hmod, he]
    have hword := hgates e (Table.mem_entries_of_bucket he)
    have hslot := Table.overGates_slotWord hfound hword
    obtain ⟨n, hn⟩ := Word.exists_replay (M := M) hslot
    rw [checkSlot_of_found c hfound hslot.ne_notFound, isSome_checkWord_iff hn, hdiv]
    rw [Table.slotWord_slot hb he] at hn
    constructor
    · intro h
      exact ⟨e, n, rfl, hn, h⟩
    · rintro ⟨e', n', he', hn', h⟩
      cases he'
      rw [hn] at hn'
      cases hn'
      exact h

end

/-! ### The verification of all slots -/

/-- The verifications of a table and of its slots see the buckets and slots that there are.  Every slot is checked, and
the mismatches are at different slots of found buckets, in the order of the slots.  None is reported because a slot
should have no word or should have one, or because its word cannot be replayed; a slot is reported exactly if the matrix
of its bucket's word in its sector is not diagonal or turns by another angle. -/
structure SeesSlots (c : Check M A E) (t : Table M A E) : Prop where
  checked_expanded : (expanded c t t.expand).checked = t.points
  ascending : ∃ slots : List Nat, slots.Pairwise (· < ·) ∧
    (expanded c t t.expand).mismatches.map Mismatch.slot = slots.map some
  of_mismatch (m : Mismatch A E) : m ∈ (expanded c t t.expand).mismatches →
    ∃ (b k : Nat) (e : Entry M A E), b < t.phaseCount ∧ k < 8 ∧ t.entry? b = some e ∧
      m.bucket = b ∧ m.slot = some (b + k * t.phaseCount) ∧ (m.reason = .notDiagonal ∨ m.reason = .phaseMismatch)
  reported_iff (b k : Nat) : b < t.phaseCount → k < 8 →
    ((∃ m ∈ (expanded c t t.expand).mismatches, m.slot = some (b + k * t.phaseCount)) ↔
      ∃ (e : Entry M A E) (n : M), t.entry? b = some e ∧ Word.replay (Table.sectorWord e.gates k) = .ok n ∧
        (c.isDiagonal n = false ∨ c.far (c.phase n) (Angle.advance e.phase k) = true))
  checked_canonical : (canonical c t).checked = t.found
  checked_add_missing : (canonical c t).checked + t.missing.length = t.phaseCount

/-- The slots of the mismatches are those whose check fails. -/
theorem map_slot_mismatches (c : Check M A E) (hgates : ∀ e ∈ t.entries, e.gates.OverGates) :
    (expanded c t t.expand).mismatches.map Mismatch.slot =
      ((List.range t.points).filter fun s => (checkSlot c t s (t.slotWord s)).isSome).map some := by
  rw [mismatches_expanded]
  induction List.range t.points with
  | nil => rfl
  | cons s slots ih =>
    cases hs : checkSlot c t s (t.slotWord s) with
    | none => simp [hs, ih]
    | some m =>
      obtain ⟨e, -, -, hslot, -⟩ := of_checkSlot_slotWord hgates hs
      simp [hs, ih, hslot]

theorem seesSlots_of_overGates (c : Check M A E) (h : t.WellFormed) (hgates : ∀ e ∈ t.entries, e.gates.OverGates) :
    SeesSlots c t where
  checked_expanded := by simp [expanded, Table.expand]
  ascending := ⟨_, List.pairwise_lt_range.filter _, map_slot_mismatches c hgates⟩
  of_mismatch := by
    intro m hm
    rw [mismatches_expanded, List.mem_filterMap] at hm
    obtain ⟨s, hs, hcheck⟩ := hm
    obtain ⟨hb, hk, hplace⟩ := h.sector_lt (List.mem_range.1 hs)
    obtain ⟨e, he, hbucket, hslot, hreason⟩ := of_checkSlot_slotWord hgates hcheck
    exact ⟨_, _, e, hb, hk, he, hbucket, by rw [hslot, ← hplace], hreason⟩
  reported_iff := by
    intro b k hb hk
    have hmem : (∃ m ∈ (expanded c t t.expand).mismatches, m.slot = some (b + k * t.phaseCount)) ↔
        some (b + k * t.phaseCount) ∈ (expanded c t t.expand).mismatches.map Mismatch.slot := by
      simp only [List.mem_map]
    rw [hmem, map_slot_mismatches c hgates, ← isSome_checkSlot_iff hgates hb]
    simp [h.slot_lt hb hk]
  checked_canonical := h.length_entries
  checked_add_missing := by
    show t.entries.length + t.missing.length = t.phaseCount
    rw [h.length_entries, h.found_add_missing]

end Verify

/-! ### Tables with words over the alphabet -/

/-- The words of a table that was loaded are over the alphabet. -/
theorem Artifact.overGates_of_loadTable {fs : Files} {path : RawText} {t : DoubleTable}
    (h : loadTable fs path = .ok t) : ∀ e ∈ t.entries, e.gates.OverGates := by
  cases hread : readDiagnostics fs path with
  | error err =>
    rw [loadTable, hread] at h
    cases h
  | ok record =>
    rw [loadTable_of_read hread] at h
    obtain ⟨-, hfit⟩ := exists_tableOf_iff.1 ⟨t, h⟩
    obtain ⟨-, hentry⟩ := entries_of_tableOf h
    intro e he
    obtain ⟨b, hb⟩ := Table.mem_entries_iff_exists.1 he
    rw [hentry, Option.map_eq_some_iff] at hb
    obtain ⟨d, hd, rfl⟩ := hb
    exact (hfit b d (Option.join_eq_some_iff.1 hd)).overGates

namespace Verify

variable [GateAlgebra M] [Angle A] [Residual E]

/-- A verification sees the slots that an expansion writes, whatever its tolerance is: for every table that is made and
offered to and whose words are over the alphabet, hence for every table that a search fills and for every table that is
loaded. -/
theorem verification_sees_expanded_slots [Storable M] :
    (∀ (points : Int) (es : List (Entry M A E)) (t₀ : Table M A E) (cs : List (Candidate M A E)),
      es = [] ∧ Table.new points = .ok t₀ ∨ Table.ofEntries points es = .ok t₀ →
      (∀ e ∈ (cs.foldl Table.offer t₀).entries, e.gates.OverGates) →
      ∀ c : Check M A E, SeesSlots c (cs.foldl Table.offer t₀)) ∧
    (∀ (points : Int) (t₀ t : Table M A E) (probe : Probe M A E) (complete : Table M A E → Bool) (b₀ b : Buffer M)
      (log : List (Visit M)), Table.new points = .ok t₀ → Buffer.History b₀ log →
      Search.Run probe ⟨Table.offer, complete⟩ b₀ t₀ b t → ∀ c : Check M A E, SeesSlots c t) ∧
    ∀ (fs : Files) (path : RawText) (t : DoubleTable), Artifact.loadTable fs path = .ok t →
      ∀ c : Check Matrix Float Float, SeesSlots c t := by
  refine ⟨?_, ?_, ?_⟩
  · intro points es t₀ cs hmade hgates c
    exact seesSlots_of_overGates c (Table.wellFormed_of_made hmade cs) hgates
  · intro points t₀ t probe complete b₀ b log hnew hb hrun c
    obtain ⟨cs, hcs, rfl⟩ := Table.exists_offers_of_run hb hrun
    have hempty : ∀ e ∈ t₀.entries, e.gates.OverGates := by
      rw [(Table.new_eq_ok hnew).2.2, Table.entries_empty]
      simp
    exact seesSlots_of_overGates c (Table.wellFormed_foldl_offer hnew cs)
      (Table.overGates_entries_foldl_offer hempty fun d hd => (hcs d hd).overGates)
  · intro fs path t hload c
    obtain ⟨points, es, hmade⟩ := exists_ofEntries_of_loadTable hload
    exact seesSlots_of_overGates c (Table.wellFormed_of_made (Or.inr hmade) []) (Artifact.overGates_of_loadTable hload)

/-- Bucket 1 of two is found with a word whose matrix is not diagonal, so each of its slots is reported.  The slots are
seen alike in a table that both passes of a search have been offering to, and in one that was loaded from a file. -/
theorem verification_sees_expanded_slots_two_buckets :
    let c : Check Matrix Float Float := Check.within 1e-3
    let t : DoubleTable := (Table.empty 16).accept ⟨1, 0.4, Word.ofText "HTHT", 1, 0⟩
    let x : Search.Setup Matrix Float Float DoubleTable Unit :=
      ⟨Probe.within 0.5, Table.sink, ⟨1, 1, false⟩, none, fun _ => none⟩
    let first := Search.exhaustive x (Buffer.empty 2 .double) (Table.empty 16) 0
    let second := Search.meetInTheMiddle x first.1 first.2.sink first.2.polls
    let text := "[null, \x7b\"bucket\": 1, \"phase\": 0.4, \"gates\": \"HTHT\"\x7d]"
    (Table.ofEntries 16 [⟨1, 0.4, Word.ofText "HTHT", 1, 0⟩] = .ok t ∧ SeesSlots c t ∧
      (expanded c t t.expand).mismatches.map Mismatch.slot = [1, 3, 5, 7, 9, 11, 13, 15].map some) ∧
    SeesSlots c second.2.1.sink ∧
    ∃ fs t', Files.empty.write "d.json" text = .ok fs ∧ Artifact.loadTable fs "d.json" = .ok t' ∧ SeesSlots c t' := by
  intro c t x first second text
  obtain ⟨hmade, hsearched, hloaded⟩ := verification_sees_expanded_slots (M := Matrix) (A := Float) (E := Float)
  refine ⟨?_, ?_, ?_⟩
  · have ht : Table.ofEntries 16 [⟨1, 0.4, Word.ofText "HTHT", 1, 0⟩] = .ok t := rfl
    have hgates : ∀ e ∈ t.entries, e.gates.OverGates := by
      have hentries : t.entries = [⟨1, 0.4, Word.ofText "HTHT", 1, 0⟩] := rfl
      rw [hentries, List.forall_mem_singleton]
      decide +kernel
    exact ⟨ht, hmade 16 _ t [] (Or.inr ht) hgates c, by decide +kernel⟩
  · have hb : Buffer.History (Buffer.empty 2 .double : Buffer Matrix) [] :=
      .new (show Buffer.new 2 .double = .ok (Buffer.empty 2 .double) from rfl)
    have hnew : Table.new 16 = .ok (Table.empty 16 : DoubleTable) := rfl
    have hsink : x.sink = ⟨Table.offer, Table.complete⟩ := rfl
    -- only the sink of the passes matters
    clear_value x
    have hfirst : Search.Run x.probe ⟨Table.offer, Table.complete⟩ (Buffer.empty 2 .double) (Table.empty 16) first.1
        first.2.sink := .exhaustive x rfl hsink 0 .start
    have hrun := hfirst.meetInTheMiddle x rfl hsink first.2.polls
    exact hsearched 16 _ _ _ _ _ _ _ hnew hb hrun c
  · have hfile : ((Files.empty.write "d.json" text).toOption.bind fun fs =>
        (Artifact.loadTable fs "d.json").toOption).isSome = true := by decide +kernel
    obtain ⟨t', ht'⟩ := Option.isSome_iff_exists.1 hfile
    obtain ⟨fs, hwrite, hload⟩ := Option.bind_eq_some_iff.1 ht'
    have hload := Artifact.eq_ok_of_toOption hload
    exact ⟨fs, t', Artifact.eq_ok_of_toOption hwrite, hload, hloaded fs "d.json" t' hload c⟩

end Verify

end CliffordT
