import CliffordT.Proofs.Reload

/-!
# The records that can be loaded

An element of a record fits if it stands at the place of its bucket and has a word over the alphabet
(`Diagnostic.Fits`). Otherwise there is something wrong with it (`Diagnostic.Flaw`): its bucket, or else the first
byte of its word that stands for no gate.  The elements are read in order up to the first one that does not fit, and
the error is what is wrong with that one (`tableOf_of_flaw`).  If all elements fit, and there are any, the record
makes a table (`exists_tableOf`): their entries are in different buckets of a circle that is large enough, so none of
them is refused, replaced or turned away.

A record is empty, or all its elements fit, or there is a first one that does not (`fit_or_flaw`); hence these are all
the ways in which loading can end.
-/

namespace CliffordT

/-! ### The first byte that is no gate -/

namespace Word

theorem overGates_cons {b : UInt8} {w : Word} :
    OverGates (b :: w) ↔ (Gate.ofByte? b).isSome = true ∧ OverGates w := by
  simp [OverGates]

theorem overGates_or_exists_foreign (w : Word) :
    OverGates w ∨ ∃ u b v, w = u ++ b :: v ∧ OverGates u ∧ Gate.ofByte? b = none := by
  induction w with
  | nil => exact Or.inl overGates_nil
  | cons a w ih =>
    cases ha : Gate.ofByte? a with
    | none => exact Or.inr ⟨[], a, w, rfl, overGates_nil, ha⟩
    | some g =>
      have hgate : (Gate.ofByte? a).isSome = true := by simp [ha]
      rcases ih with hw | ⟨u, b, v, rfl, hu, hb⟩
      · exact Or.inl (overGates_cons.2 ⟨hgate, hw⟩)
      · exact Or.inr ⟨a :: u, b, v, rfl, overGates_cons.2 ⟨hgate, hu⟩, hb⟩

variable {M : Type} [GateAlgebra M]

private theorem replayFrom_foreign {u v : Word} {b : UInt8} (hu : OverGates u) (hb : Gate.ofByte? b = none)
    (offset : Nat) (m : M) : replayFrom offset m (u ++ b :: v) = .error ⟨offset + u.length, b⟩ := by
  induction u generalizing offset m with
  | nil => simp [replayFrom, hb]
  | cons a u ih =>
    obtain ⟨ha, hu⟩ := overGates_cons.1 hu
    obtain ⟨g, hg⟩ := Option.isSome_iff_exists.1 ha
    have hoffset : offset + 1 + u.length = offset + (a :: u).length := by simp; omega
    rw [List.cons_append, replayFrom, hg, ← hoffset]
    exact ih hu _ _

/-- A replay ends at the first byte that stands for no gate. -/
theorem replay_foreign {u v : Word} {b : UInt8} (hu : OverGates u) (hb : Gate.ofByte? b = none) :
    (replay (u ++ b :: v) : Except UnknownGate M) = .error ⟨u.length, b⟩ := by
  rw [replay, replayFrom_foreign hu hb, Nat.zero_add]

end Word

/-! ### Elements that do not fit -/

/-- What is wrong with an element: it stands at the place of another bucket, or else there is a first byte in its word
that stands for no gate. -/
inductive Diagnostic.Flaw (path : RawText) (index : Nat) (d : Diagnostic) : ArtifactError → Prop
  | bucket (h : d.bucket ≠ index) : Flaw path index d (.bucketMismatch path index d.bucket)
  | gates (h : d.bucket = index) {u v : Word} {b : UInt8} (hword : d.gates = u ++ b :: v) (hu : u.OverGates)
      (hb : Gate.ofByte? b = none) : Flaw path index d (.gates path index ⟨u.length, b⟩)

theorem Diagnostic.fits_or_flaw (path : RawText) (index : Nat) (d : Diagnostic) :
    d.Fits index ∨ ∃ err, d.Flaw path index err := by
  by_cases hbucket : d.bucket = index
  · rcases Word.overGates_or_exists_foreign d.gates with hgates | ⟨u, b, v, hword, hu, hb⟩
    · exact Or.inl ⟨hbucket, hgates⟩
    · exact Or.inr ⟨_, .gates hbucket hword hu hb⟩
  · exact Or.inr ⟨_, .bucket hbucket⟩

namespace Artifact

variable {path : RawText} {record : Diagnostics} {d : Diagnostic} {err : ArtifactError}

theorem entryOf_of_flaw {index : Nat} (h : d.Flaw path index err) : entryOf path index d = .error err := by
  cases h with
  | bucket hne => exact if_pos hne
  | gates hbucket hword hu hb =>
    have hsame : ¬ d.bucket ≠ index := fun hne => hne hbucket
    rw [entryOf, if_neg hsame, hword, Word.replay_foreign hu hb]

/-- Elements are read up to the first that does not fit. -/
theorem entriesFrom_of_flaw {index i : Nat} (hd : record[i]? = some (some d))
    (hbefore : ∀ j < i, ∀ d', record[j]? = some (some d') → d'.Fits (index + j)) (h : d.Flaw path (index + i) err) :
    entriesFrom path index record = .error err := by
  induction record generalizing index i with
  | nil => simp at hd
  | cons x record ih =>
    cases i with
    | zero =>
      simp only [List.getElem?_cons_zero, Option.some.injEq] at hd
      have hflaw : d.Flaw path index err := h
      rw [hd, entriesFrom, entryOf_of_flaw hflaw]
      rfl
    | succ i =>
      have hrest : entriesFrom path (index + 1) record = .error err := by
        refine ih hd (fun j hj d' hd' => ?_) ?_
        · have hfits := hbefore (j + 1) (by omega) d' hd'
          rwa [show index + (j + 1) = index + 1 + j by omega] at hfits
        · rwa [show index + (i + 1) = index + 1 + i by omega] at h
      cases x with
      | none => exact hrest
      | some d' =>
        have hfits : d'.Fits index := hbefore 0 (by omega) d' rfl
        rw [entriesFrom, entryOf_of_fits hfits, hrest]
        rfl

theorem tableOf_of_flaw {i : Nat} (hd : record[i]? = some (some d))
    (hbefore : ∀ j < i, ∀ d', record[j]? = some (some d') → d'.Fits j) (h : d.Flaw path i err) :
    tableOf path record = .error err := by
  have hentries : entriesFrom path 0 record = .error err := by
    refine entriesFrom_of_flaw hd ?_ ?_
    · simpa using hbefore
    · simpa using h
  rw [tableOf, hentries]
  rfl

theorem tableOf_nil : tableOf path [] = .error (.table (.notPositive 0)) := rfl

variable (path record) in
/-- All elements fit, or there is a first one that does not. -/
theorem fit_or_flaw : (∀ (i : Nat) (d : Diagnostic), record[i]? = some (some d) → d.Fits i) ∨
    ∃ (i : Nat) (d : Diagnostic) (err : ArtifactError), record[i]? = some (some d) ∧
      (∀ j < i, ∀ d' : Diagnostic, record[j]? = some (some d') → d'.Fits j) ∧ d.Flaw path i err := by
  classical
  by_cases h : ∃ (i : Nat) (d : Diagnostic), record[i]? = some (some d) ∧ ¬ d.Fits i
  · right
    obtain ⟨d, hd, hnot⟩ := Nat.find_spec h
    have hbefore : ∀ j < Nat.find h, ∀ d' : Diagnostic, record[j]? = some (some d') → d'.Fits j := by
      intro j hj d' hd'
      by_contra hnot'
      exact Nat.find_min h hj ⟨d', hd', hnot'⟩
    rcases d.fits_or_flaw path (Nat.find h) with hfits | ⟨err, hflaw⟩
    · exact absurd hfits hnot
    · exact ⟨_, d, err, hd, hbefore, hflaw⟩
  · left
    intro i d hd
    by_contra hnot
    exact h ⟨i, d, hd, hnot⟩

/-! ### All ways in which loading can end -/

theorem exists_tableOf_iff : (∃ t, tableOf path record = .ok t) ↔
    record ≠ [] ∧ ∀ (i : Nat) (d : Diagnostic), record[i]? = some (some d) → d.Fits i := by
  constructor
  · rintro ⟨t, ht⟩
    constructor
    · rintro rfl
      rw [tableOf_nil] at ht
      cases ht
    · rcases fit_or_flaw path record with hfit | ⟨i, d, err, hd, hbefore, hflaw⟩
      · exact hfit
      · rw [tableOf_of_flaw hd hbefore hflaw] at ht
        cases ht
  · rintro ⟨hne, hfit⟩
    obtain ⟨t, ht, -⟩ := exists_tableOf path hne hfit
    exact ⟨t, ht⟩

theorem tableOf_eq_error_iff : tableOf path record = .error err ↔
    record = [] ∧ err = .table (.notPositive 0) ∨
    ∃ (i : Nat) (d : Diagnostic), record[i]? = some (some d) ∧
      (∀ j < i, ∀ d' : Diagnostic, record[j]? = some (some d') → d'.Fits j) ∧ d.Flaw path i err := by
  constructor
  · intro h
    by_cases hne : record = []
    · subst hne
      rw [tableOf_nil] at h
      cases h
      exact Or.inl ⟨rfl, rfl⟩
    · right
      rcases fit_or_flaw path record with hfit | ⟨i, d, err', hd, hbefore, hflaw⟩
      · obtain ⟨t, ht⟩ := exists_tableOf_iff.2 ⟨hne, hfit⟩
        rw [h] at ht
        cases ht
      · rw [tableOf_of_flaw hd hbefore hflaw] at h
        cases h
        exact ⟨i, d, hd, hbefore, hflaw⟩
  · rintro (⟨rfl, rfl⟩ | ⟨i, d, hd, hbefore, hflaw⟩)
    · exact tableOf_nil
    · exact tableOf_of_flaw hd hbefore hflaw

theorem entries_of_tableOf {t : DoubleTable} (h : tableOf path record = .ok t) :
    t.points = 8 * record.length ∧ ∀ b, t.entry? b = record[b]?.join.map Diagnostic.entry := by
  obtain ⟨hne, hfit⟩ := exists_tableOf_iff.1 ⟨t, h⟩
  obtain ⟨t', ht', hpoints, -, -, -, hentry⟩ := exists_tableOf path hne hfit
  obtain rfl : t' = t := Except.ok.inj (ht'.symm.trans h)
  exact ⟨hpoints, hentry⟩

theorem loadTable_of_read {fs : Files} (h : readDiagnostics fs path = .ok record) :
    loadTable fs path = tableOf path record := by
  rw [loadTable, h]
  rfl

/-- A record is loaded exactly if it has an element and all its elements fit.  Then there are eight slots for every
element, and the found buckets are the places of elements, each with the entry of its element and the matrix of its
word.  Otherwise the error is that of a circle without slots, or what is wrong with the first element that does not
fit. -/
theorem record_loads_iff (path : RawText) (record : Diagnostics) :
    (∀ fs, readDiagnostics fs path = .ok record → loadTable fs path = tableOf path record) ∧
    ((∃ t, tableOf path record = .ok t) ↔
      record ≠ [] ∧ ∀ (i : Nat) (d : Diagnostic), record[i]? = some (some d) → d.bucket = i ∧ d.gates.OverGates) ∧
    (∀ err, tableOf path record = .error err ↔
      record = [] ∧ err = .table (.notPositive 0) ∨
      ∃ (i : Nat) (d : Diagnostic), record[i]? = some (some d) ∧
        (∀ j < i, ∀ d' : Diagnostic, record[j]? = some (some d') → d'.bucket = j ∧ d'.gates.OverGates) ∧
        d.Flaw path i err) ∧
    ∀ t, tableOf path record = .ok t → t.points = 8 * record.length ∧
      (∀ b : Nat, (t.entry? b).isSome = true ↔ ∃ d, record[b]? = some (some d)) ∧
      ∀ (b : Nat) (d : Diagnostic), record[b]? = some (some d) → ∃ m, Word.replay d.gates = .ok m ∧
        t.entry? b = some ⟨b, d.phase, d.gates, m, d.error⟩ := by
  simp only [← Diagnostic.fits_iff]
  refine ⟨fun fs hread => loadTable_of_read hread, exists_tableOf_iff, fun err => tableOf_eq_error_iff, ?_⟩
  intro t ht
  obtain ⟨-, hfit⟩ := exists_tableOf_iff.1 ⟨t, ht⟩
  obtain ⟨hpoints, hentry⟩ := entries_of_tableOf ht
  refine ⟨hpoints, fun b => ?_, fun b d hd => ?_⟩
  · rw [hentry, Option.isSome_map, Option.isSome_iff_exists]
    simp only [Option.join_eq_some_iff]
  · obtain ⟨m, hm, hd'⟩ := (hfit b d hd).exists_entry_eq
    refine ⟨m, hm, ?_⟩
    rw [hentry, hd, ← hd']
    rfl

/-- A file with one element of two is loaded.  With a byte in its word that is no gate, the record is refused at this
element, whatever comes behind it. -/
theorem record_loads_iff_second_bucket :
    let d : Diagnostic := ⟨1, 0.8, 0, Word.ofText "HTHS", "", 0.25⟩
    let text := "[null, \x7b\"bucket\": 1, \"phase\": 0.8, \"gates\": \"HTHS\", \"error\": 0.25\x7d]"
    (∃ fs t m, Files.empty.write "d.json" text = .ok fs ∧ loadTable fs "d.json" = .ok t ∧ t.points = 16 ∧
      Word.replay d.gates = .ok m ∧ t.entry? 1 = some ⟨1, 0.8, d.gates, m, 0.25⟩) ∧
    tableOf "d.json" [none, some { d with gates := Word.ofText "Hq" }, some d] =
      .error (.gates "d.json" 1 ⟨1, 113⟩) := by
  intro d text
  constructor
  · have hfile : (Files.empty.write "d.json" text).toOption.bind (fun fs => (readDiagnostics fs "d.json").toOption) =
        some [none, some d] := by decide +kernel
    obtain ⟨fs, hwrite, hread⟩ := Option.bind_eq_some_iff.1 hfile
    obtain ⟨hload, hloads, -, hentries⟩ := record_loads_iff "d.json" [none, some d]
    have hfits : ∀ (i : Nat) (d' : Diagnostic), [none, some d][i]? = some (some d') →
        d'.bucket = i ∧ d'.gates.OverGates := by
      intro i d' hd'
      rcases i with _ | _ | i
      · simp at hd'
      · obtain rfl : d = d' := by simpa using hd'
        exact ⟨rfl, by decide +kernel⟩
      · simp at hd'
    obtain ⟨t, ht⟩ := hloads.2 ⟨by simp, hfits⟩
    obtain ⟨hpoints, -, hentry⟩ := hentries t ht
    obtain ⟨m, hm, hfound⟩ := hentry 1 d rfl
    exact ⟨fs, t, m, eq_ok_of_toOption hwrite, (hload fs (eq_ok_of_toOption hread)).trans ht, hpoints, hm, hfound⟩
  · have hword : Word.ofText "Hq" = [Gate.byte .h] ++ 113 :: [] := by decide +kernel
    have hflaw : Diagnostic.Flaw "d.json" 1 { d with gates := Word.ofText "Hq" } (.gates "d.json" 1 ⟨1, 113⟩) :=
      .gates (u := [Gate.byte .h]) (v := []) (b := 113) rfl hword (by decide +kernel) (by decide +kernel)
    refine ((record_loads_iff "d.json" _).2.2.1 _).2 (Or.inr ⟨1, _, rfl, fun j hj d' hd' => ?_, hflaw⟩)
    obtain rfl : j = 0 := by omega
    simp at hd'

end Artifact

end CliffordT
