import CliffordT.Proofs.ExpandedWords
import CliffordT.Proofs.WrittenFiles

/-!
# Reloading a table

The record of a table keeps the bucket, the angle, the word and the error of every entry, and its length tells the number
of slots.  The matrices are replayed when the record is read, and the entries are put into an empty table one after the
other.  Each comes to the bucket it had, and no other one is there; so nothing is replaced or turned away, and the table
has its entries back (`exists_loadTable`).  It expands to the same words as before (`expand_congr`).

Reading back a text is left to the format: `Diagnostics.Returned` says of a record that its format returns it.
-/

namespace CliffordT

/-! ### Words over the alphabet -/

namespace Word

/-- Every byte stands for a gate. -/
def OverGates (w : Word) : Prop := ∀ b ∈ w, (Gate.ofByte? b).isSome = true

instance decidableOverGates (w : Word) : Decidable (OverGates w) :=
  inferInstanceAs (Decidable (∀ b ∈ w, (Gate.ofByte? b).isSome = true))

theorem overGates_nil : OverGates [] := by simp [OverGates]

theorem OverGates.append {v w : Word} (hv : OverGates v) (hw : OverGates w) : OverGates (v ++ w) := by
  intro b hb
  rcases List.mem_append.1 hb with hb | hb
  · exact hv b hb
  · exact hw b hb

private theorem exists_replayFrom {M : Type} [GateAlgebra M] {w : Word} (h : OverGates w) (offset : Nat) (m : M) :
    ∃ n, replayFrom offset m w = .ok n := by
  induction w generalizing offset m with
  | nil => exact ⟨m, rfl⟩
  | cons b w ih =>
    obtain ⟨g, hg⟩ := Option.isSome_iff_exists.1 (h b List.mem_cons_self)
    rw [replayFrom, hg]
    exact ih (fun a ha => h a (List.mem_cons_of_mem _ ha)) _ _

theorem exists_replay {M : Type} [GateAlgebra M] {w : Word} (h : OverGates w) : ∃ m : M, replay w = .ok m :=
  exists_replayFrom h 0 1

private theorem isSome_ofByte?_of_isPhase {b : UInt8} (h : isPhase b = true) : (Gate.ofByte? b).isSome = true := by
  unfold isPhase eighths? at h
  unfold Gate.ofByte?
  grind [Gate.byte]

theorem overGates_phaseRun (k : Nat) : OverGates (phaseRun k) :=
  fun _ hb => isSome_ofByte?_of_isPhase (isPhase_of_mem_phaseRun hb)

theorem OverGates.foldStep {kept : Word} {b : UInt8} (h : OverGates kept) (hb : (Gate.ofByte? b).isSome = true) :
    OverGates (foldStep kept b) := by
  have hcons : OverGates (b :: kept) := by
    intro a ha
    rcases List.mem_cons.1 ha with rfl | ha
    · exact hb
    · exact h a ha
  unfold Word.foldStep
  split
  · refine OverGates.append (fun a ha => ?_) fun a ha => h a ((List.dropWhile_suffix _).mem ha)
    exact overGates_phaseRun _ a (List.mem_reverse.1 ha)
  · split
    · split
      · exact fun a ha => h a (List.mem_cons_of_mem _ ha)
      · exact hcons
    · exact hcons

theorem OverGates.fold {w : Word} (h : OverGates w) : OverGates (fold w) := by
  have hkept (kept : Word) (hk : OverGates kept) : OverGates (w.foldl Word.foldStep kept) := by
    induction w generalizing kept with
    | nil => exact hk
    | cons b w ih =>
      exact ih (fun a ha => h a (List.mem_cons_of_mem _ ha)) _ (hk.foldStep (h b List.mem_cons_self))
  exact fun b hb => hkept [] overGates_nil b (List.mem_reverse.1 hb)

theorem Searched.overGates {w : Word} (h : Searched w) : OverGates w := by
  cases h with
  | seed => exact overGates_nil
  | hit bs hv =>
    refine OverGates.append (fun a ha => ?_) ?_
    · obtain ⟨b, -, hb⟩ := List.mem_flatMap.1 ha
      unfold Block.word at hb
      split at hb
      all_goals
        simp only [List.mem_cons, List.not_mem_nil, or_false] at hb
        rcases hb with rfl | rfl <;> rfl
    · rcases hv with rfl | rfl | rfl <;> simp [OverGates]

end Word

/-! ### Tables with the same entries -/

namespace Table

variable {M A E : Type}

section

variable {t t' : Table M A E} (hpoints : t'.points = t.points)
  (hgates : ∀ b, (t'.entry? b).map Entry.gates = (t.entry? b).map Entry.gates)

include hpoints hgates

private theorem missing_congr : t'.missing = t.missing := by
  have hnone (b : Nat) : (t'.entry? b).isNone = (t.entry? b).isNone := by
    rw [← Option.isNone_map, hgates, Option.isNone_map]
  simp only [missing, phaseCount, hpoints, hnone]

/-- The slots depend on the words of the buckets only. -/
theorem expand_congr : t'.expand = t.expand := by
  have hslot (t : Table M A E) (s : Nat) : t.slotWord s = ((t.entry? (s % t.phaseCount)).map Entry.gates).elim notFound
      fun w => if s / t.phaseCount = 0 then w else Word.fold (w ++ Word.phaseRun (s / t.phaseCount)) := by
    unfold slotWord
    cases t.entry? (s % t.phaseCount) <;> rfl
  have hsame (s : Nat) : t'.slotWord s = t.slotWord s := by
    have hcount : t'.phaseCount = t.phaseCount := by rw [phaseCount, phaseCount, hpoints]
    rw [hslot, hslot, hgates, hcount]
  rw [expand, expand, hpoints]
  exact List.map_congr_left fun s _ => hsame s

end

variable [GateAlgebra M] [Angle A] [Residual E]

/-- Words over the alphabet stay so in a table. -/
theorem overGates_entries_foldl_offer {t : Table M A E} (ht : ∀ e ∈ t.entries, e.gates.OverGates)
    {cs : List (Candidate M A E)} (hcs : ∀ c ∈ cs, c.gates.OverGates) :
    ∀ e ∈ (cs.foldl offer t).entries, e.gates.OverGates := by
  induction cs generalizing t with
  | nil => exact ht
  | cons c cs ih =>
    obtain ⟨hc, hrest⟩ := List.forall_mem_cons.1 hcs
    refine ih (forall_entries_offer ht ?_) hrest
    rw [gates_entryOf]
    split
    · exact hc
    · exact (hc.append (Word.overGates_phaseRun _)).fold

private theorem acceptAll_of_fits {t : Table M A E} {es : List (Entry M A E)}
    (h : ∀ e ∈ es, (Call.accept e : Call M A E).Fits t.points) : t.acceptAll es = .ok (t.run (es.map .accept)) := by
  induction es generalizing t with
  | nil => rfl
  | cons e es ih =>
    obtain ⟨hlow, hhigh⟩ := h e List.mem_cons_self
    have hrange : ¬ (e.bucket < 0 ∨ (t.phaseCount : Int) ≤ e.bucket) := by
      rw [phaseCount]
      omega
    rw [acceptAll, if_neg hrange, ih fun e' he' => ?_]
    · rfl
    · rw [points_accept]
      exact h e' (List.mem_cons_of_mem _ he')

/-- A bucket for which something was put forward is not empty after that. -/
private theorem WellFormed.entry?_run_ne_none_of_mem {t : Table M A E} (h : t.WellFormed) {calls : List (Call M A E)}
    (hcalls : ∀ x ∈ calls, x.Fits t.points) {x : Call M A E} (hx : x ∈ calls) :
    entry? (t.run calls) (x.bucket t.points) ≠ none := by
  induction calls generalizing t with
  | nil => cases hx
  | cons y ys ih =>
    have hy := hcalls y List.mem_cons_self
    have hrest : ∀ z ∈ ys, z.Fits (t.apply y).points := by
      rw [points_apply]
      exact fun z hz => hcalls z (List.mem_cons_of_mem _ hz)
    rcases List.mem_cons.1 hx with rfl | hx
    · refine (h.apply hy).entry?_run_ne_none hrest ?_
      rcases entry?_apply (h.bucket_lt hy) with ⟨-, hstored⟩ | ⟨⟨old, hold, -⟩, hkept⟩
      · rw [hstored, if_pos rfl]
        simp
      · rw [hkept, hold]
        simp
    · rw [← points_apply t y]
      exact ih (h.apply hy) hrest hx

section

variable {points : Nat} (hpos : 0 < points) (hdvd : 8 ∣ points) {es : List (Entry M A E)}
  (hfits : ∀ e ∈ es, (Call.accept e : Call M A E).Fits points)

include hpos hdvd hfits

private theorem ofEntries_of_fits : ofEntries points es = .ok ((empty points).run (es.map .accept)) := by
  unfold ofEntries
  rw [new_of_dvd (by omega) (by omega)]
  exact acceptAll_of_fits hfits

variable (hdistinct : (es.map fun e => e.bucket.toNat).Nodup)

include hdistinct

/-- Entries of different buckets, put into an empty table, are all there. -/
private theorem entry?_run_accept_iff {b : Nat} {e : Entry M A E} :
    entry? ((empty points : Table M A E).run (es.map .accept)) b = some e ↔ e ∈ es ∧ e.bucket.toNat = b := by
  have hempty : (empty points : Table M A E).WellFormed := wellFormed_empty hpos hdvd
  have hcalls : ∀ x ∈ es.map Call.accept, x.Fits (empty points : Table M A E).points := by
    intro x hx
    obtain ⟨e', he', rfl⟩ := List.mem_map.1 hx
    exact hfits e' he'
  have hmem {b : Nat} {e : Entry M A E} (h : entry? ((empty points).run (es.map Call.accept)) b = some e) :
      e ∈ es ∧ e.bucket.toNat = b := by
    rcases hempty.entry?_run_cases hcalls h with hbefore | ⟨x, hx, hb, hentry⟩
    · rw [entry?_empty] at hbefore
      cases hbefore
    · obtain ⟨e', he', rfl⟩ := List.mem_map.1 hx
      obtain rfl : e' = e := hentry
      exact ⟨he', hb⟩
  refine ⟨hmem, fun ⟨he, hb⟩ => ?_⟩
  subst hb
  obtain ⟨e', he'⟩ := Option.ne_none_iff_exists'.1
    (hempty.entry?_run_ne_none_of_mem hcalls (List.mem_map_of_mem (f := Call.accept) he))
  obtain ⟨hes', hb'⟩ := hmem he'
  rw [List.inj_on_of_nodup_map hdistinct he hes' hb'.symm]
  exact hb' ▸ he'

/-- Entries of different buckets make a table in which each has its bucket, and nothing is replaced or turned away. -/
private theorem exists_ofEntries :
    ∃ t : Table M A E, ofEntries points es = .ok t ∧ t.points = points ∧ t.found = es.length ∧
    t.replacements = 0 ∧ t.rejected = 0 ∧ ∀ b e, t.entry? b = some e ↔ e ∈ es ∧ e.bucket.toNat = b := by
  have hempty : (empty points : Table M A E).WellFormed := wellFormed_empty hpos hdvd
  have hcalls : ∀ x ∈ es.map Call.accept, x.Fits (empty points : Table M A E).points := by
    intro x hx
    obtain ⟨e, he, rfl⟩ := List.mem_map.1 hx
    exact hfits e he
  have hiff {b : Nat} {e : Entry M A E} := entry?_run_accept_iff hpos hdvd hfits hdistinct (b := b) (e := e)
  have hrun := outcomes_run hempty hcalls
  have hwf := hempty.run hcalls
  refine ⟨_, ofEntries_of_fits hpos hdvd hfits, ?_⟩
  have hpoints : ((empty points).run (es.map Call.accept)).points = points := points_run _ _
  generalize (empty points).run (es.map Call.accept) = t at hrun hwf hiff hpoints ⊢
  -- the found buckets are those of the entries
  have hfound : t.found = es.length := by
    have hperm : ((List.range t.phaseCount).filter fun b => (t.entry? b).isSome).Perm
        (es.map fun e => e.bucket.toNat) := by
      rw [List.perm_ext_iff_of_nodup (List.nodup_range.filter _) hdistinct]
      intro b
      simp only [List.mem_filter, List.mem_range, Option.isSome_iff_exists, hiff, List.mem_map]
      constructor
      · rintro ⟨-, e, he, hb⟩
        exact ⟨e, he, hb⟩
      · rintro ⟨e, he, rfl⟩
        obtain ⟨hlow, hhigh⟩ := hfits e he
        rw [← hpoints] at hhigh
        exact ⟨by unfold phaseCount; omega, e, he, rfl⟩
    rw [hwf.found_eq_count, List.countP_eq_length_filter, hperm.length_eq, List.length_map]
  -- so each of the entries was stored
  rw [List.length_map, hfound] at hrun
  have hnothing : es.length + t.replacements + t.rejected = 0 + 0 + 0 + es.length := hrun
  exact ⟨hpoints, hfound, by omega, by omega, fun b e => hiff⟩

end

end Table

/-! ### Texts of a record -/

private theorem Diagnostic.exists_toJson_iff (d : Diagnostic) :
    (∃ v, d.toJson = .ok v) ↔ d.phase.isFinite = true ∧ d.degrees.isFinite = true ∧ d.error.isFinite = true := by
  have hnumber (x : Float) : (∃ v, Diagnostic.jsonNumber x = .ok v) ↔ x.isFinite = true := by
    unfold Diagnostic.jsonNumber
    split <;> simp [*]
  rw [← hnumber, ← hnumber, ← hnumber, Diagnostic.toJson]
  cases Diagnostic.jsonNumber d.phase <;> cases Diagnostic.jsonNumber d.degrees <;>
    cases Diagnostic.jsonNumber d.error <;> simp [bind, Except.bind, pure, Except.pure]

namespace Diagnostics

/-- The text of a record, unless the format cannot express it. -/
def text? : Format → Diagnostics → Option String
  | .json, record => record.toJson.toOption.map Json.render
  | .yaml, record => some record.toYaml.render

/-- The record that a text holds. -/
def ofText? : Format → String → Option Diagnostics
  | .json, text => ((Json.read text).bind ofJson).toOption
  | .yaml, text => (Yaml.readValue ofYaml [] text).toOption

/-- The format returns the record that it was given. -/
def Returned (format : Format) (record : Diagnostics) : Prop :=
  ∀ text, text? format record = some text → ofText? format text = some record

private theorem exists_mapM_iff {ε α β : Type} (f : α → Except ε β) (xs : List α) :
    (∃ ys, xs.mapM f = .ok ys) ↔ ∀ x ∈ xs, ∃ y, f x = .ok y := by
  induction xs with
  | nil => simp [pure, Except.pure]
  | cons x xs ih =>
    rw [List.mapM_cons, List.forall_mem_cons, ← ih]
    cases f x with
    | error e => simp [bind, Except.bind]
    | ok y =>
      cases xs.mapM f with
      | error e => simp [bind, Except.bind]
      | ok ys => simp [bind, Except.bind, pure, Except.pure]

private theorem exists_bind_pure_iff {ε α β : Type} (x : Except ε α) (g : α → β) :
    (∃ b, (x >>= fun a => pure (g a)) = .ok b) ↔ ∃ a, x = .ok a := by
  cases x <;> simp [bind, Except.bind, pure, Except.pure]

/-- Every record has a text in YAML.  In JSON it has one exactly if its numbers are finite. -/
private theorem exists_text?_iff (format : Format) (record : Diagnostics) :
    (∃ text, text? format record = some text) ↔ format = .yaml ∨
      ∀ d, some d ∈ record → d.phase.isFinite = true ∧ d.degrees.isFinite = true ∧ d.error.isFinite = true := by
  cases format with
  | yaml => simp [text?]
  | json =>
    have htext : (∃ text, text? .json record = some text) ↔ ∃ v, record.toJson = .ok v := by
      show (∃ text, record.toJson.toOption.map Json.render = some text) ↔ _
      cases record.toJson <;> simp [Except.toOption]
    rw [htext, toJson, exists_bind_pure_iff, exists_mapM_iff]
    constructor
    · intro h
      exact Or.inr fun d hd => d.exists_toJson_iff.1 (h _ hd)
    · rintro (hyaml | h) (_ | d) hd
      · cases hyaml
      · cases hyaml
      · exact ⟨_, rfl⟩
      · exact d.exists_toJson_iff.2 (h d hd)

end Diagnostics

namespace Artifact

variable {fs fs' : Files} {path : RawText} {text : String} {format : Format} {record : Diagnostics}

theorem eq_ok_of_toOption {ε α : Type} {x : Except ε α} {a : α} (h : x.toOption = some a) : x = .ok a := by
  cases x <;> cases h
  rfl

theorem writeRecord_of_text? (hformat : Format.ofPath path = .ok format)
    (htext : Diagnostics.text? format record = some text) : writeRecord fs path record = place fs path text := by
  unfold writeRecord
  rw [hformat]
  cases format with
  | json =>
    obtain ⟨value, hvalue, rfl⟩ := Option.map_eq_some_iff.1 htext
    simp only [eq_ok_of_toOption hvalue]
  | yaml =>
    obtain rfl : record.toYaml.render = text := Option.some.inj htext
    rfl

theorem writeRecord_eq_ok (h : writeRecord fs path record = .ok fs') :
    ∃ format text, Format.ofPath path = .ok format ∧ Diagnostics.text? format record = some text ∧
      place fs path text = .ok fs' := by
  cases hformat : Format.ofPath path with
  | error e =>
    rw [writeRecord, hformat] at h
    cases h
  | ok format =>
    cases htext : Diagnostics.text? format record with
    | some text =>
      rw [writeRecord_of_text? hformat htext] at h
      exact ⟨format, text, rfl, htext, h⟩
    | none =>
      -- only a number that has no text in JSON is in the way
      cases format with
      | yaml => cases htext
      | json =>
        cases hjson : record.toJson with
        | ok value => simp [Diagnostics.text?, hjson, Except.toOption] at htext
        | error e =>
          rw [writeRecord, hformat] at h
          simp only [hjson] at h
          cases h

theorem extends_of_writeRecord {e : Setback} (h : writeRecord fs path record = .error e) :
    Files.Extends (fs.OnWay (Path.directory path)) fs e.files := by
  unfold writeRecord at h
  split at h
  · cases h
    exact .refl _ fs
  · split at h
    · cases h
      exact .refl _ fs
    · exact extends_of_place h
  · exact extends_of_place h

private theorem readDiagnostics_of_ofText? (hformat : Format.ofPath path = .ok format) (hread : fs.read path = .ok text)
    (htext : Diagnostics.ofText? format text = some record) : readDiagnostics fs path = .ok record := by
  unfold readDiagnostics
  rw [hformat, hread]
  cases format with
  | json =>
    have hjson : (Json.read text).bind Diagnostics.ofJson = .ok record := eq_ok_of_toOption htext
    simp only [bind, Except.bind] at hjson ⊢
    rw [hjson]
  | yaml =>
    have hyaml : Yaml.readValue Diagnostics.ofYaml [] text = .ok record := eq_ok_of_toOption htext
    simp only [bind, Except.bind, hyaml]

/-- The text of the words of all slots. -/
def wordsText (full : List Word) : Format → String
  | .json => (Json.array (full.map fun w => .string w.text)).render
  | .yaml => (Yaml.sequence (full.map fun w => .scalar true w.text)).render

theorem writeTable_eq (hformat : Format.ofPath path = .ok format) (fs : Files) (full : List Word) :
    writeTable fs path full = place fs path (wordsText full format) := by
  unfold writeTable
  rw [hformat]
  cases format <;> rfl

theorem extends_of_writeTable {full : List Word} {e : Setback} (h : writeTable fs path full = .error e) :
    Files.Extends (fs.OnWay (Path.directory path)) fs e.files := by
  unfold writeTable at h
  split at h
  · cases h
    exact .refl _ fs
  · exact extends_of_place h
  · exact extends_of_place h

theorem writeTable_eq_ok {full : List Word} (h : writeTable fs path full = .ok fs') :
    ∃ format, Format.ofPath path = .ok format ∧ place fs path (wordsText full format) = .ok fs' := by
  cases hformat : Format.ofPath path with
  | error e =>
    rw [writeTable, hformat] at h
    cases h
  | ok format =>
    rw [writeTable_eq hformat] at h
    exact ⟨format, rfl, h⟩

/-! ### Loading a record -/

/-- The second table is the first one as a record keeps it: without the counts of its past, and with the matrices that
the words have when they are replayed. -/
structure Reloads (t t' : DoubleTable) : Prop where
  points_eq : t'.points = t.points
  found_eq : t'.found = t.found
  missing_eq : t'.missing = t.missing
  entry_eq (b : Nat) (e : DoubleEntry) :
    t.entry? b = some e → ∃ m, Word.replay e.gates = .ok m ∧ t'.entry? b = some { e with matrix := m }
  replacements_eq : t'.replacements = 0
  rejected_eq : t'.rejected = 0
  expand_eq : t'.expand = t.expand

end Artifact

namespace Diagnostic

deriving instance DecidableEq for Diagnostic

/-- The element stands at the place of its bucket and has a word over the alphabet. -/
@[mk_iff] structure Fits (index : Nat) (d : Diagnostic) : Prop where
  bucket_eq : d.bucket = index
  overGates : d.gates.OverGates

/-- The entry that an element records, with the matrix of its word. -/
def entry (d : Diagnostic) : DoubleEntry :=
  ⟨d.bucket, d.phase, d.gates, (Word.replay d.gates).toOption.getD 1, d.error⟩

theorem Fits.exists_entry_eq {d : Diagnostic} {index : Nat} (h : d.Fits index) :
    ∃ m, Word.replay d.gates = .ok m ∧ d.entry = ⟨index, d.phase, d.gates, m, d.error⟩ := by
  obtain ⟨m, hm⟩ := Word.exists_replay (M := Matrix) h.overGates
  exact ⟨m, hm, by rw [entry, hm, h.bucket_eq]; rfl⟩

/-- Elements that stand at the places of their buckets have increasing buckets. -/
private theorem pairwise_bucket {record : Diagnostics} (index : Nat)
    (h : ∀ (i : Nat) (d : Diagnostic), record[i]? = some (some d) → d.Fits (index + i)) :
    (record.filterMap id).Pairwise (fun d d' => d.bucket < d'.bucket) ∧ ∀ d ∈ record.filterMap id, index ≤ d.bucket := by
  induction record generalizing index with
  | nil => simp
  | cons x record ih =>
    obtain ⟨hpairwise, hlow⟩ := ih (index + 1) fun i d hd => by
      have hfits := h (i + 1) d hd
      rwa [show index + (i + 1) = index + 1 + i by omega] at hfits
    have hrest : ∀ d ∈ record.filterMap id, (index : Int) < d.bucket := by
      intro d hd
      have := hlow d hd
      omega
    cases x with
    | none => exact ⟨hpairwise, fun d hd => Int.le_of_lt (hrest d hd)⟩
    | some d =>
      have hbucket : d.bucket = index := (h 0 d rfl).bucket_eq
      simp only [List.filterMap_cons, id, List.pairwise_cons, List.forall_mem_cons]
      refine ⟨⟨fun d' hd' => ?_, hpairwise⟩, by omega, fun d' hd' => Int.le_of_lt (hrest d' hd')⟩
      rw [hbucket]
      exact hrest d' hd'

end Diagnostic

namespace Artifact

variable {fs fs' : Files} {path : RawText} {text : String} {format : Format} {record : Diagnostics}

theorem entryOf_of_fits {d : Diagnostic} {index : Nat} (h : d.Fits index) : entryOf path index d = .ok d.entry := by
  obtain ⟨m, hm, hentry⟩ := h.exists_entry_eq
  have hsame : ¬ d.bucket ≠ index := fun hne => hne h.bucket_eq
  rw [entryOf, if_neg hsame, hm, hentry, h.bucket_eq]

/-- The elements of a record are read one by one, those of empty buckets as nothing. -/
private theorem entriesFrom_of_fits {index : Nat}
    (h : ∀ (i : Nat) (d : Diagnostic), record[i]? = some (some d) → d.Fits (index + i)) :
    entriesFrom path index record = .ok ((record.filterMap id).map Diagnostic.entry) := by
  induction record generalizing index with
  | nil => rfl
  | cons x record ih =>
    have hrest : entriesFrom path (index + 1) record = .ok ((record.filterMap id).map Diagnostic.entry) := by
      refine ih fun i d hd => ?_
      have hfits := h (i + 1) d hd
      rwa [show index + (i + 1) = index + 1 + i by omega] at hfits
    cases x with
    | none => exact hrest
    | some d =>
      have hfits : d.Fits index := h 0 d rfl
      rw [entriesFrom, entryOf_of_fits hfits, hrest]
      rfl

variable (path) in
/-- A record of fitting elements makes a table, with the entry of each element in its bucket. -/
theorem exists_tableOf (hne : record ≠ [])
    (h : ∀ (i : Nat) (d : Diagnostic), record[i]? = some (some d) → d.Fits i) :
    ∃ t, tableOf path record = .ok t ∧ t.points = 8 * record.length ∧ t.found = (record.filterMap id).length ∧
      t.replacements = 0 ∧ t.rejected = 0 ∧ ∀ b, t.entry? b = record[b]?.join.map Diagnostic.entry := by
  have hpos : 0 < record.length := List.length_pos_iff.2 hne
  have hmem {d : Diagnostic} : d ∈ record.filterMap id ↔ ∃ i : Nat, record[i]? = some (some d) := by
    rw [List.mem_filterMap]
    simp only [id, exists_eq_right, List.mem_iff_getElem?]
  have hplace {d : Diagnostic} {i : Nat} (hd : record[i]? = some (some d)) : d.bucket = i ∧ i < record.length :=
    ⟨(h i d hd).bucket_eq, (List.getElem?_eq_some_iff.1 hd).1⟩
  have hfits : ∀ e ∈ (record.filterMap id).map Diagnostic.entry,
      (Table.Call.accept e : Table.Call Matrix Float Float).Fits (8 * record.length) := by
    intro e he
    obtain ⟨d, hd, rfl⟩ := List.mem_map.1 he
    obtain ⟨i, hi⟩ := hmem.1 hd
    obtain ⟨hbucket, hlt⟩ := hplace hi
    show 0 ≤ d.bucket ∧ d.bucket < (8 * record.length / 8 : Nat)
    omega
  have hdistinct : (((record.filterMap id).map Diagnostic.entry).map fun e => e.bucket.toNat).Nodup := by
    rw [List.map_map, List.Nodup, List.pairwise_map]
    obtain ⟨hpairwise, hlow⟩ := Diagnostic.pairwise_bucket 0 (by simpa using h)
    refine hpairwise.imp_of_mem fun {d d'} hd hd' hlt => ?_
    have hd := hlow d hd
    have hd' := hlow d' hd'
    show d.bucket.toNat ≠ d'.bucket.toNat
    omega
  obtain ⟨t, hmade, hpoints, hfound, hreplacements, hrejected, hentry⟩ :=
    Table.exists_ofEntries (by omega) (by omega) hfits hdistinct
  refine ⟨t, ?_, hpoints, by rw [hfound, List.length_map], hreplacements, hrejected, fun b => ?_⟩
  · rw [tableOf, entriesFrom_of_fits (by simpa using h)]
    simp only [bind, Except.bind]
    rw [← Nat.cast_ofNat, ← Nat.cast_mul, hmade]
  · refine Option.ext fun e => ?_
    rw [hentry, List.mem_map, Option.map_eq_some_iff]
    simp only [Option.join_eq_some_iff]
    constructor
    · rintro ⟨⟨d, hd, rfl⟩, hb⟩
      obtain ⟨i, hi⟩ := hmem.1 hd
      obtain ⟨hbucket, -⟩ := hplace hi
      have hplace : d.bucket.toNat = b := hb
      obtain rfl : i = b := by omega
      exact ⟨d, hi, rfl⟩
    · rintro ⟨d, hd, rfl⟩
      refine ⟨⟨d, hmem.2 ⟨b, hd⟩, rfl⟩, ?_⟩
      show d.bucket.toNat = b
      rw [(hplace hd).1, Int.toNat_natCast]

/-- A record that was written and is returned by its format is loaded: the table has its entries back. -/
theorem exists_loadTable {t : DoubleTable} (h : t.WellFormed) (hgates : ∀ e ∈ t.entries, e.gates.OverGates)
    (hformat : Format.ofPath path = .ok format) (htext : Diagnostics.text? format (.ofTable t) = some text)
    (hreturned : Diagnostics.Returned format (.ofTable t)) (hread : fs.read path = .ok text) :
    ∃ t', loadTable fs path = .ok t' ∧ Reloads t t' := by
  have hlength : (Diagnostics.ofTable t).length = t.phaseCount := by
    rw [Diagnostics.ofTable, List.length_map, Array.length_toList, h.size_buckets]
  have hcell (b : Nat) : (Diagnostics.ofTable t)[b]?.join = (t.entry? b).map Diagnostic.ofEntry := by
    rw [Diagnostics.ofTable, List.getElem?_map, Array.getElem?_toList, Table.entry?]
    cases t.buckets[b]? <;> rfl
  have hfits : ∀ (b : Nat) (d : Diagnostic), (Diagnostics.ofTable t)[b]? = some (some d) → d.Fits b := by
    intro b d hd
    have hentry := hcell b
    rw [hd, Option.join_some, eq_comm, Option.map_eq_some_iff] at hentry
    obtain ⟨e, he, rfl⟩ := hentry
    exact ⟨h.bucket_eq b e he, hgates e (Table.mem_entries_of_bucket he)⟩
  have hne : Diagnostics.ofTable t ≠ [] := by
    rw [← List.length_pos_iff, hlength]
    exact h.phaseCount_pos
  obtain ⟨t', hmade, hpoints, hfound, hreplacements, hrejected, hentry⟩ := exists_tableOf path hne hfits
  have hloaded : loadTable fs path = .ok t' := by
    rw [loadTable, readDiagnostics_of_ofText? hformat hread (hreturned text htext)]
    exact hmade
  have hpoints : t'.points = t.points := by rw [hpoints, hlength, h.points_eq]
  have hfound : t'.found = t.found := by
    rw [hfound, h.found_eq, Diagnostics.ofTable, List.filterMap_map, List.length_filterMap_eq_countP]
    simp
  have hentry (b : Nat) : t'.entry? b = (t.entry? b).map fun e => (Diagnostic.ofEntry e).entry := by
    rw [hentry, hcell, Option.map_map]
    rfl
  have hwords (b : Nat) : (t'.entry? b).map Entry.gates = (t.entry? b).map Entry.gates := by
    rw [hentry, Option.map_map]
    rfl
  refine ⟨t', hloaded, hpoints, hfound, Table.missing_congr hpoints hwords, fun b e he => ?_, hreplacements, hrejected,
    Table.expand_congr hpoints hwords⟩
  obtain ⟨m, hm⟩ := Word.exists_replay (M := Matrix) (hgates e (Table.mem_entries_of_bucket he))
  have hreplay : Word.replay (Diagnostic.ofEntry e).gates = .ok m := hm
  refine ⟨m, hm, ?_⟩
  rw [hentry, he, Option.map_some, Diagnostic.entry, hreplay]
  rfl

theorem exists_loadTable_of_writeDiagnostics {t : DoubleTable} (h : t.WellFormed)
    (hgates : ∀ e ∈ t.entries, e.gates.OverGates) (hformat : Format.ofPath path = .ok format)
    (hreturned : Diagnostics.Returned format (.ofTable t)) (hwritten : writeDiagnostics fs path t = .ok fs') :
    ∃ t', loadTable fs' path = .ok t' ∧ Reloads t t' := by
  obtain ⟨format', text, hformat', htext, hplace⟩ := writeRecord_eq_ok hwritten
  obtain rfl : format = format' := Except.ok.inj (hformat.symm.trans hformat')
  exact exists_loadTable h hgates hformat htext hreturned (Files.read_of_find (writes_of_place hplace).leads)

/-- Only an angle that is too large in degrees, and only in JSON, keeps a finite table from being expressed. -/
theorem exists_writeDiagnostics_eq_place {t : DoubleTable}
    (hfinite : ∀ e ∈ t.entries, e.phase.isFinite = true ∧ e.error.isFinite = true)
    (hformat : Format.ofPath path = .ok format)
    (hdegrees : format = .yaml ∨ ∀ e ∈ t.entries, (e.phase * 180 / Numeric.pi).isFinite = true) :
    ∃ text, ∀ fs, writeDiagnostics fs path t = place fs path text := by
  have htext : ∃ text, Diagnostics.text? format (.ofTable t) = some text := by
    refine (Diagnostics.exists_text?_iff format _).2 (hdegrees.imp_right fun hdegrees d hd => ?_)
    obtain ⟨e?, he, hmap⟩ := List.mem_map.1 hd
    obtain ⟨e, rfl, rfl⟩ := Option.map_eq_some_iff.1 hmap
    have hmem : e ∈ t.entries := Table.mem_entries_iff.2 he
    exact ⟨(hfinite e hmem).1, hdegrees e hmem, (hfinite e hmem).2⟩
  obtain ⟨text, htext⟩ := htext
  exact ⟨text, fun fs => writeRecord_of_text? hformat htext⟩

end Artifact

end CliffordT
