import CliffordT.Proofs.OpenPaths
import CliffordT.Proofs.SavedRun

/-!
# Which artifacts a run leaves

The artifacts of a run are written in order, up to the first that fails (`Result.saved`).  So those before it are in
their files, unless a later one has the same place, and beside directories on the way nothing else has changed
(`Result.Leaves`).  An artifact that has a text and nothing in its way does not fail (`Artifact.Possible.exists_write`),
so the first one that is missing was not possible (`Result.exists_leaves`).
-/

namespace CliffordT.Run

variable {c : Config} {sup : Supervision} {times : Times} {fs fs' fs₁ : Files} {s : State} {r : Result} {a : Artifact}

/-! ### Writing the artifacts -/

/-- Write artifacts in order, up to the first that fails. -/
def Result.saved (times : Times) (r : Result) : List Artifact → Files → Option ArtifactError × Files
  | [], fs => (none, fs)
  | a :: as, fs =>
    if (a.path r.config).isEmpty then r.saved times as fs
    else
      match a.write times r fs with
      | .ok fs' => r.saved times as fs'
      | .error e => (some e.cause, e.files)

theorem writeArtifact_eq (times : Times) (a : Artifact) :
    ∃ level message, ∀ s fs, writeArtifact times s fs a =
      artifact (a.path s.result.config) level message (fun fs => a.write times s.result fs) s fs := by
  cases a
  all_goals
    simp only [writeArtifact, Artifact.write, Artifact.path]
    exact ⟨_, _, fun _ _ => rfl⟩

/-- Nothing more is written after a failure. -/
private theorem foldl_writeArtifact_of_error (h : s.error.isSome = true) (times : Times) (as : List Artifact)
    (fs : Files) :
    as.foldl (fun (s, fs) a => writeArtifact times s fs a) (s, fs) = (s, fs) := by
  induction as with
  | nil => rfl
  | cons a as ih =>
    obtain ⟨level, message, hwrite⟩ := writeArtifact_eq times a
    rw [List.foldl_cons]
    dsimp only
    rw [hwrite, artifact, if_pos (Or.inl h), ih]

private theorem foldl_writeArtifact (h : s.error = none) (times : Times) (as : List Artifact) (fs : Files) :
    ∃ logs, as.foldl (fun (s, fs) a => writeArtifact times s fs a) (s, fs) =
      ({ s with logs := logs, error := (s.result.saved times as fs).1.map .artifact },
        (s.result.saved times as fs).2) := by
  induction as generalizing s fs with
  | nil => exact ⟨s.logs, by rw [Result.saved, Option.map_none, ← h, List.foldl_nil]⟩
  | cons a as ih =>
    obtain ⟨level, message, hwrite⟩ := writeArtifact_eq times a
    rw [List.foldl_cons]
    dsimp only
    rw [hwrite, artifact, Result.saved]
    by_cases hpath : (a.path s.result.config).isEmpty = true
    · rw [if_pos (Or.inr hpath), if_pos hpath]
      exact ih h fs
    · rw [if_neg (by simp [h, hpath]), if_neg hpath]
      cases hresult : a.write times s.result fs with
      | error e =>
        refine ⟨s.logs, ?_⟩
        dsimp only
        rw [foldl_writeArtifact_of_error rfl]
        rfl
      | ok fs' => exact ih (s := s.log level message _) h fs'

/-- The result with its table expanded and verified. -/
def Result.checked (r : Result) : Result :=
  { r with
    full := some r.table.expand
    canonical := Verify.canonical (.within r.config.epsilon) r.table
    expanded := Verify.expanded (.within r.config.epsilon) r.table r.table.expand }

theorem verified_of_no_error (h : s.error = none) :
    ∃ logs, s.verified = { s with logs := logs, result := s.result.checked } := by
  unfold State.verified State.noteMissing
  rw [if_neg (by simp [h])]
  dsimp only
  split <;> exact ⟨_, rfl⟩

theorem conclude_of_no_error (h : s.error = none) (times : Times) (fs : Files) :
    ∃ logs, conclude times fs s =
      ⟨some s.result, (s.result.saved times Artifact.all fs).1.map .artifact, logs,
        (s.result.saved times Artifact.all fs).2⟩ := by
  obtain ⟨logs, hwritten⟩ := foldl_writeArtifact h times Artifact.all fs
  rw [conclude, if_neg (by simp [h]), writeArtifacts, hwritten]
  unfold State.noteEnd State.outcome
  dsimp only
  split <;> exact ⟨_, rfl⟩

/-! ### Artifacts that can be written -/

/-- An artifact has a text, and nothing is in its way.  The metrics also need room for digits behind their name. -/
structure Artifact.Possible (times : Times) (r : Result) (fs : Files) (a : Artifact) : Prop where
  text : ∃ text, a.Text times r text
  path : fs.Admits (a.path r.config)
  name : a = .metrics → CliffordT.Artifact.besideBytes r.config.metricsFile ≤ maxNameBytes

theorem Artifact.Possible.exists_write (h : a.Possible times r fs) : ∃ fs', a.write times r fs = .ok fs' := by
  obtain ⟨text, htext⟩ := h.text
  have hpath := h.path
  cases a with
  | diagnostics =>
    obtain ⟨format, hformat, htext⟩ := htext
    rw [Artifact.write, CliffordT.Artifact.writeDiagnostics, CliffordT.Artifact.writeRecord_of_text? hformat htext]
    exact CliffordT.Artifact.exists_place hpath text
  | table =>
    obtain ⟨format, hformat, -⟩ := htext
    rw [Artifact.write, CliffordT.Artifact.writeTable_eq hformat]
    exact CliffordT.Artifact.exists_place hpath _
  | metrics =>
    rw [Artifact.write]
    exact CliffordT.Artifact.exists_writeMetrics hpath (h.name rfl) _

/-- What is possible after directories were made was possible before. -/
private theorem Artifact.Possible.of_extends {news : Place → Prop} (h : Files.Extends news fs fs')
    (hfs' : a.Possible times r fs') : a.Possible times r fs := by
  obtain ⟨htext, hpath, hname⟩ := hfs'
  have hclear := hpath.of_files h.start_eq fun p ⟨text, hfile⟩ => ⟨text, h.keeps hfile⟩
  refine ⟨htext, ⟨hclear, fun hdir => hpath.free ?_⟩, hname⟩
  rw [Files.placeOf_congr h.start_eq]
  exact h.keeps hdir

/-- An artifact that fails leaves new directories at most. -/
private theorem Artifact.extends_of_write {e : CliffordT.Artifact.Setback} (h : a.write times r fs = .error e) :
    Files.Extends (fs.OnWay (Path.directory (a.path r.config))) fs e.files := by
  cases a with
  | diagnostics =>
    rw [Artifact.write, CliffordT.Artifact.writeDiagnostics] at h
    have hextends := CliffordT.Artifact.extends_of_writeRecord h
    exact hextends
  | table =>
    rw [Artifact.write] at h
    have hextends := CliffordT.Artifact.extends_of_writeTable h
    exact hextends
  | metrics =>
    rw [Artifact.write] at h
    have hextends := CliffordT.Artifact.extends_of_writeMetrics h
    exact hextends

/-! ### What is left -/

/-- Artifacts of a result are in their files, unless a later one has the same place, and nothing else has changed but
that there are new directories on the way to artifacts that were tried. -/
structure Result.Leaves (times : Times) (r : Result) (tried done : List Artifact) (fs fs' : Files) : Prop where
  start_eq : fs'.start = fs.start
  directories (p : Place) : fs.node? p = some .directory → fs'.node? p = some .directory
  holds (before : List Artifact) (a : Artifact) (after : List Artifact) : done = before ++ a :: after →
    (∀ b ∈ after, fs.placeOf (b.path r.config) ≠ fs.placeOf (a.path r.config)) →
    ∃ text, a.Text times r text ∧ fs'.read (a.path r.config) = .ok text
  node (p : Place) : (∀ a ∈ done, p ≠ fs.placeOf (a.path r.config)) → fs'.node? p = fs.node? p ∨
    (∃ a ∈ tried, fs.OnWay (Path.directory (a.path r.config)) p) ∧ fs.node? p = none ∧ fs'.node? p = some .directory

namespace Result

private theorem Leaves.of_extends (h : Files.Extends (fs.OnWay (Path.directory (a.path r.config))) fs fs')
    (times : Times) :
    r.Leaves times [a] [] fs fs' where
  start_eq := h.start_eq
  directories _ := h.keeps
  holds before b after hnil := by simp at hnil
  node p _ := (h.node p).imp_right fun ⟨hway, hmade⟩ => ⟨⟨a, List.mem_singleton_self a, hway⟩, hmade⟩

theorem Leaves.refl (times : Times) (r : Result) (fs : Files) : r.Leaves times [] [] fs fs where
  start_eq := rfl
  directories _ := id
  holds before b after hnil := by simp at hnil
  node _ _ := Or.inl rfl

/-- One artifact is written, and others behind it. -/
theorem Leaves.cons {text : String} {tried done : List Artifact} (htext : a.Text times r text)
    (h : fs.Writes (a.path r.config) text fs₁) (h₁ : r.Leaves times tried done fs₁ fs') :
    r.Leaves times (a :: tried) (a :: done) fs fs' := by
  have hplace (path : RawText) : fs₁.placeOf path = fs.placeOf path := Files.placeOf_congr h.start_eq path
  refine ⟨h₁.start_eq.trans h.start_eq, fun p hp => h₁.directories p (h.directories hp), ?_, fun p hp => ?_⟩
  · intro before b after hsplit hafter
    cases before with
    | nil =>
      obtain ⟨rfl, rfl⟩ := List.cons.inj hsplit
      -- no artifact behind this one comes to its place
      have hnode : fs'.node? (fs.placeOf (a.path r.config)) = some (.file text) := by
        rcases h₁.node _ fun b hb => by rw [hplace]; exact (hafter b hb).symm with hsame | ⟨-, hnone, -⟩
        · rw [hsame, h.holds]
        · rw [h.holds] at hnone
          cases hnone
      refine ⟨text, htext, Files.read_of_find (q := fs.placeOf (a.path r.config)) ?_⟩
      exact Files.find_of_directories h₁.start_eq h₁.directories h.leads (by simp) hnode
    | cons first before =>
      obtain ⟨rfl, hbehind⟩ := List.cons.inj hsplit
      exact h₁.holds before b after hbehind fun b' hb' => by rw [hplace, hplace]; exact hafter b' hb'
  · obtain ⟨hfirst, hrest⟩ := List.forall_mem_cons.1 hp
    rcases h.node p hfirst with hsame | ⟨hway, hnone, hmade⟩
    · rw [← hsame]
      refine (h₁.node p fun b hb => by rw [hplace]; exact hrest b hb).imp_right ?_
      rintro ⟨⟨b, hb, hway⟩, hmade⟩
      exact ⟨⟨b, List.mem_cons_of_mem a hb, (Files.onWay_congr h.start_eq).1 hway⟩, hmade⟩
    · exact Or.inr ⟨⟨a, List.mem_cons_self, hway⟩, hnone, h₁.directories p hmade⟩

/-- The artifacts that are asked for are written, up to the first that is not possible. -/
theorem exists_leaves (times : Times) (r : Result) (as : List Artifact) (fs : Files) :
    ∃ done rest, as.filter (fun a => !(a.path r.config).isEmpty) = done ++ rest ∧
      r.Leaves times (done ++ rest.take 1) done fs (r.saved times as fs).2 ∧
      ((r.saved times as fs).1 = none ↔ rest = []) ∧
      ∀ a ∈ rest.head?, ¬ a.Possible times r (r.saved times as fs).2 := by
  induction as generalizing fs with
  | nil => exact ⟨[], [], rfl, .refl times r fs, iff_of_true rfl rfl, by simp⟩
  | cons a as ih =>
    rw [saved]
    by_cases hpath : (a.path r.config).isEmpty = true
    · rw [if_pos hpath, List.filter_cons_of_neg (by simp [hpath])]
      exact ih fs
    · rw [if_neg hpath, List.filter_cons_of_pos (by simp [hpath])]
      cases hwrite : a.write times r fs with
      | error e =>
        have hextends := Artifact.extends_of_write hwrite
        refine ⟨[], _, rfl, .of_extends hextends times, by simp, ?_⟩
        rintro b hb hpossible
        obtain rfl : a = b := Option.some.inj hb
        obtain ⟨fs₁, hok⟩ := (hpossible.of_extends hextends).exists_write
        rw [hwrite] at hok
        cases hok
      | ok fs₁ =>
        obtain ⟨text, htext, hwrites⟩ := Artifact.exists_writes hwrite
        obtain ⟨done, rest, hasked, hleaves, herror, hfirst⟩ := ih fs₁
        exact ⟨a :: done, rest, by rw [hasked]; rfl, .cons htext hwrites hleaves, herror, hfirst⟩

end Result

/-! ### Runs that come to their artifacts -/

/-- The run has ended with the artifacts of a result, once its table was expanded and verified. -/
structure Outcome.Concludes (o : Outcome) (times : Times) (fs : Files) (r : Result) : Prop where
  result : o.result = some r.checked
  error : o.error = (r.checked.saved times Artifact.all fs).1.map .artifact
  files : o.files = (r.checked.saved times Artifact.all fs).2

theorem concludes_of_no_error (h : s.error = none) (times : Times) (fs : Files) :
    (conclude times fs s.verified).Concludes times fs s.result := by
  obtain ⟨logs, hverified⟩ := verified_of_no_error h
  rw [hverified]
  obtain ⟨logs', hend⟩ := conclude_of_no_error (s := { s with logs := logs, result := s.result.checked }) h times fs
  rw [hend]
  exact ⟨rfl, rfl, rfl⟩

/-- What a run leaves that has come to writing the artifacts of a result. -/
structure Outcome.Saves (o : Outcome) (times : Times) (fs : Files) (r : Result) (done rest : List Artifact) : Prop where
  result : o.result = some r
  asked : Artifact.all.filter (fun a => !(a.path r.config).isEmpty) = done ++ rest
  leaves : r.Leaves times (done ++ rest.take 1) done fs o.files
  error : o.error = none ↔ rest = []
  missing (a : Artifact) : a ∈ rest.head? → (∃ e, o.error = some (.artifact e)) ∧ ¬ a.Possible times r o.files

theorem Outcome.Concludes.exists_saves {o : Outcome} (h : o.Concludes times fs r) :
    ∃ done rest, o.Saves times fs r.checked done rest := by
  obtain ⟨done, rest, hasked, hleaves, herror, hfirst⟩ := r.checked.exists_leaves times Artifact.all fs
  rw [← h.files] at hleaves hfirst
  refine ⟨done, rest, h.result, hasked, hleaves, ?_, fun a ha => ⟨?_, hfirst a ha⟩⟩
  · rw [h.error, Option.map_eq_none_iff, herror]
  · rw [h.error]
    cases hnone : (r.checked.saved times Artifact.all fs).1 with
    | none =>
      rw [herror.1 hnone] at ha
      cases ha
    | some e => exact ⟨e, rfl⟩

end CliffordT.Run
