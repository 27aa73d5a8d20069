import CliffordT.Command.Execute
import CliffordT.Proofs.Cancellation
import CliffordT.Proofs.Reload

/-!
# Expanding the record of a run

A run that does not fail writes the record of its table, then the words of all slots, then the metrics
(`run_of_not_failed`).  As long as the three paths lead to different places, the record and the words can be read when it
is over (`read_of_not_failed`).  Its table is a new one to which words of a search were offered (`search_eq_ok`), so all
words are over the alphabet and the record can be loaded: expanding it writes the words that the run wrote.
-/

namespace CliffordT.Run

/-! ### The table of a run -/

private theorem exists_of_bind {ε α β : Type} {x : Except ε α} {f : α → Except ε β} {b : β} (h : (x >>= f) = .ok b) :
    ∃ a, x = .ok a ∧ f a = .ok b := by
  cases x with
  | error e => cases h
  | ok a => exact ⟨a, rfl, h⟩

private theorem eq_ok_of_mapError {ε ε' α : Type} {x : Except ε α} {f : ε → ε'} {a : α}
    (h : x.mapError f = .ok a) : x = .ok a := by
  cases x <;> cases h
  rfl

theorem start_eq_ok {c : Config} {s : State} (h : start c = .ok s) :
    ∃ precision, Buffer.new c.depth precision = .ok s.buffer ∧ Table.new c.points = .ok s.result.table ∧
      s.result.config = c := by
  unfold start at h
  split at h
  · rename_i buffer table epsilon options hprepare
    cases h
    unfold prepare at hprepare
    obtain ⟨_, -, hprepare⟩ := exists_of_bind hprepare
    obtain ⟨precision, -, hprepare⟩ := exists_of_bind hprepare
    obtain ⟨table', htable, hprepare⟩ := exists_of_bind hprepare
    obtain ⟨buffer', hbuffer, hprepare⟩ := exists_of_bind hprepare
    obtain ⟨_, -, hprepare⟩ := exists_of_bind hprepare
    obtain ⟨_, -, hprepare⟩ := exists_of_bind hprepare
    cases hprepare
    exact ⟨precision, eq_ok_of_mapError hbuffer, eq_ok_of_mapError htable, rfl⟩
  · cases h

/-- The passes of a run are a run of passes. -/
theorem run_passes (sup : Supervision) (s : State) :
    ∃ b, Search.Run (Probe.within s.epsilon) Table.sink s.buffer s.result.table b
      (secondPass sup (firstPass sup s)).result.table ∧
      (secondPass sup (firstPass sup s)).result.config = s.result.config := by
  have hfirst : Search.Run (Probe.within s.epsilon) Table.sink s.buffer s.result.table (firstPass sup s).buffer
      (firstPass sup s).result.table := by
    rw [firstPass, State.buffer_after, State.table_after]
    exact .exhaustive (s.setup sup) rfl rfl s.polls .start
  have hepsilon : (firstPass sup s).epsilon = s.epsilon := State.epsilon_after ..
  have hconfig : (firstPass sup s).result.config = s.result.config := State.config_after ..
  generalize firstPass sup s = s₁ at hfirst hepsilon hconfig
  by_cases hneeds : s₁.needsMeet = true ∧ s₁.result.config.skipMeet = false
  · rw [secondPass_of_needed hneeds.1 hneeds.2, State.table_after, State.config_after]
    have hprobe : (s₁.setup sup).probe = Probe.within s.epsilon := by rw [← hepsilon]; rfl
    exact ⟨_, .meetInTheMiddle (s₁.setup sup) hprobe rfl s₁.polls hfirst, hconfig⟩
  · obtain ⟨s₂, hleft, hresult, -⟩ := secondPass_of_not_needed hneeds
    rw [hleft, hresult]
    exact ⟨_, hfirst, hconfig⟩

private theorem full_verified {s : State} (h : s.error = none) :
    s.verified.result.full = some s.result.table.expand := by
  unfold State.verified State.noteMissing
  rw [if_neg (by simp [h])]
  dsimp only
  split <;> rfl

/-- The table of a run is a new one to which words of a search were offered. -/
theorem search_eq_ok {c : Config} {sup : Supervision} {s : State} (h : search c sup = .ok s) :
    s.result.config = c ∧ (s.error = none → s.result.full = some s.result.table.expand) ∧
      ∃ (t₀ : DoubleTable) (cs : List DoubleCandidate), Table.new c.points = .ok t₀ ∧
        (∀ c ∈ cs, c.gates.Searched) ∧ s.result.table = cs.foldl Table.offer t₀ := by
  unfold search at h
  cases hstart : start c with
  | error e =>
    rw [hstart] at h
    cases h
  | ok s₀ =>
    rw [hstart] at h
    obtain rfl : (secondPass sup (firstPass sup s₀)).verified = s := Except.ok.inj h
    obtain ⟨precision, hbuffer, hnew, hconfig⟩ := start_eq_ok hstart
    obtain ⟨b, hrun, hconfig'⟩ := run_passes sup s₀
    obtain ⟨cs, hcs, htable⟩ := Table.exists_offers_of_run (.new hbuffer) hrun
    have hfull := full_verified (s := secondPass sup (firstPass sup s₀))
    obtain ⟨logs, full, canonical, expanded, hverified⟩ := State.verified_eq (secondPass sup (firstPass sup s₀))
    rw [hverified] at hfull ⊢
    exact ⟨hconfig'.trans hconfig, hfull, _, cs, hnew, hcs, htable⟩

/-! ### The artifacts of a run -/

/-- How an artifact of a result is written. -/
def Artifact.write (times : Times) (r : Result) : Artifact → Files → Except CliffordT.Artifact.Setback Files
  | .diagnostics, fs => CliffordT.Artifact.writeDiagnostics fs r.config.diagnostics r.table
  | .table, fs => CliffordT.Artifact.writeTable fs r.config.table (r.full.getD [])
  | .metrics, fs => CliffordT.Artifact.writeMetrics fs r.config.metricsFile (r.metrics times)

/-- The second tree is the first one with an artifact written, if a path is given for it. -/
def Artifact.Left (times : Times) (r : Result) (a : Artifact) (fs fs' : Files) : Prop :=
  if (a.path r.config).isEmpty then fs' = fs else a.write times r fs = .ok fs'

private theorem artifact_of_not_failed {path : RawText} {level : Log.Level} {message : String}
    {write : Files → Except CliffordT.Artifact.Setback Files} {s s' : State} {fs fs' : Files}
    (h : artifact path level message write s fs = (s', fs')) (hs' : s'.error = none) :
    s.error = none ∧ s'.result = s.result ∧ if path.isEmpty then fs' = fs else write fs = .ok fs' := by
  unfold artifact at h
  by_cases hnot : s.error.isSome ∨ path.isEmpty
  · rw [if_pos hnot] at h
    cases h
    have hpath : path.isEmpty = true := hnot.resolve_left (by simp [hs'])
    rw [if_pos hpath]
    exact ⟨hs', rfl, rfl⟩
  · rw [if_neg hnot] at h
    rw [if_neg (not_or.1 hnot).2]
    split at h <;> cases h
    · cases hs'
    · rename_i hwrite
      exact ⟨hs', rfl, hwrite⟩

theorem writeArtifact_of_not_failed {times : Times} {s s' : State} {fs fs' : Files} {a : Artifact}
    (h : writeArtifact times s fs a = (s', fs')) (hs' : s'.error = none) :
    s.error = none ∧ s'.result = s.result ∧ a.Left times s.result fs fs' := by
  cases a
  all_goals
    rw [writeArtifact] at h
    -- stated by itself first: unifying with the goal at once would unfold what is written
    have hleft := artifact_of_not_failed h hs'
    exact hleft

private theorem writeArtifacts_of_not_failed {times : Times} {s s' : State} {fs fs' : Files}
    (h : writeArtifacts times s fs = (s', fs')) (hs' : s'.error = none) :
    s'.result = s.result ∧ ∃ fs₁ fs₂, Artifact.diagnostics.Left times s.result fs fs₁ ∧
      Artifact.table.Left times s.result fs₁ fs₂ ∧ Artifact.metrics.Left times s.result fs₂ fs' := by
  unfold writeArtifacts Artifact.all at h
  simp only [List.foldl_cons, List.foldl_nil] at h
  rcases hfirst : writeArtifact times s fs .diagnostics with ⟨s₁, fs₁⟩
  rcases hsecond : writeArtifact times s₁ fs₁ .table with ⟨s₂, fs₂⟩
  simp only [hfirst, hsecond] at h
  obtain ⟨hs₂, hresult', hmetrics⟩ := writeArtifact_of_not_failed h hs'
  obtain ⟨hs₁, hresult₂, htable⟩ := writeArtifact_of_not_failed hsecond hs₂
  obtain ⟨-, hresult₁, hdiagnostics⟩ := writeArtifact_of_not_failed hfirst hs₁
  rw [hresult₂, hresult₁] at hresult' hmetrics
  rw [hresult₁] at htable
  exact ⟨hresult', fs₁, fs₂, hdiagnostics, htable, hmetrics⟩

/-- The text of an artifact. -/
def Artifact.Text (times : Times) (r : Result) : Artifact → String → Prop
  | .diagnostics, text => ∃ format, Format.ofPath r.config.diagnostics = .ok format ∧
      Diagnostics.text? format (.ofTable r.table) = some text
  | .table, text => ∃ format, Format.ofPath r.config.table = .ok format ∧
      CliffordT.Artifact.wordsText (r.full.getD []) format = text
  | .metrics, text => r.metrics times = text

/-- An artifact is put at the place that its path names, and beside directories on the way to it nothing else changes. -/
theorem Artifact.exists_writes {times : Times} {r : Result} {a : Artifact} {fs fs' : Files}
    (h : a.write times r fs = .ok fs') : ∃ text, a.Text times r text ∧ fs.Writes (a.path r.config) text fs' := by
  -- unifying with what is written would unfold it
  cases a with
  | diagnostics =>
    rw [Artifact.write, CliffordT.Artifact.writeDiagnostics] at h
    obtain ⟨format, text, hformat, htext, hplace⟩ := CliffordT.Artifact.writeRecord_eq_ok h
    have hwrites := CliffordT.Artifact.writes_of_place hplace
    exact ⟨text, ⟨format, hformat, htext⟩, hwrites⟩
  | table =>
    rw [Artifact.write] at h
    obtain ⟨format, hformat, hplace⟩ := CliffordT.Artifact.writeTable_eq_ok h
    have hwrites := CliffordT.Artifact.writes_of_place hplace
    exact ⟨_, ⟨format, hformat, rfl⟩, hwrites⟩
  | metrics =>
    rw [Artifact.write] at h
    have hwrites := CliffordT.Artifact.writes_of_writeMetrics h
    exact ⟨_, rfl, hwrites⟩

theorem Artifact.Left.cases {times : Times} {r : Result} {a : Artifact} {fs fs' : Files} (h : a.Left times r fs fs') :
    (a.path r.config).isEmpty = true ∧ fs' = fs ∨ (a.path r.config).isEmpty = false ∧ a.write times r fs = .ok fs' ∧
      ∃ text, a.Text times r text ∧ fs.Writes (a.path r.config) text fs' := by
  unfold Left at h
  split at h
  · rename_i hpath
    exact Or.inl ⟨hpath, h⟩
  · rename_i hpath
    exact Or.inr ⟨by simpa using hpath, h, Artifact.exists_writes h⟩

/-- A file keeps its place while an artifact is written, and its text if the artifact comes to another place. -/
theorem Artifact.Left.find {times : Times} {r : Result} {a : Artifact} {fs fs' : Files} (h : a.Left times r fs fs')
    {path : RawText} {p : Place} {s : String} (hfind : fs.find path = .ok (p, some (.file s))) :
    ∃ s', fs'.find path = .ok (p, some (.file s')) ∧ (fs'.target? (a.path r.config) ≠ some p → s' = s) := by
  rcases h.cases with ⟨-, rfl⟩ | ⟨-, -, text, -, hwrites⟩
  · exact ⟨s, hfind, fun _ => rfl⟩
  · refine ⟨_, hwrites.find hfind, fun hne => if_neg ?_⟩
    rintro rfl
    exact hne (Files.target?_of_find hwrites.leads)

theorem Artifact.Left.directories {times : Times} {r : Result} {a : Artifact} {fs fs' : Files}
    (h : a.Left times r fs fs') :
    fs'.start = fs.start ∧ ∀ p, fs.node? p = some .directory → fs'.node? p = some .directory := by
  rcases h.cases with ⟨-, rfl⟩ | ⟨-, -, text, -, hwrites⟩
  · exact ⟨rfl, fun _ h => h⟩
  · exact ⟨hwrites.start_eq, fun _ => hwrites.directories⟩

theorem run_of_not_failed {c : Config} {sup : Supervision} {times : Times} {fs : Files}
    (h : (run c sup times fs).error = none) :
    ∃ s, search c sup = .ok s ∧ s.error = none ∧ (run c sup times fs).result = some s.result ∧ ∃ fs₁ fs₂,
      Artifact.diagnostics.Left times s.result fs fs₁ ∧ Artifact.table.Left times s.result fs₁ fs₂ ∧
      Artifact.metrics.Left times s.result fs₂ (run c sup times fs).files := by
  unfold run at h ⊢
  cases hsearch : search c sup with
  | error e =>
    rw [hsearch] at h
    cases h
  | ok s =>
    rw [hsearch, finish, conclude] at h
    rw [finish, conclude]
    have hs : s.error = none := by
      by_contra hsome
      rw [if_pos (Option.isSome_iff_ne_none.2 hsome)] at h
      exact hsome h
    have hnot : ¬ s.error.isSome = true := by simp [hs]
    rw [if_neg hnot] at h ⊢
    rcases hwritten : writeArtifacts times s fs with ⟨s', fs'⟩
    rw [hwritten] at h
    have hs' : s'.error = none := by
      have hend : (State.noteEnd times s').error = s'.error := by
        unfold State.noteEnd
        dsimp only
        split <;> rfl
      exact hend.symm.trans h
    have hresult : (State.noteEnd times s').result = s'.result := by
      unfold State.noteEnd
      dsimp only
      split <;> rfl
    obtain ⟨hresult', hleft⟩ := writeArtifacts_of_not_failed hwritten hs'
    exact ⟨s, rfl, hs, congrArg some (hresult.trans hresult'), hleft⟩

/-- A run that has not failed leaves the record and the words of its table, each to be read from its path as long as the
paths of the artifacts lead to different places. -/
theorem read_of_not_failed {c : Config} {sup : Supervision} {times : Times} {fs : Files}
    (h : (run c sup times fs).error = none) (hdiagnostics : c.diagnostics.isEmpty = false)
    (htable : c.table.isEmpty = false)
    (hapart : (Artifact.all.map fun a => (run c sup times fs).files.target? (a.path c)).Nodup) :
    ∃ r, (run c sup times fs).result = some r ∧ r.table.WellFormed ∧ (∀ e ∈ r.table.entries, e.gates.OverGates) ∧
      (∃ format text, Format.ofPath c.diagnostics = .ok format ∧
        Diagnostics.text? format (.ofTable r.table) = some text ∧
        (run c sup times fs).files.read c.diagnostics = .ok text) ∧
      ∃ format, Format.ofPath c.table = .ok format ∧
        (run c sup times fs).files.read c.table = .ok (CliffordT.Artifact.wordsText r.table.expand format) ∧
        ∀ text, ∃ fs', CliffordT.Artifact.place (run c sup times fs).files c.table text = .ok fs' := by
  obtain ⟨s, hsearch, hs, hresult, fs₁, fs₂, hfirst, hsecond, hthird⟩ := run_of_not_failed h
  generalize (run c sup times fs).files = fs₃ at hapart hthird ⊢
  obtain ⟨hconfig, hfull, t₀, cs, hnew, hcs, hmade⟩ := search_eq_ok hsearch
  have hwf : s.result.table.WellFormed := by
    rw [hmade]
    exact Table.wellFormed_foldl_offer hnew cs
  have hgates : ∀ e ∈ s.result.table.entries, e.gates.OverGates := by
    rw [hmade]
    refine Table.overGates_entries_foldl_offer ?_ fun c hc => (hcs c hc).overGates
    rw [(Table.new_eq_ok hnew).2.2, Table.entries_empty]
    simp
  subst hconfig
  have hrecord : CliffordT.Artifact.writeDiagnostics fs s.result.config.diagnostics s.result.table = .ok fs₁ := by
    rcases hfirst.cases with ⟨hpath, -⟩ | ⟨-, hwrite, -⟩
    · exact absurd hpath (by simp [Artifact.path, hdiagnostics])
    · exact hwrite
  have hwords : CliffordT.Artifact.writeTable fs₁ s.result.config.table s.result.table.expand = .ok fs₂ := by
    rcases hsecond.cases with ⟨hpath, -⟩ | ⟨-, hwrite, -⟩
    · exact absurd hpath (by simp [Artifact.path, htable])
    · rw [Artifact.write, hfull hs] at hwrite
      exact hwrite
  obtain ⟨format, text, hformat, htext, hplace⟩ := CliffordT.Artifact.writeRecord_eq_ok hrecord
  have hfind := (CliffordT.Artifact.writes_of_place hplace).leads
  obtain ⟨format', hformat', hplace'⟩ := CliffordT.Artifact.writeTable_eq_ok hwords
  have hfind' := (CliffordT.Artifact.writes_of_place hplace').leads
  -- what is written later leaves both files where they are
  obtain ⟨text₂, hfind₂, hkept₂⟩ := hsecond.find hfind
  obtain ⟨text₃, hfind₃, hkept₃⟩ := hthird.find hfind₂
  obtain ⟨words₃, hfind₃', hkept₃'⟩ := hthird.find hfind'
  have htarget := Files.target?_of_find hfind₃
  have htarget' := Files.target?_of_find hfind₃'
  simp only [Artifact.all, Artifact.path, List.map_cons, List.map_nil, List.nodup_cons, List.mem_cons, List.not_mem_nil,
    or_false, not_or, htarget, htarget'] at hapart
  obtain ⟨⟨hne, hmetrics⟩, hmetrics', -⟩ := hapart
  obtain rfl := hkept₃ (Ne.symm hmetrics)
  obtain rfl := hkept₃' (Ne.symm hmetrics')
  obtain rfl := hkept₂ (by
    rw [Artifact.path, Files.target?_of_find hfind']
    exact Ne.symm hne)
  obtain ⟨hstart, -⟩ := hsecond.directories
  obtain ⟨hstart', hdirectories⟩ := hthird.directories
  exact ⟨s.result, hresult, hwf, hgates, ⟨format, _, hformat, htext, Files.read_of_find hfind₃⟩, format', hformat',
    Files.read_of_find hfind₃',
    CliffordT.Artifact.exists_place_again hplace' (hstart'.trans hstart) hdirectories hfind₃'⟩

end CliffordT.Run

namespace CliffordT.Command

/-- A record that can be loaded is expanded to where its words can be written. -/
private theorem perform_expand_of_loadTable {fs fs' : Files} {path table : RawText} {t : DoubleTable}
    (hload : Artifact.loadTable fs path = .ok t) (hwrite : writeWords fs table t.expand = .ok fs')
    (outside : Surroundings) (epsilon : Float) (strict : Bool) :
    let reply := perform outside fs (.expand path table epsilon strict)
    reply.files = fs' ∧ (strict = false → reply.exit = .done) := by
  unfold perform expandRecord expandTable
  simp only [hload, hwrite]
  split
  · rename_i hstrict
    refine ⟨rfl, ?_⟩
    rintro rfl
    cases hstrict
  · exact ⟨rfl, fun _ => rfl⟩

/-- Saving a table and loading it again loses nothing that matters.

The record of a table over the alphabet with finite angles and errors has a text, unless the format is JSON and an angle
is too large to be given in degrees; once it is written, and if its format returns the record that it was given, loading
succeeds and gives the table back.  So the record of a run that has not failed can be expanded: wherever the words are
written in the format that the run used, the same text is written as by the run, which can be done at its own path at
least. -/
theorem saved_table_is_returned :
    (∀ (points : Int) (es : List DoubleEntry) (t₀ : DoubleTable) (cs : List DoubleCandidate),
      (es = [] ∧ Table.new points = .ok t₀ ∨ Table.ofEntries points es = .ok t₀) →
      let t : DoubleTable := cs.foldl Table.offer t₀
      (∀ e ∈ t.entries, e.gates.OverGates ∧ e.phase.isFinite = true ∧ e.error.isFinite = true) →
      ∀ path format, Format.ofPath path = .ok format →
        ((format = .yaml ∨ ∀ e ∈ t.entries, (e.phase * 180 / Numeric.pi).isFinite = true) →
          ∃ text, ∀ fs, Artifact.writeDiagnostics fs path t = Artifact.place fs path text) ∧
        (Diagnostics.Returned format (.ofTable t) → ∀ fs fs', Artifact.writeDiagnostics fs path t = .ok fs' →
          ∃ t', Artifact.loadTable fs' path = .ok t' ∧ Artifact.Reloads t t')) ∧
    ∀ (c : Config) (sup : Run.Supervision) (times : Run.Times) (fs : Files),
      let o := Run.run c sup times fs
      o.error = none → c.diagnostics.isEmpty = false → c.table.isEmpty = false →
      (Run.Artifact.all.map fun a => o.files.target? (a.path c)).Nodup →
      (∀ r format, o.result = some r → Format.ofPath c.diagnostics = .ok format →
        Diagnostics.Returned format (.ofTable r.table)) →
      ∃ text, o.files.read c.table = .ok text ∧
        (∃ fs', Artifact.place o.files c.table text = .ok fs') ∧
        ∀ (table : RawText) (fs' : Files), Format.ofPath table = Format.ofPath c.table →
          Artifact.place o.files table text = .ok fs' →
          ∀ (outside : Surroundings) (epsilon : Float) (strict : Bool),
            let reply := perform outside o.files (.expand c.diagnostics table epsilon strict)
            reply.files = fs' ∧ reply.files.read table = .ok text ∧ (strict = false → reply.exit = .done) := by
  constructor
  · intro points es t₀ cs hmade t ht path format hformat
    have hwf : t.WellFormed := Table.wellFormed_of_made hmade cs
    exact ⟨Artifact.exists_writeDiagnostics_eq_place (fun e he => (ht e he).2) hformat, fun hreturned fs fs' hwritten =>
      Artifact.exists_loadTable_of_writeDiagnostics hwf (fun e he => (ht e he).1) hformat hreturned hwritten⟩
  · intro c sup times fs o herror hdiagnostics htable hapart hreturned
    obtain ⟨r, hresult, hwf, hgates, ⟨format, text, hformat, htext, hread⟩, format', hformat', hread', hagain⟩ :=
      Run.read_of_not_failed herror hdiagnostics htable hapart
    obtain ⟨t, hload, hreloads⟩ :=
      Artifact.exists_loadTable hwf hgates hformat htext (hreturned r format hresult hformat) hread
    refine ⟨_, hread', hagain _, fun table fs' hsame hplace outside epsilon strict => ?_⟩
    have hfind := (Artifact.writes_of_place hplace).leads
    have hwrite : writeWords o.files table t.expand = .ok fs' := by
      rw [writeWords, if_neg (by simp [Files.isEmpty_of_find hfind]), Artifact.writeTable_eq (hsame.trans hformat'),
        hreloads.expand_eq]
      exact hplace
    obtain ⟨hfiles, hexit⟩ := perform_expand_of_loadTable hload hwrite outside epsilon strict
    dsimp only
    rw [hfiles]
    exact ⟨rfl, Files.read_of_find hfind, hexit⟩

private theorem returned_of_bind {format : Format} {record : Diagnostics}
    (h : (Diagnostics.text? format record).bind (Diagnostics.ofText? format) = some record) :
    Diagnostics.Returned format record := by
  intro text htext
  rwa [htext] at h

/-- A circle of 8 slots has one bucket.  In the first table an entry was replaced; the second is found by a run. -/
theorem saved_table_is_returned_one_bucket :
    let d : DoubleCandidate := ⟨0, [], 1, 0⟩
    let t := ((Table.empty 8).accept ⟨0, 0, [], 1, 1⟩).offer d
    let c : Config := { Config.default with points := 8, depth := 1, diagnostics := "d.json", table := "t.json" }
    let o := Run.run c .undisturbed ⟨⟨0⟩, ⟨0⟩, ⟨0⟩⟩ .empty
    (t.replacements = 1 ∧ ∃ fs t', Artifact.writeDiagnostics .empty "d.json" t = .ok fs ∧
      Artifact.loadTable fs "d.json" = .ok t' ∧ Artifact.Reloads t t') ∧
    ∃ text, o.files.read "t.json" = .ok text ∧ ∀ outside epsilon strict,
      (perform outside o.files (.expand "d.json" "t.json" epsilon strict)).files.read "t.json" = .ok text := by
  intro d t c o
  have hformat : Format.ofPath "d.json" = .ok .json := by decide +kernel
  have hmade : Table.ofEntries 8 [⟨0, 0, [], 1, 1⟩] =
      .ok ((Table.empty 8).accept ⟨0, 0, [], 1, 1⟩ : DoubleTable) := rfl
  obtain ⟨hreplaced, hentries, hwritten, hback⟩ : t.replacements = 1 ∧
      (∀ e ∈ t.entries, e.gates.OverGates ∧ e.phase.isFinite = true ∧ e.error.isFinite = true) ∧
      (Artifact.writeDiagnostics .empty "d.json" t).isOk = true ∧
      (Diagnostics.text? .json (.ofTable t)).bind (Diagnostics.ofText? .json) = some (.ofTable t) := by
    decide +kernel
  obtain ⟨herror, hapart, hback'⟩ : o.error.isNone = true ∧
      (Run.Artifact.all.map fun a => o.files.target? (a.path c)).Nodup ∧
      (o.result.all fun r => (Diagnostics.text? .json (.ofTable r.table)).bind (Diagnostics.ofText? .json) =
        some (.ofTable r.table)) = true := by
    decide +kernel
  refine ⟨⟨hreplaced, ?_⟩, ?_⟩
  · cases hwrite : Artifact.writeDiagnostics .empty "d.json" t with
    | error e =>
      rw [hwrite] at hwritten
      cases hwritten
    | ok fs =>
      have hload := (saved_table_is_returned.1 8 _ _ [d] (Or.inr hmade) hentries "d.json" .json hformat).2
      obtain ⟨t', ht'⟩ := hload (returned_of_bind hback) .empty fs hwrite
      exact ⟨fs, t', rfl, ht'⟩
  · have hreturned : ∀ r format, o.result = some r → Format.ofPath c.diagnostics = .ok format →
        Diagnostics.Returned format (.ofTable r.table) := by
      intro r format hr hf
      obtain rfl : Format.json = format := Except.ok.inj (hformat.symm.trans hf)
      rw [hr] at hback'
      exact returned_of_bind (of_decide_eq_true hback')
    obtain ⟨text, hread, ⟨fs', hplace⟩, hexpand⟩ := saved_table_is_returned.2 c .undisturbed ⟨⟨0⟩, ⟨0⟩, ⟨0⟩⟩ .empty
      (Option.isNone_iff_eq_none.1 herror) (by decide +kernel) (by decide +kernel) hapart hreturned
    exact ⟨text, hread, fun outside epsilon strict => (hexpand "t.json" fs' rfl hplace outside epsilon strict).2.1⟩

end CliffordT.Command
