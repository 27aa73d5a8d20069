import CliffordT.Command.Synthesis
import CliffordT.Proofs.LogOpening
import CliffordT.Proofs.RunEnds

/-!
# What a synthesis leaves

The log of a synthesis goes to a file while its artifacts are written, so both change the same tree.  One artifact with
the log lines behind it changes no file but its own and that of the log (`Job.write_of_not_failed`), and so do all that
come later (`Job.foldl_write_of_not_failed`).  An artifact whose place no other output has is there at the end, with its
text, unless the file of the log has taken the place of a directory above it (`Job.conclude_of_not_failed`).  That does
not happen if the path of the log leads downwards: the log has its file before the first artifact is written, or it never
gets one, or it has nothing to write about artifacts (`Job.not_buries_of_conclude`).

Whether the judgement is strict has no part in this.  A synthesis with the same parameters but a lenient judgement goes
through the same states and leaves the same files (`Run.search_lenient`, `Job.conclude_lenient`).
-/

namespace CliffordT

/-- The same parameters with a lenient judgement. -/
def Config.lenient (c : Config) : Config := { c with strict := false }

namespace Run

def Result.lenient (r : Result) : Result := { r with config := r.config.lenient }

def State.lenient (s : State) : State := { s with result := s.result.lenient }

variable {c : Config} {sup : Supervision} {times : Times} {fs fs' : Files} {s : State}

/-! ### Lenient runs -/

private theorem start_lenient (c : Config) : start c.lenient = (start c).map State.lenient := by
  have hprepare : prepare c.lenient = prepare c := rfl
  unfold start
  rw [hprepare]
  cases prepare c with
  | error e => rfl
  | ok x => rfl

private theorem State.after_lenient (sup : Supervision) (s : State) (b : Buffer Matrix)
    (p : Search.Pass DoubleTable Log.Record) (finished : String) :
    s.lenient.after sup b p finished = (s.after sup b p finished).lenient := by
  unfold State.after
  dsimp only
  split
  · rfl
  · split <;> rfl

private theorem firstPass_lenient (sup : Supervision) (s : State) :
    firstPass sup s.lenient = (firstPass sup s).lenient := by
  unfold firstPass
  dsimp only
  rw [← State.after_lenient]
  rfl

private theorem secondPass_lenient (sup : Supervision) (s : State) :
    secondPass sup s.lenient = (secondPass sup s).lenient := by
  have hneeds : s.lenient.needsMeet = s.needsMeet := rfl
  have hskip : s.lenient.result.config.skipMeet = s.result.config.skipMeet := rfl
  unfold secondPass
  rw [hneeds, hskip]
  split
  · rfl
  · split
    · rfl
    · dsimp only
      rw [← State.after_lenient]
      rfl

private theorem State.verified_lenient (s : State) : s.lenient.verified = s.verified.lenient := by
  have herror : s.lenient.error = s.error := rfl
  have htable : s.lenient.result.table = s.result.table := rfl
  unfold State.verified State.noteMissing
  rw [herror, htable]
  dsimp only
  split
  · rfl
  · split <;> rfl

/-- The search does the same whether the judgement is strict or lenient. -/
theorem search_lenient (c : Config) (sup : Supervision) : search c.lenient sup = (search c sup).map State.lenient := by
  unfold search
  rw [start_lenient]
  cases start c with
  | error e => rfl
  | ok s =>
    show Except.ok (secondPass sup (firstPass sup s.lenient)).verified = _
    rw [firstPass_lenient, secondPass_lenient, State.verified_lenient]
    rfl

private theorem Artifact.path_lenient (a : Artifact) (c : Config) : a.path c.lenient = a.path c := by
  cases a <;> rfl

private theorem writeArtifact_lenient (times : Times) (s : State) (fs : Files) (a : Artifact) :
    writeArtifact times s.lenient fs a = ((writeArtifact times s fs a).1.lenient, (writeArtifact times s fs a).2) := by
  obtain ⟨level, message, hwrite⟩ := writeArtifact_eq times a
  have hsame : a.write times s.lenient.result = a.write times s.result := by cases a <;> rfl
  rw [hwrite, hwrite, hsame, State.lenient, Result.lenient, Artifact.path_lenient]
  unfold artifact
  dsimp only
  split
  · rfl
  · split <;> rfl

private theorem State.noteEnd_lenient (times : Times) (s : State) :
    s.lenient.noteEnd times = (s.noteEnd times).lenient := by
  have herror : s.lenient.error = s.error := rfl
  unfold State.noteEnd
  rw [herror]
  dsimp only
  split <;> rfl

/-! ### Records of a run -/

private theorem State.logs_after (sup : Supervision) (s : State) (b : Buffer Matrix)
    (p : Search.Pass DoubleTable Log.Record) (finished : String) : s.logs <+: (s.after sup b p finished).logs := by
  unfold State.after
  dsimp only
  have hevents : s.logs <+: s.logs ++ p.events.toList := List.prefix_append ..
  split
  · exact hevents.trans (List.prefix_append ..)
  · split
    · exact hevents.trans (List.prefix_append ..)
    · exact hevents

private theorem logs_firstPass (sup : Supervision) (s : State) : s.logs <+: (firstPass sup s).logs := by
  unfold firstPass
  obtain ⟨b, p⟩ := Search.exhaustive (s.setup sup) s.buffer s.result.table s.polls
  exact State.logs_after sup { s with result := { s.result with exhaustive := p.stats } } b p _

private theorem logs_secondPass (sup : Supervision) (s : State) : s.logs <+: (secondPass sup s).logs := by
  unfold secondPass
  split
  · exact List.prefix_refl _
  · split
    · exact List.prefix_append ..
    · obtain ⟨b, p, _⟩ := Search.meetInTheMiddle (s.setup sup) s.buffer s.result.table s.polls
      exact State.logs_after sup { s with result := { s.result with meet := some p.stats } } b p _

private theorem State.logs_verified (s : State) : s.logs <+: s.verified.logs := by
  have hnoted : s.logs <+: s.noteMissing.logs := by
    unfold State.noteMissing
    dsimp only
    split
    · exact List.prefix_refl _
    · exact List.prefix_append ..
  unfold State.verified
  split
  · exact List.prefix_refl _
  · exact hnoted.trans ((List.prefix_append ..).trans (List.prefix_append ..))

/-- The log of a run begins with the record of its start. -/
private theorem exists_logs_of_search (h : search c sup = .ok s) :
    ∃ r records, s.logs = r :: records ∧ r.level = .info := by
  unfold search start at h
  split at h
  · rename_i buffer table epsilon options _
    obtain rfl := Except.ok.inj h
    obtain ⟨records, hlogs⟩ := ((logs_firstPass sup (State.start c buffer table epsilon options)).trans
      (logs_secondPass sup _)).trans (State.logs_verified _)
    exact ⟨_, records, hlogs.symm, rfl⟩
  · cases h

/-- Records that are not graver than the first of a run. -/
def Minor (records : List Log.Record) : Prop := ∀ r ∈ records, Log.Level.info.rank ≤ r.level.rank

private theorem minor_singleton {level : Log.Level} (h : Log.Level.info.rank ≤ level.rank) (message : String)
    (fields : List (String × Log.Value)) : Minor [⟨level, message, fields⟩] :=
  fun _ hr => List.mem_singleton.1 hr ▸ h

private theorem logs_artifact {path : RawText} {level : Log.Level} (hlevel : Log.Level.info.rank ≤ level.rank)
    (message : String) (write : Files → Except CliffordT.Artifact.Setback Files) (s : State) (fs : Files) :
    ∃ records, (artifact path level message write s fs).1.logs = s.logs ++ records ∧ Minor records := by
  unfold artifact
  split
  · exact ⟨[], (List.append_nil _).symm, by simp [Minor]⟩
  · split
    · exact ⟨[], (List.append_nil _).symm, by simp [Minor]⟩
    · exact ⟨_, rfl, minor_singleton hlevel _ _⟩

private theorem logs_writeArtifact (times : Times) (s : State) (fs : Files) (a : Artifact) :
    ∃ records, (writeArtifact times s fs a).1.logs = s.logs ++ records ∧ Minor records := by
  cases a
  all_goals
    rw [writeArtifact]
    exact logs_artifact (by decide) ..

private theorem State.logs_noteEnd (times : Times) (s : State) :
    ∃ records, (s.noteEnd times).logs = s.logs ++ records ∧ Minor records := by
  unfold State.noteEnd
  dsimp only
  split
  · exact ⟨[], (List.append_nil _).symm, by simp [Minor]⟩
  · exact ⟨_, rfl, minor_singleton (Nat.le_refl _) _ _⟩

/-! ### Places of their own -/

/-- No other artifact has the place of this one, and the log file neither. -/
structure Artifact.Alone (fs : Files) (c : Config) (a : Artifact) : Prop where
  others (b : Artifact) : b ≠ a → (b.path c).isEmpty = false → fs.placeOf (b.path c) ≠ fs.placeOf (a.path c)
  log : c.logFile.isEmpty = false → fs.placeOf c.logFile ≠ fs.placeOf (a.path c)

theorem Artifact.mem_all (a : Artifact) : a ∈ all := by
  cases a <;> decide

instance (fs : Files) (c : Config) (a : Artifact) : Decidable (a.Alone fs c) :=
  decidable_of_iff ((∀ b ∈ Artifact.all, b ≠ a → (b.path c).isEmpty = false →
      fs.placeOf (b.path c) ≠ fs.placeOf (a.path c)) ∧
      (c.logFile.isEmpty = false → fs.placeOf c.logFile ≠ fs.placeOf (a.path c)))
    ⟨fun h => ⟨fun b => h.1 b b.mem_all, h.2⟩, fun h => ⟨fun b _ => h.others b, h.log⟩⟩

end Run

namespace Command

open Run (Artifact State Times)

variable {job : Job} {time : String} {times : Times} {fs fs' fs₁ : Files} {p : Progress} {a : Artifact} {q : Place}
  {text : String}

/-! ### Lenient jobs -/

def Job.lenient (job : Job) : Job := { job with config := job.config.lenient }

def Progress.lenient (p : Progress) : Progress := { p with state := p.state.lenient }

private theorem afterArtifact_lenient (s : State) (a : Artifact) (o : Log.Output) :
    afterArtifact s.lenient a o = afterArtifact s a o := by
  cases a <;> rfl

private theorem Job.write_lenient (job : Job) (time : String) (times : Times) (p : Progress) (a : Artifact) :
    job.lenient.write time times p.lenient a = (job.write time times p a).lenient := by
  unfold Job.write Progress.lenient
  rw [Run.writeArtifact_lenient]
  dsimp only
  rw [afterArtifact_lenient]
  rfl

/-- The artifacts and the log of a synthesis are the same whether the judgement is strict or lenient. -/
theorem Job.conclude_lenient (job : Job) (time : String) (times : Times) (p : Progress) :
    job.lenient.conclude time times p.lenient = (job.conclude time times p).lenient := by
  have hfold (as : List Artifact) (p : Progress) :
      as.foldl (job.lenient.write time times) p.lenient = (as.foldl (job.write time times) p).lenient := by
    induction as generalizing p with
    | nil => rfl
    | cons a as ih => rw [List.foldl_cons, List.foldl_cons, Job.write_lenient, ih]
  have herror : p.lenient.state.error = p.state.error := rfl
  unfold Job.conclude
  rw [herror]
  dsimp only
  split
  · rfl
  · rw [hfold]
    generalize Artifact.all.foldl (job.write time times) p = p'
    show job.lenient.advance time p'.lenient (p'.state.lenient.noteEnd times) p'.log = _
    rw [Run.State.noteEnd_lenient]
    rfl

/-! ### Files that stand to the end -/

/-- The log stands where its path says, in a tree that begins where the first one does. -/
structure Job.Settled (job : Job) (fs : Files) (o : Log.Output) : Prop where
  beside : o.Beside job.config.logFile o.files
  start_eq : o.files.start = fs.start

/-- A file stands at a place, unless it is buried under that of the log. -/
def Job.Keeps (job : Job) (fs : Files) (q : Place) (text : String) (fs' : Files) : Prop :=
  fs'.node? q = some (.file text) ∨ fs'.Buries (fs.placeOf job.config.logFile) q

/-- Log lines keep the files beside that of the log. -/
theorem Job.Settled.log {o : Log.Output} (h : job.Settled fs o) (time : String) (records : List Log.Record) :
    job.Settled fs (job.log time o records) ∧ ∀ q text, q ≠ fs.placeOf job.config.logFile →
      job.Keeps fs q text o.files → job.Keeps fs q text (job.log time o records).files := by
  have hlogged := h.beside.foldl_write job.level time (records.map fun r => r.tagged "run" (.text job.runId))
  have hkeeps := hlogged.keeps
  refine ⟨⟨hlogged.self, hkeeps.start_eq.trans h.start_eq⟩, fun q text hq hkept => ?_⟩
  rw [Files.placeOf_congr h.start_eq] at hkeeps
  rcases hkept with hnode | hburied
  · exact hkeeps.keeps q text hq hnode
  · exact Or.inr (hkeeps.buries hburied)

theorem Job.settled_log_start (job : Job) (time : String) (fs : Files) (records : List Log.Record) :
    job.Settled fs (job.log time (.start fs) records) := by
  have hstart : job.Settled fs (.start fs) := ⟨Log.Output.beside_start _ fs, rfl⟩
  exact (hstart.log time records).1

/-- An artifact may have replaced the file of the log, which then stands nowhere. -/
private theorem afterArtifact_of {P : Log.Output → Prop} {o : Log.Output} (h : P o)
    (hreplaced : ∀ place, P (o.replaced place)) (s : State) (a : Artifact) : P (afterArtifact s a o) := by
  unfold Command.afterArtifact
  split
  · exact h
  · split
    · exact hreplaced _
    · exact h

private theorem Job.Settled.afterArtifact {o : Log.Output} (h : job.Settled fs o) (hstart : fs'.start = o.files.start)
    (s : State) (a : Artifact) :
    job.Settled fs (afterArtifact s a { o with files := fs' }) ∧
      (Command.afterArtifact s a { o with files := fs' }).files = fs' := by
  have hmoved : job.Settled fs { o with files := fs' } :=
    ⟨h.beside.moved hstart, hstart.trans h.start_eq⟩
  refine afterArtifact_of (P := fun o => job.Settled fs o ∧ o.files = fs') ⟨hmoved, rfl⟩ (fun place => ?_) s a
  have hfiles : (Log.Output.replaced place { o with files := fs' }).files = fs' := Log.Output.files_replaced ..
  refine ⟨⟨?_, ?_⟩, hfiles⟩
  · rw [hfiles]
    exact hmoved.beside.replaced place
  · rw [hfiles]
    exact hmoved.start_eq

/-- An artifact that comes to another place keeps a file. -/
private theorem Job.Keeps.of_writes {path : RawText} {s : String} (h : fs'.Writes path s fs₁)
    (hstart : fs'.start = fs.start)
    (hq : fs.placeOf path ≠ q) (hkept : job.Keeps fs q text fs') : job.Keeps fs q text fs₁ := by
  rw [← Files.placeOf_congr hstart] at hq
  rcases hkept with hnode | ⟨habove, hbelow, t, hfile⟩
  · exact Or.inl (h.keeps (Ne.symm hq) hnode)
  · -- what is buried stays so: the file above it is kept, or another one is put in its place
    refine Or.inr ⟨habove, by rw [h.start_eq]; exact hbelow, ?_⟩
    by_cases hlog : fs.placeOf job.config.logFile = fs'.placeOf path
    · rw [hlog]
      exact ⟨s, h.holds⟩
    · exact ⟨t, h.keeps hlog hfile⟩

/-- What happens when an artifact is written: it is left, and then minor records are logged. -/
private theorem Job.write_eq_of_not_failed (h : (job.write time times p a).state.error = none) :
    p.state.error = none ∧ (job.write time times p a).state.result = p.state.result ∧
      ∃ s fs' records, a.Left times p.state.result p.log.files fs' ∧ Run.Minor records ∧
        (job.write time times p a).log = job.log time (afterArtifact s a { p.log with files := fs' }) records := by
  rcases hwrite : Run.writeArtifact times p.state p.log.files a with ⟨s, fs'⟩
  have hstep : job.write time times p a = job.advance time p s (afterArtifact s a { p.log with files := fs' }) := by
    unfold Job.write
    rw [hwrite]
  rw [hstep] at h ⊢
  obtain ⟨hnone, hresult, hleft⟩ := Run.writeArtifact_of_not_failed hwrite h
  obtain ⟨records, hlogs, hminor⟩ := Run.logs_writeArtifact times p.state p.log.files a
  rw [hwrite] at hlogs
  refine ⟨hnone, hresult, s, fs', records, hleft, hminor, ?_⟩
  unfold Job.advance
  rw [show s.logs = _ from hlogs, List.drop_left]

/-- An artifact that was written is the only file that changed, but for that of the log. -/
theorem Job.write_of_not_failed (hp : job.Settled fs p.log)
    (h : (job.write time times p a).state.error = none) :
    p.state.error = none ∧ (job.write time times p a).state.result = p.state.result ∧
      job.Settled fs (job.write time times p a).log ∧ ∃ fs', a.Left times p.state.result p.log.files fs' ∧
      ∀ q text, q ≠ fs.placeOf job.config.logFile → job.Keeps fs q text fs' →
        job.Keeps fs q text (job.write time times p a).log.files := by
  obtain ⟨hnone, hresult, s, fs', records, hleft, -, hlog⟩ := Job.write_eq_of_not_failed h
  obtain ⟨hsettled, hfiles⟩ := hp.afterArtifact hleft.directories.1 s a
  obtain ⟨hlogged, hkeeps⟩ := hsettled.log time records
  rw [hfiles] at hkeeps
  rw [hlog]
  exact ⟨hnone, hresult, hlogged, fs', hleft, hkeeps⟩

private theorem Job.error_of_foldl_write {as : List Artifact}
    (h : (as.foldl (job.write time times) p).state.error = none) :
    p.state.error = none := by
  induction as generalizing p with
  | nil => exact h
  | cons a as ih =>
    rcases hwrite : Run.writeArtifact times p.state p.log.files a with ⟨s, fs'⟩
    have hs : (job.write time times p a).state.error = none := ih h
    simp only [Job.write, hwrite, Job.advance] at hs
    exact (Run.writeArtifact_of_not_failed hwrite hs).1

/-- A file is kept by every artifact that has another place. -/
theorem Job.foldl_write_of_not_failed {as : List Artifact} (hp : job.Settled fs p.log)
    (h : (as.foldl (job.write time times) p).state.error = none) :
    (as.foldl (job.write time times) p).state.result = p.state.result ∧
      job.Settled fs (as.foldl (job.write time times) p).log ∧ ∀ q text, q ≠ fs.placeOf job.config.logFile →
      (∀ b ∈ as, (b.path p.state.result.config).isEmpty = false → fs.placeOf (b.path p.state.result.config) ≠ q) →
      job.Keeps fs q text p.log.files → job.Keeps fs q text (as.foldl (job.write time times) p).log.files := by
  induction as generalizing p with
  | nil => exact ⟨rfl, hp, fun _ _ _ _ hkept => hkept⟩
  | cons a as ih =>
    rw [List.foldl_cons] at h ⊢
    obtain ⟨-, hresult, hsettled, fs', hleft, hlog⟩ := Job.write_of_not_failed hp (Job.error_of_foldl_write h)
    obtain ⟨hresult', hsettled', hkeeps⟩ := ih hsettled h
    rw [hresult] at hresult' hkeeps
    refine ⟨hresult', hsettled', fun q text hq hothers hkept => ?_⟩
    refine hkeeps q text hq (fun b hb => hothers b (List.mem_cons_of_mem a hb)) (hlog q text hq ?_)
    rcases hleft.cases with ⟨-, rfl⟩ | ⟨hpath, -, text', -, hwrites⟩
    · exact hkept
    · exact hkept.of_writes hwrites hp.start_eq (hothers a List.mem_cons_self hpath)

/-- The artifacts before one, that one, and those behind it, of a synthesis that has not failed. -/
private theorem Job.conclude_split (h : (job.conclude time times p).state.error = none) (a : Artifact) :
    p.state.error = none ∧ ∃ before after : List Artifact, (∀ b ∈ after, b ≠ a) ∧
      let p₁ := before.foldl (job.write time times) p
      let p₂ := job.write time times p₁ a
      let done := after.foldl (job.write time times) p₂
      p₁.state.error = none ∧ p₂.state.error = none ∧ done.state.error = none ∧
        job.conclude time times p = job.advance time done (done.state.noteEnd times) done.log ∧
        (done.state.noteEnd times).result = done.state.result := by
  have hnone : p.state.error = none := by
    by_contra hsome
    rw [Job.conclude, if_pos (Option.isSome_iff_ne_none.2 hsome)] at h
    exact hsome h
  obtain ⟨before, after, hsplit⟩ := List.append_of_mem a.mem_all
  have hafter : ∀ b ∈ after, b ≠ a := by
    have hnodup : Artifact.all.Nodup := by decide
    rw [hsplit, List.nodup_append] at hnodup
    rintro b hb rfl
    exact (List.nodup_cons.1 hnodup.2.1).1 hb
  refine ⟨hnone, before, after, hafter, ?_⟩
  intro p₁ p₂ done
  have hconclude : job.conclude time times p = job.advance time done (done.state.noteEnd times) done.log := by
    rw [Job.conclude, if_neg (by simp [hnone]), hsplit, List.foldl_append, List.foldl_cons]
  have hend : (done.state.noteEnd times).error = done.state.error ∧
      (done.state.noteEnd times).result = done.state.result := by
    unfold State.noteEnd
    dsimp only
    split <;> exact ⟨rfl, rfl⟩
  rw [hconclude] at h
  have hdone : done.state.error = none := hend.1.symm.trans h
  have hwrite : p₂.state.error = none := Job.error_of_foldl_write hdone
  have hbefore : p₁.state.error = none :=
    Job.error_of_foldl_write (show ([a].foldl (job.write time times) p₁).state.error = none from hwrite)
  exact ⟨hbefore, hwrite, hdone, hconclude, hend.2⟩

/-- At the end of a synthesis that has not failed, every artifact that was asked for and stands alone holds its text,
unless the log file has taken the place of a directory above it. -/
theorem Job.conclude_of_not_failed (hp : job.Settled fs p.log) (hconfig : p.state.result.config = job.config)
    (h : (job.conclude time times p).state.error = none) :
    let p' := job.conclude time times p
    p.state.error = none ∧ p'.state.result = p.state.result ∧ p'.log.files.start = fs.start ∧
      ∀ a : Artifact, (a.path job.config).isEmpty = false → a.Alone fs job.config →
        ∃ text, a.Text times p.state.result text ∧ job.Keeps fs (fs.placeOf (a.path job.config)) text p'.log.files := by
  intro p'
  have hsplit (a : Artifact) : p.state.error = none ∧ p'.state.result = p.state.result ∧
      p'.log.files.start = fs.start ∧ ((a.path job.config).isEmpty = false → a.Alone fs job.config →
        ∃ text, a.Text times p.state.result text ∧
          job.Keeps fs (fs.placeOf (a.path job.config)) text p'.log.files) := by
    obtain ⟨hnone, before, after, hafter, hbefore, hwrite, hdone, hconclude, hend⟩ := Job.conclude_split h a
    obtain ⟨hresult₁, hsettled₁, -⟩ := Job.foldl_write_of_not_failed hp hbefore
    obtain ⟨-, hresult₂, hsettled₂, fs', hleft, hlog⟩ := Job.write_of_not_failed hsettled₁ hwrite
    obtain ⟨hresult₃, hsettled₃, hkeeps⟩ := Job.foldl_write_of_not_failed hsettled₂ hdone
    obtain ⟨hlogged, hkept⟩ := hsettled₃.log time _
    rw [show p' = _ from hconclude]
    refine ⟨hnone, hend.trans (hresult₃.trans (hresult₂.trans hresult₁)), hlogged.start_eq, fun hpath halone => ?_⟩
    rw [hresult₁] at hleft hresult₂
    rw [hresult₂, hconfig] at hkeeps
    rcases hleft.cases with ⟨hempty, -⟩ | ⟨-, -, text, htext, hwrites⟩
    · rw [hconfig, hpath] at hempty
      cases hempty
    · have hholds := hwrites.holds
      have hnot := hwrites.not_directory
      rw [hconfig, Files.placeOf_congr hsettled₁.start_eq] at hholds hnot
      have hq : fs.placeOf (a.path job.config) ≠ fs.placeOf job.config.logFile := by
        intro hsame
        cases hlogFile : job.config.logFile.isEmpty with
        | false => exact halone.log hlogFile hsame.symm
        | true =>
          -- without a log file that place is the start, where there is a directory
          rw [hsame, Files.placeOf_of_isEmpty hlogFile, ← hsettled₁.start_eq] at hnot
          exact hnot (if_pos (Or.inl rfl))
      refine ⟨text, htext, hkept _ text hq (hkeeps _ text hq (fun b hb => ?_) ?_)⟩
      · exact halone.others b (hafter b hb)
      · exact hlog _ text hq (Or.inl hholds)
  obtain ⟨hnone, hresult, hstart, -⟩ := hsplit .table
  exact ⟨hnone, hresult, hstart, fun a => (hsplit a).2.2.2⟩

/-! ### Logs that bury nothing -/

/-- The log goes to no file, or its path leads downwards and no record of the search is too long for its file. -/
def Job.LogsDown (job : Job) (time : String) (fs : Files) (s : State) : Prop :=
  job.config.logFile.isEmpty = false → Log.Downward fs job.config.logFile ∧
    ∀ r ∈ s.logs, ((r.tagged "run" (.text job.runId)).line time).utf8ByteSize ≤ Log.maxFileBytes

/-- The log takes no minor records, or it has its file or never gets one. -/
def Job.Poised (job : Job) (o : Log.Output) : Prop :=
  job.level.writes .info = false ∨ o.Decided job.config.logFile

/-- The log takes no minor records, or it never gets a file. -/
def Job.Idle (job : Job) (o : Log.Output) : Prop :=
  job.level.writes .info = false ∨ o.Barred job.config.logFile

/-- Minor records that are not written change nothing. -/
private theorem Job.log_of_not_writes (h : job.level.writes .info = false) {records : List Log.Record}
    (hminor : Run.Minor records) (o : Log.Output) : job.log time o records = o := by
  induction records with
  | nil => rfl
  | cons r records ih =>
    obtain ⟨hr, hrecords⟩ := List.forall_mem_cons.1 hminor
    have hnot : job.level.writes (r.tagged "run" (.text job.runId)).level = false := by
      simp only [Log.Level.writes, decide_eq_false_iff_not, Nat.not_le] at h ⊢
      exact Nat.lt_of_lt_of_le h hr
    have hskip : Log.Output.write job.level job.config.logFile time o (r.tagged "run" (.text job.runId)) = o := by
      rw [Log.Output.write, if_pos (by rw [hnot]; rfl)]
    show job.log time (Log.Output.write ..) records = o
    rw [hskip, ih hrecords]

private theorem Job.Poised.log {o : Log.Output} (h : job.Poised o) (hsettled : job.Settled fs o)
    {records : List Log.Record} (hminor : Run.Minor records) : job.Poised (job.log time o records) := by
  rcases h with hquiet | hdecided
  · rw [Job.log_of_not_writes hquiet hminor]
    exact Or.inl hquiet
  · exact Or.inr (hdecided.foldl_write hsettled.beside _ _ _)

/-- A log that is idle leaves directories where they are. -/
private theorem Job.Idle.log {o : Log.Output} (h : job.Idle o) {records : List Log.Record}
    (hminor : Run.Minor records) :
    job.Idle (job.log time o records) ∧ o.files.Grows (job.log time o records).files := by
  rcases h with hquiet | hbarred
  · rw [Job.log_of_not_writes hquiet hminor]
    exact ⟨Or.inl hquiet, .refl _⟩
  · obtain ⟨hlater, hgrows⟩ := hbarred.foldl_write job.level time (records.map fun r => r.tagged "run" (.text job.runId))
    exact ⟨Or.inr hlater, hgrows⟩

private theorem Job.Poised.afterArtifact {o : Log.Output} (h : job.Poised o) (hgrows : o.files.Grows fs') (s : State)
    (a : Artifact) : job.Poised (afterArtifact s a { o with files := fs' }) :=
  h.imp_right fun hdecided => afterArtifact_of (hdecided.moved hgrows) (hdecided.moved hgrows).replaced s a

private theorem Job.Idle.afterArtifact {o : Log.Output} (h : job.Idle o) (hgrows : o.files.Grows fs') (s : State)
    (a : Artifact) : job.Idle (afterArtifact s a { o with files := fs' }) :=
  h.imp_right fun hbarred => afterArtifact_of (hbarred.moved hgrows) (hbarred.moved hgrows).replaced s a

/-- The search has been logged, and so the log is poised. -/
private theorem Job.poised_of_search {sup : Run.Supervision} {s : State}
    (hsearch : Run.search job.config sup = .ok s) (hlogs : job.LogsDown time fs s)
    (hlogFile : job.config.logFile.isEmpty = false) : job.Poised (job.log time (.start fs) s.logs) := by
  obtain ⟨hdown, hshort⟩ := hlogs hlogFile
  obtain ⟨r, records, hrecords, hlevel⟩ := Run.exists_logs_of_search hsearch
  cases hwrites : job.level.writes .info with
  | false => exact Or.inl hwrites
  | true =>
    right
    rw [hrecords] at hshort ⊢
    refine Log.Output.decided_foldl_write hlogFile hdown ?_ (hshort r List.mem_cons_self) _
    rw [← hlevel] at hwrites
    exact hwrites

private theorem grows_of_left {r : Run.Result} (h : a.Left times r fs fs') : fs.Grows fs' := by
  rcases h.cases with ⟨-, rfl⟩ | ⟨-, -, text, -, hwrites⟩
  · exact .refl fs'
  · exact hwrites.grows

private theorem Job.Poised.write (h : job.Poised p.log) (hp : job.Settled fs p.log)
    (hwrite : (job.write time times p a).state.error = none) : job.Poised (job.write time times p a).log := by
  obtain ⟨-, -, s, fs', records, hleft, hminor, hlog⟩ := Job.write_eq_of_not_failed hwrite
  rw [hlog]
  exact (h.afterArtifact (grows_of_left hleft) s a).log (hp.afterArtifact hleft.directories.1 s a).1 hminor

private theorem Job.Idle.write (h : job.Idle p.log) (hp : job.Settled fs p.log)
    (hwrite : (job.write time times p a).state.error = none) :
    job.Idle (job.write time times p a).log ∧ p.log.files.Grows (job.write time times p a).log.files := by
  obtain ⟨-, -, s, fs', records, hleft, hminor, hlog⟩ := Job.write_eq_of_not_failed hwrite
  obtain ⟨hidle, hgrows⟩ := (h.afterArtifact (grows_of_left hleft) s a).log hminor
  rw [(hp.afterArtifact hleft.directories.1 s a).2] at hgrows
  rw [hlog]
  exact ⟨hidle, (grows_of_left hleft).trans hgrows⟩

/-- What every artifact keeps is kept by all of them. -/
private theorem Job.foldl_write_invariant {P : Log.Output → Prop}
    (hstep : ∀ p a, job.Settled fs p.log → P p.log → (job.write time times p a).state.error = none →
      P (job.write time times p a).log)
    {as : List Artifact} (hp : job.Settled fs p.log) (h : (as.foldl (job.write time times) p).state.error = none)
    (hlog : P p.log) : P (as.foldl (job.write time times) p).log := by
  induction as generalizing p with
  | nil => exact hlog
  | cons a as ih =>
    have hwrite : (job.write time times p a).state.error = none := Job.error_of_foldl_write h
    exact ih (Job.write_of_not_failed hp hwrite).2.2.1 h (hstep p a hp hlog hwrite)

/-- An artifact below the place of the log has been written: a directory is there, so the log never gets its file. -/
private theorem Job.Poised.idle (h : job.Poised p.log) (hp : job.Settled fs p.log)
    (hwrite : (job.write time times p a).state.error = none) (hpath : (a.path p.state.result.config).isEmpty = false)
    (hq : q = fs.placeOf job.config.logFile) (habove : q <+: fs.placeOf (a.path p.state.result.config))
    (hne : q ≠ fs.placeOf (a.path p.state.result.config)) (hbelow : ¬ q <+: fs.start) :
    job.Idle (job.write time times p a).log ∧ (job.write time times p a).log.files.node? q = some .directory := by
  obtain ⟨-, -, s, fs', records, hleft, hminor, hlog⟩ := Job.write_eq_of_not_failed hwrite
  have hdir : fs'.node? q = some .directory := by
    rcases hleft.cases with ⟨hempty, -⟩ | ⟨-, -, text, -, hwrites⟩
    · rw [hpath] at hempty
      cases hempty
    · rw [← Files.placeOf_congr hp.start_eq] at habove hne
      exact hwrites.directory_above habove hne (by rw [hp.start_eq]; exact hbelow)
  obtain ⟨hsettled, hfiles⟩ := hp.afterArtifact hleft.directories.1 s a
  have hidle : job.Idle (Command.afterArtifact s a { p.log with files := fs' }) := by
    refine (h.afterArtifact (grows_of_left hleft) s a).imp_right fun hdecided => hdecided.resolve_left ?_
    rintro ⟨text, hfile⟩
    rw [Files.placeOf_congr hsettled.start_eq, ← hq, hfiles, hdir] at hfile
    cases hfile
  obtain ⟨hlater, hgrows⟩ := hidle.log hminor
  rw [hfiles] at hgrows
  rw [hlog]
  exact ⟨hlater, hgrows.directory q hdir⟩

/-- The directory stays to the end of a synthesis that has not failed. -/
private theorem Job.Poised.directory_of_conclude (h : job.Poised p.log) (hp : job.Settled fs p.log)
    (hconclude : (job.conclude time times p).state.error = none)
    (hpath : (a.path p.state.result.config).isEmpty = false) (hq : q = fs.placeOf job.config.logFile)
    (habove : q <+: fs.placeOf (a.path p.state.result.config))
    (hne : q ≠ fs.placeOf (a.path p.state.result.config)) (hbelow : ¬ q <+: fs.start) :
    (job.conclude time times p).log.files.node? q = some .directory := by
  obtain ⟨-, before, after, -, hbefore, hwrite, hdone, heq, -⟩ := Job.conclude_split hconclude a
  -- up to the artifact the log is poised, and from then on it is idle
  have hpoised := Job.foldl_write_invariant (fun p a hp hpoised hwrite => hpoised.write hp hwrite) hp hbefore h
  obtain ⟨hresult, hsettled, -⟩ := Job.foldl_write_of_not_failed hp hbefore
  rw [← hresult] at hpath habove hne
  have hidle := hpoised.idle hsettled hwrite hpath hq habove hne hbelow
  have hlater := Job.foldl_write_invariant (P := fun o => job.Idle o ∧ o.files.node? q = some .directory)
    (fun p a hp hidle hwrite =>
      have hnext := hidle.1.write hp hwrite
      ⟨hnext.1, hnext.2.directory q hidle.2⟩)
    (Job.write_of_not_failed hsettled hwrite).2.2.1 hdone hidle
  rw [heq]
  generalize after.foldl (job.write time times) _ = done at hlater ⊢
  obtain ⟨records, hrecords, hminor⟩ := Run.State.logs_noteEnd times done.state
  rw [Job.advance, hrecords, List.drop_left]
  exact (hlater.1.log hminor).2.directory q hlater.2

/-- A log that leads downwards buries no artifact. -/
theorem Job.not_buries_of_conclude {sup : Run.Supervision} {s : State} (hsearch : Run.search job.config sup = .ok s)
    (hlogs : job.LogsDown time fs s)
    (h : (job.conclude time times ⟨s, job.log time (.start fs) s.logs⟩).state.error = none)
    (hpath : (a.path job.config).isEmpty = false) (halone : a.Alone fs job.config) :
    ¬ (job.conclude time times ⟨s, job.log time (.start fs) s.logs⟩).log.files.Buries (fs.placeOf job.config.logFile)
      (fs.placeOf (a.path job.config)) := by
  have hconfig : s.result.config = job.config := (Run.search_eq_ok hsearch).1
  have hp := job.settled_log_start time fs s.logs
  rintro ⟨habove, -, text, hfile⟩
  have hdir : (job.conclude time times ⟨s, job.log time (.start fs) s.logs⟩).log.files.node?
      (fs.placeOf job.config.logFile) = some .directory := by
    cases hlogFile : job.config.logFile.isEmpty with
    | true =>
      obtain ⟨-, -, hstart, -⟩ := Job.conclude_of_not_failed hp hconfig h
      rw [Files.placeOf_of_isEmpty hlogFile, ← hstart]
      exact if_pos (Or.inl rfl)
    | false =>
      exact (Job.poised_of_search hsearch hlogs hlogFile).directory_of_conclude hp h (hconfig ▸ hpath) rfl
        (hconfig ▸ habove) (hconfig ▸ halone.log hlogFile) (hlogs hlogFile).1.below
  rw [hdir] at hfile
  cases hfile

end Command

end CliffordT
