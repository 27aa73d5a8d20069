import CliffordT.Command.Execute
import CliffordT.Proofs.Acceptance
import CliffordT.Proofs.SynthesisFiles
import CliffordT.Proofs.WrittenWords

/-!
# Strict commands

A strict command ends well only if its table has no gaps and passes both verifications (`Verify.Flawless`); otherwise it
reports that and has done the rest of its work as it would have done with a lenient judgement.  The judgement counts the
found buckets and the mismatches, which for well-formed tables is the same (`strictFails_iff`).  A flawless table has a
word for every slot (`Verify.Flawless.notFound_not_mem`), and reading the file of its words gives them back
(`HoldsWords`).
-/

namespace CliffordT.Verify

/-- A table without gaps that passes both verifications. -/
structure Flawless (epsilon : Float) (t : DoubleTable) : Prop where
  found (b : Nat) : b < t.phaseCount → t.entry? b ≠ none
  canonical : (Verify.canonical (.within epsilon) t).mismatches = []
  expanded : (Verify.expanded (.within epsilon) t t.expand).mismatches = []

variable {epsilon : Float} {t : DoubleTable}

/-- Every slot of a flawless table has a word. -/
theorem Flawless.notFound_not_mem (h : Flawless epsilon t) (ht : t.WellFormed) :
    "NOT_FOUND" ∉ t.expand.map Word.text := by
  intro hmem
  obtain ⟨w, hw, htext⟩ := List.mem_map.1 hmem
  obtain ⟨s, hs, rfl⟩ := List.mem_map.1 hw
  have hbucket : s % t.phaseCount < t.phaseCount := Nat.mod_lt s ht.phaseCount_pos
  obtain ⟨e, he⟩ := Option.ne_none_iff_exists'.1 (h.found _ hbucket)
  have hok : (Verify.expanded (.within epsilon) t t.expand).ok = true := List.isEmpty_iff.2 h.expanded
  have hcheck := (expanded_ok_iff _ t).1 hok s (List.mem_range.1 hs) e he
  -- a word that cannot be replayed is a mismatch
  obtain ⟨m, hreplay, -⟩ := (checkWord_within_eq_none_iff ..).1 hcheck
  exact (Word.overGates_of_replay hreplay).text_ne htext

end CliffordT.Verify

namespace CliffordT.Command

open Verify (Flawless)

variable {epsilon : Float} {t : DoubleTable} {fs : Files}

/-- The judgement finds a fault just if the table is not flawless. -/
theorem strictFails_iff (ht : t.WellFormed) :
    strictFails t ((Verify.canonical (.within epsilon) t).mismatches.length +
      (Verify.expanded (.within epsilon) t t.expand).mismatches.length) = true ↔ ¬ Flawless epsilon t := by
  have hcomplete := ht.complete_iff_forall
  unfold strictFails
  rw [Bool.or_eq_true, Bool.not_eq_true', decide_eq_true_iff]
  constructor
  · rintro (hgap | hmismatch) hflawless
    · rw [hcomplete.2 hflawless.found] at hgap
      cases hgap
    · rw [hflawless.canonical, hflawless.expanded] at hmismatch
      exact absurd hmismatch (by decide)
  · intro hnot
    by_contra hpasses
    rw [not_or, Bool.not_eq_false, Nat.not_lt, Nat.le_zero, Nat.add_eq_zero_iff] at hpasses
    obtain ⟨hall, hcanonical, hexpanded⟩ := hpasses
    exact hnot ⟨hcomplete.1 hall, List.length_eq_zero_iff.1 hcanonical, List.length_eq_zero_iff.1 hexpanded⟩

/-! ### Codes -/

private theorem Exit.code_eq_zero_iff {e : Exit} : e.code = 0 ↔ e = .done := by
  cases e <;> decide

private theorem Exit.code_eq_three_iff {e : Exit} : e.code = 3 ↔ e = .strict := by
  cases e <;> decide

private theorem failureExit_cases (e : Run.RunError) : failureExit e = .unfit ∨ failureExit e = .failed := by
  cases e with
  | unfit e => exact Or.inl rfl
  | interrupted stage i => exact Or.inr rfl
  | artifact e => exact Or.inr rfl

/-! ### The files -/

/-- The file at a path holds the words of all slots of a table: reading it gives their strings, in YAML if that format
returns the list that it was given. -/
def HoldsWords (fs : Files) (path : RawText) (t : DoubleTable) : Prop :=
  ∃ format text, Format.ofPath path = .ok format ∧ fs.node? (fs.placeOf path) = some (.file text) ∧
    text = Artifact.wordsText t.expand format ∧
    ((format = .yaml → Yaml.Returns (t.expand.map Word.text)) → format.strings? text = some (t.expand.map Word.text))

private theorem holdsWords_of_node? {path : RawText} {format : Format} (hformat : Format.ofPath path = .ok format)
    (hnode : fs.node? (fs.placeOf path) = some (.file (Artifact.wordsText t.expand format))) : HoldsWords fs path t :=
  ⟨format, _, hformat, hnode, rfl, Artifact.strings?_wordsText t.expand⟩

/-- The file at a path holds the record of a table. -/
def HoldsRecord (fs : Files) (path : RawText) (t : DoubleTable) : Prop :=
  ∃ format text, Format.ofPath path = .ok format ∧ Diagnostics.text? format (.ofTable t) = some text ∧
    fs.node? (fs.placeOf path) = some (.file text)

/-! ### Synthesis -/

section

variable {job : Job} {time : String} {times : Run.Times} {sup : Run.Supervision}

/-- What is done between the search and the judgement. -/
def Job.concluded (job : Job) (time : String) (times : Run.Times) (fs : Files) (s : Run.State) : Progress :=
  job.conclude time times ⟨s, job.log time (Log.Output.start fs) s.logs⟩

private theorem Job.exit_of_failed {s : Run.State} {p : Progress} (hp : job.concluded time times fs s = p)
    {e : Run.RunError} (h : p.state.error = some e) : (job.finish time times fs (.ok s)).exit = failureExit e := by
  unfold Job.finish
  dsimp only
  rw [show job.conclude time times ⟨s, job.log time (.start fs) s.logs⟩ = p from hp]
  unfold Job.verdict Run.State.outcome
  dsimp only
  rw [h]
  rfl

/-- The judgement on a synthesis that has not failed. -/
private theorem Job.finish_of_not_failed {s : Run.State} {p : Progress} (hp : job.concluded time times fs s = p)
    (h : p.state.error = none) :
    (job.finish time times fs (.ok s)).files = p.log.files ∧ (job.finish time times fs (.ok s)).exit =
      if job.config.strict && strictFails p.state.result.table p.state.result.mismatches then .strict else .done := by
  unfold Job.finish
  dsimp only
  rw [show job.conclude time times ⟨s, job.log time (.start fs) s.logs⟩ = p from hp]
  unfold Job.verdict Run.State.outcome
  dsimp only
  rw [h]
  dsimp only
  by_cases hstrict : (job.config.strict && strictFails p.state.result.table p.state.result.mismatches) = true
  · rw [if_pos hstrict, if_pos hstrict]
    exact ⟨rfl, rfl⟩
  · rw [if_neg hstrict, if_neg hstrict]
    exact ⟨rfl, rfl⟩

private theorem Job.concluded_lenient (job : Job) (time : String) (times : Run.Times) (fs : Files) (s : Run.State) :
    job.lenient.concluded time times fs s.lenient = (job.concluded time times fs s).lenient :=
  job.conclude_lenient time times ⟨s, job.log time (.start fs) s.logs⟩

/-- A synthesis that ends well or for its strictness alone has not failed. -/
private theorem Job.not_failed_of_exit {searched : Except Run.Unfit Run.State}
    (h : (job.finish time times fs searched).exit = .done ∨ (job.finish time times fs searched).exit = .strict) :
    ∃ s, searched = .ok s ∧ (job.concluded time times fs s).state.error = none := by
  cases searched with
  | error e => exact absurd h (by simp [Job.finish, Job.verdict, Reply.failed, failureExit])
  | ok s =>
    refine ⟨s, rfl, ?_⟩
    cases herror : (job.concluded time times fs s).state.error with
    | none => rfl
    | some e =>
      rw [Job.exit_of_failed rfl herror] at h
      rcases failureExit_cases e with he | he
      all_goals
        rw [he] at h
        simp at h

/-- An artifact that stands alone is in its file at the end. -/
private theorem Job.holds_artifact {s : Run.State} (hsearch : Run.search job.config sup = .ok s)
    (h : (job.concluded time times fs s).state.error = none) (a : Run.Artifact) :
    let reply := job.finish time times fs (.ok s)
    (a.path job.config).isEmpty = false → a.Alone fs job.config →
      job.LogsDown time fs s ∨
        ¬ reply.files.Buries (fs.placeOf job.config.logFile) (fs.placeOf (a.path job.config)) →
      ∃ text, a.Text times s.result text ∧
        reply.files.node? (reply.files.placeOf (a.path job.config)) = some (.file text) := by
  intro reply hpath halone hlogs
  have hsettled := job.settled_log_start time fs s.logs
  obtain ⟨-, -, hstart, hleft⟩ := Job.conclude_of_not_failed hsettled (Run.search_eq_ok hsearch).1 h
  obtain ⟨text, htext, hkept⟩ := hleft a hpath halone
  have hfiles : reply.files = (job.concluded time times fs s).log.files := (Job.finish_of_not_failed rfl h).1
  rw [hfiles] at hlogs ⊢
  rw [show (job.concluded time times fs s).log.files.placeOf _ = fs.placeOf _ from Files.placeOf_congr hstart _]
  refine ⟨text, htext, hkept.resolve_right ?_⟩
  rcases hlogs with hdown | hbare
  · exact Job.not_buries_of_conclude hsearch hdown h hpath halone
  · exact hbare

/-- What a synthesis leaves that ends well or for its strictness alone. -/
private theorem Job.judged {s : Run.State} (hsearch : Run.search job.config sup = .ok s)
    (h : (job.concluded time times fs s).state.error = none) :
    let reply := job.finish time times fs (.ok s)
    let t := s.result.table
    s.error = none ∧ t.WellFormed ∧ (t.points : Int) = job.config.points ∧
      (reply.exit = .strict ↔ job.config.strict = true ∧ ¬ Flawless job.config.epsilon t) ∧
      (job.config.diagnostics.isEmpty = false → Run.Artifact.diagnostics.Alone fs job.config →
        job.LogsDown time fs s ∨
          ¬ reply.files.Buries (fs.placeOf job.config.logFile) (fs.placeOf job.config.diagnostics) →
        HoldsRecord reply.files job.config.diagnostics t) ∧
      (job.config.table.isEmpty = false → Run.Artifact.table.Alone fs job.config →
        job.LogsDown time fs s ∨ ¬ reply.files.Buries (fs.placeOf job.config.logFile) (fs.placeOf job.config.table) →
        HoldsWords reply.files job.config.table t) := by
  intro reply t
  obtain ⟨hconfig, -, t₀, cs, hnew, -, htable⟩ := Run.search_eq_ok hsearch
  have hwf : t.WellFormed := by
    show s.result.table.WellFormed
    rw [htable]
    exact Table.wellFormed_foldl_offer hnew cs
  have hpoints : (t.points : Int) = job.config.points := by
    obtain ⟨hpos, -, rfl⟩ := Table.new_eq_ok hnew
    show (s.result.table.points : Int) = _
    rw [htable, Table.points_foldl_offer]
    exact Int.toNat_of_nonneg (Int.le_of_lt hpos)
  have hsettled := job.settled_log_start time fs s.logs
  obtain ⟨hnone, hresult, -⟩ := Job.conclude_of_not_failed hsettled hconfig h
  obtain ⟨-, hexit⟩ := Job.finish_of_not_failed rfl h
  have hresult : (job.concluded time times fs s).state.result = s.result := hresult
  have hchecked := Run.checked_of_search hsearch hnone
  have hfull : s.result.full = some t.expand := congrArg Run.Result.full hchecked.symm
  have hmismatches : s.result.mismatches = (Verify.canonical (.within job.config.epsilon) t).mismatches.length +
      (Verify.expanded (.within job.config.epsilon) t t.expand).mismatches.length := by
    rw [← hconfig]
    exact congrArg Run.Result.mismatches hchecked.symm
  refine ⟨hnone, hwf, hpoints, ?_, fun hpath halone hlogs => ?_, fun hpath halone hlogs => ?_⟩
  · rw [show reply.exit = _ from hexit, hresult, hmismatches, ← strictFails_iff hwf, ← Bool.and_eq_true]
    split
    · rename_i hstrict
      exact iff_of_true rfl hstrict
    · rename_i hstrict
      exact iff_of_false (by decide) hstrict
  · obtain ⟨text, ⟨format, hformat, htext⟩, hnode⟩ := Job.holds_artifact hsearch h .diagnostics hpath halone hlogs
    rw [hconfig] at hformat
    exact ⟨format, text, hformat, htext, hnode⟩
  · obtain ⟨text, ⟨format, hformat, htext⟩, hnode⟩ := Job.holds_artifact hsearch h .table hpath halone hlogs
    rw [hconfig] at hformat
    rw [hfull] at htext
    exact holdsWords_of_node? hformat (hnode.trans (by rw [← htext]; rfl))

/-- With a lenient judgement the same synthesis ends well and leaves the same files. -/
private theorem Job.finish_lenient {s : Run.State} (h : (job.concluded time times fs s).state.error = none) :
    (job.lenient.finish time times fs (.ok s.lenient)).exit = .done ∧
      (job.lenient.finish time times fs (.ok s.lenient)).files = (job.finish time times fs (.ok s)).files := by
  obtain ⟨hfiles, -⟩ := Job.finish_of_not_failed rfl h
  obtain ⟨hfiles', hexit'⟩ := Job.finish_of_not_failed (Job.concluded_lenient job time times fs s) h
  exact ⟨hexit', hfiles'.trans hfiles.symm⟩

end

/-! ### Expanding -/

/-- What the expansion of a record leaves that can be loaded, if its words can be written. -/
private theorem expandTable_judged {table : RawText} {fs' : Files} (ht : t.WellFormed)
    (hwrite : writeWords fs table t.expand = .ok fs') (eastAsian : Bool) (epsilon : Float) (strict : Bool) :
    let reply := expandTable eastAsian fs t table epsilon strict
    reply.files = fs' ∧ (reply.exit = .strict ↔ strict = true ∧ ¬ Flawless epsilon t) ∧
      (reply.exit = .done ↔ ¬ (strict = true ∧ ¬ Flawless epsilon t)) := by
  intro reply
  have hreply : reply = expandTable eastAsian fs t table epsilon strict := rfl
  unfold expandTable at hreply
  rw [← strictFails_iff ht, ← Bool.and_eq_true]
  dsimp only at hreply
  rw [hwrite] at hreply
  dsimp only at hreply
  rw [hreply]
  split
  · rename_i hstrict
    exact ⟨rfl, iff_of_true rfl hstrict, iff_of_false (by simp [Reply.failed, strictFailure]) (not_not.2 hstrict)⟩
  · rename_i hstrict
    exact ⟨rfl, iff_of_false (by simp) hstrict, iff_of_true rfl hstrict⟩

private theorem holdsWords_of_writeWords {table : RawText} {fs' : Files} (h : writeWords fs table t.expand = .ok fs')
    (htable : table.isEmpty = false) : HoldsWords fs' table t := by
  rw [writeWords, if_neg (by simp [htable])] at h
  obtain ⟨format, hformat, hput⟩ := Artifact.writeTable_eq_ok h
  have hwrites := Artifact.writes_of_place hput
  refine holdsWords_of_node? hformat ?_
  rw [Files.placeOf_congr hwrites.start_eq]
  exact hwrites.holds

/-- The expansion of a record that ends well or for its strictness alone has loaded it and written its words. -/
private theorem exists_of_exit_expandRecord {eastAsian strict : Bool} {path table : RawText}
    (h : (expandRecord eastAsian fs path table epsilon strict).exit = .done ∨
      (expandRecord eastAsian fs path table epsilon strict).exit = .strict) :
    ∃ t fs', Artifact.loadTable fs path = .ok t ∧ t.WellFormed ∧ writeWords fs table t.expand = .ok fs' ∧
      ∀ strict', expandRecord eastAsian fs path table epsilon strict' =
        expandTable eastAsian fs t table epsilon strict' := by
  cases hload : Artifact.loadTable fs path with
  | error e =>
    unfold expandRecord at h
    simp only [hload] at h
    cases e <;> simp [Reply.failed, recordExit] at h
  | ok t =>
    obtain ⟨points, es, hmade⟩ := Verify.exists_ofEntries_of_loadTable hload
    have ht : t.WellFormed := Table.wellFormed_of_made (Or.inr hmade) []
    have heq (strict' : Bool) : expandRecord eastAsian fs path table epsilon strict' =
        expandTable eastAsian fs t table epsilon strict' := by
      unfold expandRecord
      simp only [hload]
    cases hwrite : writeWords fs table t.expand with
    | error e =>
      rw [heq] at h
      unfold expandTable at h
      simp [hwrite, Reply.failed] at h
    | ok fs' => exact ⟨t, fs', rfl, ht, hwrite, heq⟩

/-! ### Command lines -/

private theorem execute_of_request {args : List String} {r : Request} (h : request args = .ok r)
    (outside : Surroundings) (fs : Files) : execute outside fs args = perform outside fs r := by
  rw [execute, h]

private theorem execute_of_load {args : List String} {a : Arguments} {job : Job} {outside : Surroundings}
    (h : request args = .ok (.synthesize a)) (hload : Job.load fs outside.environment outside.runId a = .ok job) :
    execute outside fs args = job.finish outside.time outside.times fs
      (Run.search job.config (outside.supervise job.config.timeout)) := by
  rw [execute_of_request h, perform, synthesize, hload]

section

variable {known : List Flag} {args : List String}

private theorem words_eq_nil (h : ∀ arg ∈ args, takesNext known arg = false ∧ isWord arg = false) :
    words known args = [] := by
  induction args with
  | nil => rw [words]
  | cons arg args ih =>
    obtain ⟨hnext, hword⟩ := h arg List.mem_cons_self
    rw [words.eq_def]
    simp [hnext, hword, ih fun arg harg => h arg (List.mem_cons_of_mem _ harg)]

private theorem name_helpFlag (verb : Verb) : verb.helpFlag.name = "help" := rfl

/-- Arguments that are flags by themselves ask for a synthesis. -/
private theorem request_synthesize {a : Arguments}
    (h : ∀ arg ∈ args, takesNext (Verb.flags .synthesize) arg = false ∧ isWord arg = false)
    (hread : readArguments (Verb.flags .synthesize ++ [Verb.helpFlag .synthesize]) args = .ok a)
    (hhelp : a.switch "help" = false) : request args = .ok (.synthesize a) := by
  have hwords := words_eq_nil h
  have hfind : findVerb args = .ok (.synthesize, args) := by
    rw [findVerb, Verb.next?, hwords]
    rfl
  rw [request, hfind]
  simp [bind, Except.bind, hread, Verb.request, name_helpFlag, hhelp]

/-- Arguments behind the name of the command ask for an expansion. -/
private theorem request_expand {a : Arguments} {path : String}
    (hread : readArguments (Verb.flags .expand ++ [Verb.helpFlag .expand]) args = .ok a)
    (hhelp : a.switch "help" = false)
    (hrest : a.rest = [path]) :
    request ("expand" :: args) = .ok (.expand path (a.text "table") (a.number "epsilon" Config.default.epsilon)
      (a.switch "strict")) := by
  have hnext : takesNext (Verb.flags .synthesize) "expand" = false := by
    rw [takesNext, String.contains_char_eq]
    decide +kernel
  have hword : isWord "expand" = true := by decide +kernel
  have hwords : words (Verb.flags .synthesize) ("expand" :: args) =
      "expand" :: words (Verb.flags .synthesize) args := by
    rw [words.eq_def]
    simp [hnext, hword]
  have hown : without (Verb.flags .synthesize) "expand" ("expand" :: args) = args := by
    rw [without.eq_def]
    simp [hnext, hword]
  have hnone : Verb.next? .expand args = none := by
    unfold Verb.next?
    cases (words (Verb.flags .expand) args).head? <;> rfl
  have hsome : Verb.next? .synthesize ("expand" :: args) = some (.expand, args) := by
    rw [Verb.next?, hwords]
    show (some (Verb.expand, without (Verb.flags .synthesize) "expand" ("expand" :: args))) = _
    rw [hown]
  have hfind : findVerb ("expand" :: args) = .ok (.expand, args) := by
    rw [findVerb, hsome]
    dsimp only
    rw [hnone]
    rfl
  rw [request, hfind]
  simp [bind, Except.bind, hread, Verb.request, name_helpFlag, hhelp, hrest]

end

/-- The synthesis that arguments ask for which are flags by themselves. -/
def Job.ofFlags? (fs : Files) (environment : List (String × String)) (runId : String) (args : List String) :
    Option Job :=
  (readArguments (Verb.flags .synthesize ++ [Verb.helpFlag .synthesize]) args).toOption.bind fun a =>
    if a.switch "help" then none else (Job.load fs environment runId a).toOption

private theorem exists_request_of_ofFlags? {fs : Files} {environment : List (String × String)} {runId : String}
    {args : List String} {job : Job}
    (h : ∀ arg ∈ args, takesNext (Verb.flags .synthesize) arg = false ∧ isWord arg = false)
    (hjob : Job.ofFlags? fs environment runId args = some job) :
    ∃ a, request args = .ok (.synthesize a) ∧ Job.load fs environment runId a = .ok job := by
  obtain ⟨a, hread, hload⟩ := Option.bind_eq_some_iff.1 hjob
  split at hload
  · cases hload
  · rename_i hhelp
    exact ⟨a, request_synthesize h (Artifact.eq_ok_of_toOption hread) (by simpa using hhelp),
      Artifact.eq_ok_of_toOption hload⟩

/-- A strict synthesis whose record and words have places of their own ends with a code, and with a directory at the
place of its log. -/
def Job.EndsStrictly (outside : Surroundings) (fs : Files) (code : Nat) (job : Job) : Prop :=
  let c := job.config
  let reply := job.finish outside.time outside.times fs (Run.search c (outside.supervise c.timeout))
  c.strict = true ∧ Run.Artifact.diagnostics.Alone fs c ∧ Run.Artifact.table.Alone fs c ∧
    reply.files.node? (fs.placeOf c.logFile) = some .directory ∧ reply.exit.code = code

instance (outside : Surroundings) (fs : Files) (code : Nat) (job : Job) :
    Decidable (job.EndsStrictly outside fs code) :=
  inferInstanceAs (Decidable (_ ∧ _))

end CliffordT.Command
