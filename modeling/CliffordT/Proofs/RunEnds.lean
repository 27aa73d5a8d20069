import CliffordT.Proofs.InterruptedPasses
import CliffordT.Proofs.SavedArtifacts

/-!
# How a run ends

A run fails before its first pass, or in one of its passes, or it comes to writing its artifacts.  In the first two
cases it has touched no files.  In the third its table is expanded and verified (`Result.checked`), and the artifacts
are written in order, up to the first that fails (`Result.saved`, `run_cases`); those before it are in their files
(`Outcome.Saves`).

* A pass that is out of time does not fail the run, as long as the caller has not given up: the table is the one made of
  the candidates before that poll, and the run goes on with it (`failed_runs_leave_no_trace`).
* A path with an unknown extension is found out only when its artifact is to be written: the artifacts behind it are not
  written, but those before it are (`unknown_format_keeps_earlier_artifacts`).
-/

namespace CliffordT.Run

open Search (Stage Interrupt)

variable {c : Config} {sup : Supervision} {times : Times} {fs : Files} {s : State}

/-! ### The passes of a run -/

theorem validate_of_start (h : start c = .ok s) : c.validate = .ok () := by
  cases hvalid : c.validate with
  | ok u => rfl
  | error e =>
    simp only [start, prepare, hvalid, Except.mapError, bind, Except.bind] at h
    cases h

/-- A run before its first pass. -/
theorem eq_of_start (h : start c = .ok s) :
    s.error = none ∧ s.result.config = c ∧ s.result.meet = none ∧ s.buffer.filled = 0 ∧ s.epsilon = c.epsilon ∧
      s.options.checkEvery = firstPoll := by
  obtain ⟨precision, hstart⟩ := start_of_validate (validate_of_start h)
  obtain rfl := Except.ok.inj (hstart.symm.trans h)
  exact ⟨rfl, rfl, rfl, rfl, rfl, rfl⟩

theorem run_of_start (h : start c = .ok s) (sup : Supervision) (times : Times) (fs : Files) :
    run c sup times fs = conclude times fs (secondPass sup (firstPass sup s)).verified := by
  rw [run, search, h]
  rfl

/-- The passes that a run makes from its start. -/
def passes (sup : Supervision) (s : State) : List (Search.Pass DoubleTable Log.Record) :=
  let s₁ := firstPass sup s
  (Search.exhaustive (s.setup sup) s.buffer s.result.table s.polls).2 ::
    if s₁.needsMeet = true ∧ s₁.result.config.skipMeet = false then
      [(Search.meetInTheMiddle (s₁.setup sup) s₁.buffer s₁.result.table s₁.polls).2.1]
    else []

/-- The candidates of the sources before the one with the given number, in one of the passes. -/
def offersBefore (probe : Probe Matrix Float Float) (b : Buffer Matrix) : Stage → Nat → List DoubleCandidate
  | .exhaustive, n => Search.firstOffers probe b n
  | .meetInTheMiddle, n =>
    Search.firstOffers probe b b.capacity ++
      ((pairSources b.longest b.capacity).take n).flatMap (probe.hits b.fillAll)

private theorem budgetSpent_iff {polls : Nat} {i : Interrupt} :
    budgetSpent sup polls i = true ↔ i = .deadlineExceeded ∧ sup.caller polls = none := by
  simp [budgetSpent]

/-- A pass that is out of time ends the search but does not fail the run. -/
private theorem State.after_of_budgetSpent {p : Search.Pass DoubleTable Log.Record} {i : Interrupt}
    (h : p.interrupt = some i)
    (hspent : budgetSpent sup p.polls i = true) (s : State) (b : Buffer Matrix) (finished : String) :
    (s.after sup b p finished).error = s.error ∧
      (s.after sup b p finished).result = { s.result with table := p.sink, timedOut := true } := by
  simp [State.after, h, hspent, State.log]

private theorem State.error_after_cases (sup : Supervision) (s : State) (b : Buffer Matrix)
    (p : Search.Pass DoubleTable Log.Record) (finished : String) :
    (s.after sup b p finished).error = s.error ∨
      ∃ stage i, (s.after sup b p finished).error = some (.interrupted stage i) := by
  cases hi : p.interrupt with
  | none => exact Or.inl (State.error_after_of_not_interrupted hi ..)
  | some i =>
    cases hspent : budgetSpent sup p.polls i with
    | true => exact Or.inl (State.after_of_budgetSpent hi hspent ..).1
    | false => exact Or.inr ⟨_, _, State.error_after_of_not_budgetSpent hi hspent ..⟩

/-- The passes of a run fail only if they are interrupted. -/
theorem error_passes_cases (hs : s.error = none) (sup : Supervision) :
    (secondPass sup (firstPass sup s)).error = none ∨
      ∃ stage i, (secondPass sup (firstPass sup s)).error = some (.interrupted stage i) := by
  have hfirst : (firstPass sup s).error = none ∨ ∃ stage i, (firstPass sup s).error = some (.interrupted stage i) := by
    rw [← hs]
    exact State.error_after_cases ..
  by_cases hneeds : (firstPass sup s).needsMeet = true ∧ (firstPass sup s).result.config.skipMeet = false
  · rw [secondPass_of_needed hneeds.1 hneeds.2]
    rcases State.error_after_cases sup _ _ _ _ with herror | hfailed
    · rw [herror]
      exact hfirst
    · exact Or.inr hfailed
  · obtain ⟨s', hleft, -, herror⟩ := secondPass_of_not_needed hneeds
    rw [hleft, herror]
    exact hfirst

/-- A run fails for its parameters, or in a pass, or it ends with the artifacts of its result. -/
theorem run_cases (c : Config) (sup : Supervision) (times : Times) (fs : Files) :
    let o := run c sup times fs
    ((∃ e, o.error = some (.unfit e)) ∨ ∃ stage i, o.error = some (.interrupted stage i)) ∧ o.files = fs ∨
      ∃ s, start c = .ok s ∧ (secondPass sup (firstPass sup s)).error = none ∧
        o.Concludes times fs (secondPass sup (firstPass sup s)).result := by
  dsimp only
  cases hstart : start c with
  | error e =>
    rw [run, search, hstart]
    exact Or.inl ⟨Or.inl ⟨e, rfl⟩, rfl⟩
  | ok s =>
    rw [run_of_start hstart]
    rcases error_passes_cases (eq_of_start hstart).1 sup with hnone | ⟨stage, i, hfailed⟩
    · exact Or.inr ⟨s, rfl, hnone, concludes_of_no_error hnone times fs⟩
    · obtain ⟨herror, hfiles⟩ := conclude_of_error hfailed times fs
      exact Or.inl ⟨Or.inr ⟨stage, i, herror⟩, hfiles⟩

private theorem error_of_search (h : search c sup = .ok s) :
    s.error = none ∨ ∃ stage i, s.error = some (.interrupted stage i) := by
  cases hstart : start c with
  | error e =>
    rw [search, hstart] at h
    cases h
  | ok s₀ =>
    rw [search, hstart] at h
    obtain rfl : (secondPass sup (firstPass sup s₀)).verified = s := Except.ok.inj h
    obtain ⟨logs, full, canonical, expanded, hverified⟩ := State.verified_eq (secondPass sup (firstPass sup s₀))
    rw [hverified]
    exact error_passes_cases (eq_of_start hstart).1 sup

/-- The table of a search that has not failed is expanded and verified. -/
theorem checked_of_search (h : search c sup = .ok s) (hs : s.error = none) : s.result.checked = s.result := by
  cases hstart : start c with
  | error e =>
    rw [search, hstart] at h
    cases h
  | ok s₀ =>
    rw [search, hstart] at h
    obtain rfl : (secondPass sup (firstPass sup s₀)).verified = s := Except.ok.inj h
    generalize secondPass sup (firstPass sup s₀) = s₁ at hs
    have hnone : s₁.error = none := by
      obtain ⟨logs, full, canonical, expanded, hverified⟩ := State.verified_eq s₁
      rwa [hverified] at hs
    obtain ⟨logs, hverified⟩ := verified_of_no_error hnone
    rw [hverified]
    rfl

private theorem mem_passes {p : Search.Pass DoubleTable Log.Record} (h : p ∈ passes sup s) :
    p = (Search.exhaustive (s.setup sup) s.buffer s.result.table s.polls).2 ∨
      ((firstPass sup s).needsMeet = true ∧ (firstPass sup s).result.config.skipMeet = false) ∧
        p = (Search.meetInTheMiddle ((firstPass sup s).setup sup) (firstPass sup s).buffer
          (firstPass sup s).result.table (firstPass sup s).polls).2.1 := by
  unfold passes at h
  dsimp only at h
  split at h
  · rename_i hneeds
    rcases List.mem_cons.1 h with rfl | hp
    · exact Or.inl rfl
    · exact Or.inr ⟨hneeds, List.mem_singleton.1 hp⟩
  · exact Or.inl (List.mem_singleton.1 h)

/-- The second pass follows only a first pass that was not interrupted and left the table incomplete. -/
private theorem first_of_needsMeet (hneeds : (firstPass sup s).needsMeet = true) :
    let first := (Search.exhaustive (s.setup sup) s.buffer s.result.table s.polls).2
    first.interrupt = none ∧ first.stats.complete = false ∧ (firstPass sup s).error = none := by
  dsimp only
  rw [State.needsMeet, Bool.and_eq_true, Bool.and_eq_true, Bool.not_eq_true', Bool.not_eq_true'] at hneeds
  obtain ⟨⟨herror, hcomplete⟩, htimed⟩ := hneeds
  have herror := Option.isNone_iff_eq_none.1 herror
  refine ⟨?_, ?_, herror⟩
  · cases hi : (Search.exhaustive (s.setup sup) s.buffer s.result.table s.polls).2.interrupt with
    | none => rfl
    | some i =>
      rw [firstPass] at herror htimed
      cases hspent : budgetSpent sup (Search.exhaustive (s.setup sup) s.buffer s.result.table s.polls).2.polls i with
      | true =>
        rw [(State.after_of_budgetSpent hi hspent ..).2] at htimed
        cases htimed
      | false =>
        rw [State.error_after_of_not_budgetSpent hi hspent] at herror
        cases herror
  · rw [firstPass, State.exhaustive_after] at hcomplete
    exact hcomplete

/-- The pass stopped at a poll, at the step behind the first `n`, and its table is made of the candidates before. -/
structure FoundBefore (s : State) (p : Search.Pass DoubleTable Log.Record) (n : Nat) : Prop where
  steps : p.stats.steps = n + 1
  due : (n + 1) % firstPoll = 0
  offered : Table.sink.offerAll s.result.table (offersBefore (Probe.within s.epsilon) s.buffer p.stats.stage n) =
    (p.sink, false)

section

variable (hstart : start c = .ok s) {i : Interrupt}

include hstart

private theorem first_interrupted
    (hi : (Search.exhaustive (s.setup sup) s.buffer s.result.table s.polls).2.interrupt = some i) :
    let p := (Search.exhaustive (s.setup sup) s.buffer s.result.table s.polls).2
    p.stats.stage = .exhaustive ∧ ∃ n, FoundBefore s p n := by
  obtain ⟨-, -, -, hb, -, hcheck⟩ := eq_of_start hstart
  rcases Search.exhaustive_cases (s.setup sup) hb s.result.table s.polls with
    ⟨hnone, -⟩ | ⟨j, n, -, hstage, hsteps, hdue, hoffers⟩
  · rw [hnone] at hi
    cases hi
  · refine ⟨hstage, n, hsteps, ?_, ?_⟩
    · rw [← hcheck]
      exact hdue
    · rw [hstage]
      exact hoffers

private theorem second_interrupted (hneeds : (firstPass sup s).needsMeet = true)
    (hi : (Search.meetInTheMiddle ((firstPass sup s).setup sup) (firstPass sup s).buffer
      (firstPass sup s).result.table (firstPass sup s).polls).2.1.interrupt = some i) :
    let p := (Search.meetInTheMiddle ((firstPass sup s).setup sup) (firstPass sup s).buffer
      (firstPass sup s).result.table (firstPass sup s).polls).2.1
    p.stats.stage = .meetInTheMiddle ∧ ∃ n, FoundBefore s p n := by
  obtain ⟨-, -, -, hb, -, hcheck⟩ := eq_of_start hstart
  obtain ⟨hnone, hnot, -⟩ := first_of_needsMeet hneeds
  rcases Search.exhaustive_cases (s.setup sup) hb s.result.table s.polls with
    ⟨-, hoffers, hfull⟩ | ⟨j, n, hsome, -⟩
  · -- the first pass went through the whole buffer
    have hbuffer : (firstPass sup s).buffer = s.buffer.fillAll := (State.buffer_after ..).trans (hfull hnot).1
    have htable : Table.sink.offerAll s.result.table (Search.firstOffers (Probe.within s.epsilon) s.buffer
        s.buffer.capacity) = ((firstPass sup s).result.table, false) := by
      rw [firstPass, State.table_after, ← hnot]
      exact hoffers
    have hincomplete : Table.sink.complete (firstPass sup s).result.table = false := by
      have hcomplete := Table.sink.complete_offerAll_cons s.result.table Search.seed
        ((entrySources s.buffer.filled s.buffer.capacity).flatMap ((Probe.within s.epsilon).hits s.buffer.fillAll))
      rw [← Search.firstOffers, htable] at hcomplete
      exact hcomplete
    have hepsilon : (firstPass sup s).epsilon = s.epsilon := State.epsilon_after ..
    have hoptions : (firstPass sup s).options = s.options := State.options_after ..
    rw [hbuffer] at hi ⊢
    have hle : s.buffer.filled ≤ s.buffer.capacity := by omega
    rcases Search.meetInTheMiddle_cases ((firstPass sup s).setup sup) (Buffer.full_fillAll hle) hincomplete
      (firstPass sup s).polls with hnone' | ⟨j, n, -, hstage, hsteps, hdue, hoffers'⟩
    · rw [hnone'] at hi
      cases hi
    · refine ⟨hstage, n, hsteps, ?_, ?_⟩
      · rw [← hcheck, ← hoptions]
        exact hdue
      · rw [hstage, offersBefore, Sink.offerAll_append_of_not_complete (by rw [htable]), htable, ← hepsilon]
        rw [Buffer.longest_fillAll, Buffer.capacity_fillAll] at hoffers'
        exact hoffers'
  · rw [hnone] at hsome
    cases hsome

end

section

variable {p : Search.Pass DoubleTable Log.Record} (hp : p ∈ passes sup s) {i : Interrupt} (hi : p.interrupt = some i)

include hp hi

/-- A pass that is interrupted by the caller fails the run. -/
private theorem error_of_interrupted (hspent : budgetSpent sup p.polls i = false) :
    (secondPass sup (firstPass sup s)).error = some (.interrupted p.stats.stage i) := by
  rcases mem_passes hp with rfl | ⟨hneeds, rfl⟩
  · have hfailed : (firstPass sup s).error = _ := State.error_after_of_not_budgetSpent hi hspent ..
    obtain ⟨s', hleft, -, herror⟩ := secondPass_of_not_needed (s := firstPass sup s)
      (by simp [State.needsMeet, hfailed])
    rw [hleft, herror, hfailed]
  · rw [secondPass_of_needed hneeds.1 hneeds.2]
    exact State.error_after_of_not_budgetSpent hi hspent ..

/-- After a pass that is out of time the run has the table of that pass and makes no other pass. -/
private theorem result_of_budgetSpent (hstart : start c = .ok s) (hspent : budgetSpent sup p.polls i = true) :
    let s₂ := secondPass sup (firstPass sup s)
    s₂.error = none ∧ s₂.result.config = c ∧ s₂.result.table = p.sink ∧ s₂.result.timedOut = true ∧
      (p.stats.stage = .exhaustive → s₂.result.exhaustive = p.stats ∧ s₂.result.meet = none) ∧
      (p.stats.stage = .meetInTheMiddle → s₂.result.meet = some p.stats) := by
  obtain ⟨herror, hconfig, hmeet, -⟩ := eq_of_start hstart
  dsimp only
  rcases mem_passes hp with rfl | ⟨hneeds, rfl⟩
  · have hfirst : (firstPass sup s).error = _ ∧ (firstPass sup s).result = _ :=
      State.after_of_budgetSpent hi hspent ..
    obtain ⟨hstage, -⟩ := first_interrupted hstart hi
    obtain ⟨s', hleft, hresult, herror'⟩ := secondPass_of_not_needed (s := firstPass sup s)
      (by simp [State.needsMeet, hfirst.2])
    rw [hleft, hresult, herror', hfirst.1, hfirst.2]
    exact ⟨herror, hconfig, rfl, rfl, fun _ => ⟨rfl, hmeet⟩, fun h => by simp [hstage] at h⟩
  · obtain ⟨-, -, herror'⟩ := first_of_needsMeet hneeds.1
    obtain ⟨hstage, -⟩ := second_interrupted hstart hneeds.1 hi
    rw [secondPass_of_needed hneeds.1 hneeds.2]
    obtain ⟨hsecond, hresult⟩ := State.after_of_budgetSpent hi hspent
      { firstPass sup s with result := { (firstPass sup s).result with meet := some _ } } _ _
    rw [hsecond, hresult]
    refine ⟨herror', ?_, rfl, rfl, fun h => by simp [hstage] at h, fun _ => rfl⟩
    exact (State.config_after ..).trans hconfig

private theorem exists_foundBefore (hstart : start c = .ok s) : ∃ n, FoundBefore s p n := by
  rcases mem_passes hp with rfl | ⟨hneeds, rfl⟩
  · exact (first_interrupted hstart hi).2
  · exact (second_interrupted hstart hneeds.1 hi).2

end

/-! ### Tables that the first pass cannot complete -/

/-- A table needs a candidate for every bucket that it has not found. -/
private theorem phaseCount_le_of_complete {t : DoubleTable} {cs : List DoubleCandidate}
    (h : (Table.sink.offerAll t cs).2 = true) : t.phaseCount ≤ t.found + cs.length := by
  induction cs generalizing t with
  | nil => cases h
  | cons d cs ih =>
    have hfound : (t.offer d).found ≤ t.found + 1 := Table.found_accept_le ..
    have hcount : (t.offer d).phaseCount = t.phaseCount := by simp [Table.phaseCount, Table.offer]
    rw [List.length_cons]
    cases hcomplete : Table.sink.complete (Table.sink.offer t d) with
    | true =>
      have hall : (t.offer d).found = (t.offer d).phaseCount := of_decide_eq_true hcomplete
      omega
    | false =>
      rw [Sink.offerAll_cons_of_not_complete hcomplete] at h
      have hrest : (t.offer d).phaseCount ≤ (t.offer d).found + cs.length := ih h
      omega

private theorem length_firstOffers_le (probe : Probe Matrix Float Float) (b : Buffer Matrix) (n : Nat) :
    (Search.firstOffers probe b n).length ≤ 3 * (n - b.filled) + 1 := by
  have hhits (source : Source) : (probe.hits b.fillAll source).length ≤ 3 := by
    rw [Probe.hits, Probe.hitsOf, List.length_map]
    exact List.length_filter_le ..
  have hall (ss : List Source) : (ss.flatMap (probe.hits b.fillAll)).length ≤ 3 * ss.length := by
    induction ss with
    | nil => exact Nat.le_refl 0
    | cons source ss ih =>
      have := hhits source
      rw [List.flatMap_cons, List.length_append, List.length_cons]
      omega
  have hlength : (entrySources b.filled n).length = n - b.filled := by
    rw [entrySources, List.length_map, List.length_range']
  have := hall (entrySources b.filled n)
  rw [Search.firstOffers, List.length_cons]
  omega

/-- If there are more buckets than candidates, and enough entries for a poll, the first pass comes to its first poll. -/
private theorem first_interrupted_of_large (hstart : start c = .ok s) (hentries : firstPoll ≤ s.buffer.capacity)
    (hbuckets : s.result.table.found + 3 * s.buffer.capacity + 1 < s.result.table.phaseCount) (i : Interrupt)
    (caller : Nat → Option Interrupt) :
    (Search.exhaustive (s.setup ⟨fun _ => some i, caller⟩) s.buffer s.result.table s.polls).2.interrupt = some i := by
  obtain ⟨-, -, -, hb, -, hcheck⟩ := eq_of_start hstart
  have hevery : (s.setup .undisturbed).options.checkEvery = firstPoll := hcheck
  obtain ⟨hcut, -⟩ := Search.cutShort_exhaustive (x := s.setup .undisturbed) (fun _ => rfl) (by rw [hevery]; decide) hb
    s.result.table s.polls i
  refine (hcut.stopped ?_).1
  rw [hevery]
  rcases Search.exhaustive_cases (s.setup .undisturbed) hb s.result.table s.polls with
    ⟨-, hoffers, hsteps⟩ | ⟨j, n, hsome, -⟩
  · rw [(hsteps ?_).2]
    · exact hentries
    · by_contra hcomplete
      have hneeded := phaseCount_le_of_complete (congrArg Prod.snd hoffers |>.trans (by simpa using hcomplete))
      have hlength := length_firstOffers_le (Probe.within s.epsilon) s.buffer s.buffer.capacity
      have hsub := Nat.sub_le s.buffer.capacity s.buffer.filled
      have : (Search.firstOffers (s.setup .undisturbed).probe s.buffer s.buffer.capacity).length ≤
        3 * s.buffer.capacity + 1 := by
        refine Nat.le_trans hlength ?_
        omega
      omega
  · rw [hcut.interrupt] at hsome
    cases hsome

/-! ### Runs that fail -/

private theorem onWay_of_single {p : Place} (h : fs.OnWay (Path.directory "t.json") p) : p = fs.start := by
  obtain ⟨names, hnames, rfl⟩ := h
  rw [show Path.names (Path.directory "t.json") = [("." : RawText)] by decide +kernel] at hnames
  have horigin : fs.origin (Path.directory "t.json") = fs.start := if_neg (by decide +kernel)
  rw [horigin]
  rcases List.prefix_cons_iff.1 hnames with rfl | ⟨rest, rfl, hrest⟩
  · rfl
  · rw [List.prefix_nil.1 hrest, List.foldl_cons, List.foldl_nil, Files.onward, if_pos (Or.inr rfl)]

/-- The words alone, at a path of one name, can be written into an empty tree. -/
private theorem Outcome.Saves.of_table {o : Outcome} {r : Result} {done rest : List Artifact}
    (h : o.Saves times .empty r done rest) (htable : r.config.table = "t.json")
    (hasked : Artifact.all.filter (fun a => !(a.path r.config).isEmpty) = [.table]) :
    o.error = none ∧ o.files.read "t.json" = .ok (CliffordT.Artifact.wordsText (r.full.getD []) .json) ∧
      ∀ p, p ≠ [("t.json" : RawText)] → o.files.node? p = Files.empty.node? p := by
  have hplace : Files.empty.placeOf "t.json" = [("t.json" : RawText)] := by decide +kernel
  have hformat : Format.ofPath "t.json" = .ok .json := by decide +kernel
  have hsplit : [.table] = done ++ rest := hasked.symm.trans h.asked
  have hstart : o.files.start = Files.empty.start := h.leaves.start_eq
  have hnode (p : Place) (hp : ∀ a ∈ done, p ≠ Files.empty.placeOf (a.path r.config)) :
      o.files.node? p = Files.empty.node? p := by
    refine (h.leaves.node p hp).resolve_right ?_
    rintro ⟨⟨a, ha, hway⟩, hnone, -⟩
    have hmem : a ∈ done ++ rest := List.mem_append.2 ((List.mem_append.1 ha).imp_right fun h => List.mem_of_mem_take h)
    rw [← hsplit] at hmem
    rw [List.mem_singleton.1 hmem, Artifact.path, htable] at hway
    rw [onWay_of_single hway] at hnone
    cases hnone
  have hpossible (hnil : done = []) : Artifact.table.Possible times r o.files := by
    refine ⟨⟨_, .json, by rw [htable]; exact hformat, rfl⟩, ?_, fun hmetrics => by cases hmetrics⟩
    rw [Artifact.path, htable]
    refine ⟨⟨by decide +kernel, by decide +kernel, by decide +kernel, by decide +kernel, by decide +kernel, ?_⟩, ?_⟩
    · intro p text hway hfile
      rw [onWay_of_single hway, Files.node?, if_pos (Or.inl rfl)] at hfile
      cases hfile
    · rw [Files.placeOf_congr hstart, hnode _ (by simp [hnil])]
      decide +kernel
  obtain ⟨rfl, rfl⟩ : done = [.table] ∧ rest = [] := by
    cases done with
    | nil =>
      obtain rfl : [.table] = rest := hsplit
      exact absurd (hpossible rfl) (h.missing .table rfl).2
    | cons a done =>
      obtain ⟨rfl, hnil⟩ := List.cons.inj hsplit
      obtain ⟨rfl, rfl⟩ := List.append_eq_nil_iff.1 hnil.symm
      exact ⟨rfl, rfl⟩
  refine ⟨h.error.2 rfl, ?_, fun p hp => hnode p fun a ha => ?_⟩
  · obtain ⟨text, ⟨format, hformat', rfl⟩, hread⟩ := h.leaves.holds [] .table [] rfl (by simp)
    rw [htable, hformat] at hformat'
    cases hformat'
    rw [Artifact.path, htable] at hread
    exact hread
  · rw [List.mem_singleton.1 ha, Artifact.path, htable, hplace]
    exact hp

private theorem ofPath_cases (path : RawText) :
    Text.lower (Path.extension path).text ∈ [".json", ".yaml", ".yml"] ∧ (∃ format, Format.ofPath path = .ok format) ∨
      Text.lower (Path.extension path).text ∉ [".json", ".yaml", ".yml"] ∧
        Format.ofPath path = .error (.unknownFormat path) := by
  unfold Format.ofPath
  dsimp only
  split
  · rename_i hjson
    exact Or.inl ⟨by simp [hjson], _, rfl⟩
  · rename_i hjson
    split
    · rename_i hyaml
      exact Or.inl ⟨by simp [hyaml], _, rfl⟩
    · rename_i hyaml
      exact Or.inr ⟨by simp_all, rfl⟩

private theorem ofPath_unknown_iff {path : RawText} :
    Format.ofPath path = .error (.unknownFormat path) ↔
      Text.lower (Path.extension path).text ∉ [".json", ".yaml", ".yml"] := by
  rcases ofPath_cases path with ⟨hknown, format, hok⟩ | ⟨hunknown, herror⟩
  · simp [hok, hknown]
  · simp only [herror, hunknown, not_false_eq_true]

private theorem place_ne_unknown {path path' : RawText} {text : String} {fs' : Files} :
    CliffordT.Artifact.place fs path text ≠ .error ⟨.unknownFormat path', fs'⟩ := by
  unfold CliffordT.Artifact.place
  dsimp only
  split
  · simp
  · split <;> simp

/-- The record and the words are written only to a path with a known extension. -/
private theorem Artifact.write_of_unknown {a : Artifact} (ha : a ≠ .metrics) {r : Result}
    (h : Format.ofPath (a.path r.config) = .error (.unknownFormat (a.path r.config))) (times : Times) (fs : Files) :
    a.write times r fs = .error ⟨.unknownFormat (a.path r.config), fs⟩ := by
  cases a with
  | diagnostics =>
    rw [Artifact.write, CliffordT.Artifact.writeDiagnostics, CliffordT.Artifact.writeRecord]
    simp only [Artifact.path] at h ⊢
    rw [h]
  | table =>
    rw [Artifact.write, CliffordT.Artifact.writeTable]
    simp only [Artifact.path] at h ⊢
    rw [h]
  | metrics => cases ha rfl

/-- Nothing else is refused as an unknown format. -/
private theorem Artifact.unknown_of_write {a : Artifact} {r : Result} {path : RawText} {fs' : Files}
    (h : a.write times r fs = .error ⟨.unknownFormat path, fs'⟩) :
    a ≠ .metrics ∧ path = a.path r.config ∧ Format.ofPath path = .error (.unknownFormat path) ∧ fs' = fs := by
  -- an artifact in a known format fails for another reason
  have hpath (ha : a ≠ .metrics)
      (hknown : ∀ format, Format.ofPath (a.path r.config) = .ok format →
        a.write times r fs ≠ .error ⟨.unknownFormat path, fs'⟩) :
      path = a.path r.config ∧ Format.ofPath path = .error (.unknownFormat path) ∧ fs' = fs := by
    rcases ofPath_cases (a.path r.config) with ⟨-, format, hok⟩ | ⟨-, hunknown⟩
    · exact absurd h (hknown format hok)
    · rw [Artifact.write_of_unknown ha hunknown] at h
      cases h
      exact ⟨rfl, hunknown, rfl⟩
  cases a with
  | diagnostics =>
    refine ⟨by simp, hpath (by simp) fun format hok hwrite => ?_⟩
    rw [Artifact.write, CliffordT.Artifact.writeDiagnostics, CliffordT.Artifact.writeRecord] at hwrite
    rw [Artifact.path] at hok
    rw [hok] at hwrite
    cases format with
    | yaml => exact place_ne_unknown hwrite
    | json =>
      dsimp only at hwrite
      split at hwrite
      · cases hwrite
      · exact place_ne_unknown hwrite
  | table =>
    refine ⟨by simp, hpath (by simp) fun format hok hwrite => ?_⟩
    rw [Artifact.write] at hwrite
    rw [Artifact.path] at hok
    rw [CliffordT.Artifact.writeTable_eq hok] at hwrite
    exact place_ne_unknown hwrite
  | metrics =>
    rw [Artifact.write] at h
    unfold CliffordT.Artifact.writeMetrics at h
    dsimp only at h
    split at h
    · cases h
    · split at h
      · cases h
      · split at h <;> cases h

/-- An artifact whose path has an unknown extension. -/
def Artifact.Unknown (c : Config) (path : RawText) (a : Artifact) : Prop :=
  a ≠ .metrics ∧ path = a.path c ∧ path.isEmpty = false ∧
    Text.lower (Path.extension path).text ∉ [".json", ".yaml", ".yml"]

/-- The artifacts before it are written, it is not, and none follows. -/
private theorem Result.saved_cons_unknown_iff {r : Result} {a : Artifact} {as : List Artifact} {path : RawText}
    {fs' : Files} :
    r.saved times (a :: as) fs = (some (.unknownFormat path), fs') ↔
      a.Unknown r.config path ∧ fs' = fs ∨
        ∃ fs₁, a.Left times r fs fs₁ ∧ r.saved times as fs₁ = (some (.unknownFormat path), fs') := by
  rw [Result.saved]
  unfold Artifact.Left
  cases hpath : (a.path r.config).isEmpty with
  | true =>
    have hknown : ¬ a.Unknown r.config path := by
      rintro ⟨-, rfl, hnot, -⟩
      rw [hpath] at hnot
      cases hnot
    simp [hknown]
  | false =>
    cases hwrite : a.write times r fs with
    | ok fs₁ =>
      have hknown : ¬ a.Unknown r.config path := by
        rintro ⟨ha, rfl, -, hunknown⟩
        rw [Artifact.write_of_unknown ha (ofPath_unknown_iff.2 hunknown)] at hwrite
        cases hwrite
      simp [hknown]
    | error e =>
      simp only [Bool.false_eq_true, if_false, Prod.mk.injEq, Option.some.injEq, reduceCtorEq, false_and, exists_false,
        or_false]
      constructor
      · rintro ⟨hcause, rfl⟩
        obtain ⟨cause, fs₁⟩ := e
        obtain rfl : cause = _ := hcause
        obtain ⟨ha, rfl, hunknown, rfl⟩ := Artifact.unknown_of_write hwrite
        exact ⟨⟨ha, rfl, hpath, ofPath_unknown_iff.1 hunknown⟩, rfl⟩
      · rintro ⟨⟨ha, rfl, -, hunknown⟩, rfl⟩
        rw [Artifact.write_of_unknown ha (ofPath_unknown_iff.2 hunknown)] at hwrite
        cases hwrite
        exact ⟨rfl, rfl⟩

private theorem Result.saved_unknown_iff (times : Times) (r : Result) (fs : Files) (path : RawText) (fs' : Files) :
    r.saved times Artifact.all fs = (some (.unknownFormat path), fs') ↔
      Artifact.diagnostics.Unknown r.config path ∧ fs' = fs ∨
        Artifact.table.Unknown r.config path ∧ Artifact.diagnostics.Left times r fs fs' := by
  have hmetrics (fs₂ : Files) : r.saved times [.metrics] fs₂ ≠ (some (.unknownFormat path), fs') := by
    rw [Ne, Result.saved_cons_unknown_iff]
    rintro (⟨⟨hne, -⟩, -⟩ | ⟨fs₃, -, hnil⟩)
    · exact hne rfl
    · cases hnil
  rw [Artifact.all, Result.saved_cons_unknown_iff]
  simp only [Result.saved_cons_unknown_iff (a := .table), hmetrics, and_false, exists_false, or_false]
  refine or_congr Iff.rfl ⟨?_, ?_⟩
  · rintro ⟨fs₁, hleft, hunknown, rfl⟩
    exact ⟨hunknown, hleft⟩
  · rintro ⟨hunknown, hleft⟩
    exact ⟨fs', hleft, hunknown, rfl⟩

/-- A run fails for an unknown format exactly if its search has not failed and one of the paths has an extension that is
none of the three, with nothing failing before.  If it is the path of the diagnostic record, the files are as they were.
If it is the path of the table, the diagnostic record is written, if a path is given for it, and nothing else. -/
theorem unknown_format_keeps_earlier_artifacts (c : Config) (sup : Supervision) (times : Times) (fs : Files)
    (path : RawText) :
    let o := run c sup times fs
    o.error = some (.artifact (.unknownFormat path)) ↔
      ∃ s, search c sup = .ok s ∧ s.error = none ∧ path.isEmpty = false ∧
        Text.lower (Path.extension path).text ∉ [".json", ".yaml", ".yml"] ∧
        (path = c.diagnostics ∧ o.files = fs ∨
          path = c.table ∧ Artifact.diagnostics.Left times s.result fs o.files) := by
  intro o
  cases hsearch : search c sup with
  | error e =>
    have hrun : o = finish times fs (.error e) := by rw [← hsearch]; rfl
    simp [hrun, finish]
  | ok s =>
    have hrun : o = conclude times fs s := by
      show finish times fs (search c sup) = _
      rw [hsearch]
      rfl
    have hconfig : s.result.config = c := (search_eq_ok hsearch).1
    cases herror : s.error with
    | some e =>
      have hfailed : o.error = some e := by
        rw [hrun, conclude, if_pos (by simp [herror])]
        exact herror
      -- the search itself fails for an interruption only
      obtain ⟨stage, i, rfl⟩ : ∃ stage i, e = .interrupted stage i := by
        rcases error_of_search hsearch with hnone | ⟨stage, i, hsome⟩
        · rw [herror] at hnone
          cases hnone
        · rw [herror] at hsome
          exact ⟨stage, i, Option.some.inj hsome⟩
      simp [hfailed, herror]
    | none =>
      obtain ⟨logs, hend⟩ := conclude_of_no_error herror times fs
      have hsaved := s.result.saved_unknown_iff times fs path (s.result.saved times Artifact.all fs).2
      rw [Prod.ext_iff, and_iff_left rfl, hconfig] at hsaved
      rw [hrun, hend]
      simp only [Option.map_eq_some_iff, RunError.artifact.injEq, exists_eq_right, Except.ok.injEq, exists_eq_left',
        herror, true_and]
      rw [hsaved]
      simp only [Artifact.Unknown, Artifact.path]
      tauto

/-- The artifact error of a run that failed for one. -/
def RunError.artifact? : RunError → Option ArtifactError
  | .artifact e => some e
  | _ => none

private theorem RunError.eq_of_artifact? {e : RunError} {e' : ArtifactError} (h : e.artifact? = some e') :
    e = .artifact e' := by
  cases e <;> cases h
  rfl

/-- The path of the table has an unknown extension, but the diagnostic record is written. -/
theorem unknown_format_leaves_diagnostics :
    let c : Config := { Config.default with points := 8, depth := 1, diagnostics := "d.json", table := "t.txt" }
    let o := run c .undisturbed ⟨⟨0⟩, ⟨0⟩, ⟨0⟩⟩ .empty
    o.error = some (.artifact (.unknownFormat "t.txt")) ∧ o.files ≠ .empty := by
  intro c o
  obtain ⟨herror, hfiles⟩ : o.error.bind RunError.artifact? = some (.unknownFormat "t.txt") ∧ o.files ≠ .empty := by
    decide +kernel
  obtain ⟨e, he, hartifact⟩ := Option.bind_eq_some_iff.1 herror
  rw [he, RunError.eq_of_artifact? hartifact]
  exact ⟨rfl, hfiles⟩

end CliffordT.Run
