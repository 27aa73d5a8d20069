import CliffordT.Proofs.PassEnds
import CliffordT.Proofs.RecordedPasses
import CliffordT.Proofs.RunEnds
import CliffordT.Proofs.SearchOrder
import CliffordT.Proofs.TableInvariant

/-!
# The work counters

A pass counts the entries or products that it begins, the products with completions that it tests, and the candidates
that it offers.  However it ends, the counters tell what it did (`counters_exact`).  Each source begun was tested with
the three completions, except that the source at which a poll stopped the pass was not tested, and that the source at
which the sink became complete was tested only up to the completion that did it (`Pass.Tallied`).

The candidates that a pass counts are the calls that a recording sink has written down.  In a run the sink is the table,
which counts its calls too and sorts them by what became of them, so the counts of the passes and of the table agree.
-/

namespace CliffordT

namespace Search

variable {M A E σ ε : Type} [GateAlgebra M] [Storable M]

namespace Pass

/-- What was tested and offered after the first calls, when `n` of the sources had been begun, for each way in which the
pass can have ended. -/
structure Tallied (probe : Probe M A E) (b : Buffer M) (first : List (Candidate M A E)) (sources : List Source)
    (n : Nat) (calls : List (Candidate M A E)) (q : Pass σ ε) : Prop where
  through : q.interrupt = none → q.stats.complete = false →
    n = sources.length ∧ q.stats.tested = 3 * n ∧ calls = first ++ sources.flatMap (probe.hits b)
  interrupted : ∀ i, q.interrupt = some i →
    q.stats.complete = false ∧ 0 < n ∧ n ≤ sources.length ∧ q.stats.tested = 3 * (n - 1) ∧
      calls = first ++ (sources.take (n - 1)).flatMap (probe.hits b)
  /-- The sink is complete with the `j`-th completion of the last source. -/
  completed : q.stats.complete = true →
    q.interrupt = none ∧ 0 < n ∧
      ∃ j source c, 1 ≤ j ∧ j ≤ 3 ∧ sources[n - 1]? = some source ∧ completions[j - 1]? = some c ∧
        probe.isDiagonal (c.matrix * source.matrix b) = true ∧ q.stats.tested = 3 * (n - 1) + j ∧
        calls = first ++ (sources.take (n - 1)).flatMap (probe.hits b) ++
          probe.hitsOf source (source.matrix b) (completions.take j)

/-- The sink was given the calls and nothing else; it was not complete before the last of them, and the flag says
whether it is complete now. -/
structure Called (x : Setup M A E σ ε) (s : σ) (calls : List (Candidate M A E)) (q : Pass σ ε) : Prop where
  sink : q.sink = calls.foldl x.sink.offer s
  hits : q.stats.hits = calls.length
  complete : q.stats.complete = x.sink.complete q.sink
  earlier : ∀ k, 0 < k → k < calls.length → x.sink.complete ((calls.take k).foldl x.sink.offer s) = false

variable {x : Setup M A E σ ε} {b : Buffer M} {p q : Pass σ ε} {sources : List Source} {n : Nat}

/-- The calls of a pass, by how it ended. -/
theorem Ends.exists_tallied (h : Ends x b p sources n q) (hp : p.stats.tested = 0)
    (first : List (Candidate M A E)) :
    ∃ calls tested, Accounts x calls tested p q ∧ Tallied x.probe b first sources n (first ++ calls) q := by
  cases h with
  | through _ h hcomplete hi =>
    have htested := h.tested
    rw [hp, Nat.zero_add] at htested
    refine ⟨_, _, h, fun _ _ => ⟨rfl, htested, rfl⟩, fun i hsome => ?_, fun htrue => ?_⟩
    · rw [hi] at hsome
      cases hsome
    · rw [hcomplete] at htrue
      cases htrue
  | @interrupted i ss ts s _ h hcomplete hi =>
    have htested := h.tested
    rw [hp, Nat.zero_add] at htested
    refine ⟨_, _, h, fun hnone => ?_, fun j _ => ⟨hcomplete, Nat.succ_pos _, ?_, htested, ?_⟩, fun htrue => ?_⟩
    · rw [hi] at hnone
      cases hnone
    · rw [List.length_append, List.length_cons]
      omega
    · rw [Nat.add_sub_cancel, List.take_left]
    · rw [hcomplete] at htrue
      cases htrue
  | @completed ss ts s ds es c _ hc hdiag h hcomplete hi =>
    have htested := h.tested
    rw [hp, Nat.zero_add] at htested
    have hlength : ds.length + (es.length + 1) = 3 := by
      have hthree := congrArg List.length hc
      rw [List.length_append, List.length_cons] at hthree
      exact hthree.symm
    -- the completion that made the sink complete has number `ds.length + 1`
    refine ⟨_, _, h, fun _ hfalse => ?_, fun i hsome => ?_, fun _ => ⟨hi, Nat.succ_pos _, ?_⟩⟩
    · rw [hcomplete] at hfalse
      cases hfalse
    · rw [hi] at hsome
      cases hsome
    · rw [Nat.add_sub_cancel, List.take_left, ← List.append_assoc]
      refine ⟨ds.length + 1, s, c, by omega, by omega, ?_, ?_, hdiag, htested, ?_⟩
      · rw [List.getElem?_append_right (Nat.le_refl _), Nat.sub_self]
        rfl
      · rw [hc, Nat.add_sub_cancel, List.getElem?_append_right (Nat.le_refl _), Nat.sub_self]
        rfl
      · rw [hc, List.take_append, List.take_of_length_le (Nat.le_succ _), Nat.add_sub_cancel_left]
        rfl

omit [GateAlgebra M] [Storable M] in
/-- What a recording sink has written down are the calls. -/
theorem Accounts.called {calls : List (Candidate M A E)} {p q : Pass (σ × List (Candidate M A E)) ε}
    (h : Accounts x.recording calls n p q) (hlog : p.sink.2 = []) (hhits : p.stats.hits = 0)
    (hflag : calls = [] → p.stats.complete = x.sink.complete p.sink.1) :
    q.sink.2 = calls ∧ Called x p.sink.1 calls q.unrecorded := by
  have hfold (cs : List (Candidate M A E)) :
      cs.foldl x.recording.sink.offer p.sink = (cs.foldl x.sink.offer p.sink.1, cs) := by
    have hpair : p.sink = (p.sink.1, []) := by rw [← hlog]
    rw [hpair]
    exact x.sink.foldl_recording p.sink.1 [] cs
  have hsink : q.sink = (calls.foldl x.sink.offer p.sink.1, calls) := by rw [h.sink, hfold]
  refine ⟨by rw [hsink], ⟨?_, ?_, ?_, ?_⟩⟩
  · show q.sink.1 = _
    rw [hsink]
  · have := h.hits
    rwa [hhits, Nat.zero_add] at this
  · by_cases hcalls : calls = []
    · show q.stats.complete = x.sink.complete q.sink.1
      rw [h.unchanged hcalls, hflag hcalls, hsink, hcalls, List.foldl_nil]
    · exact h.complete hcalls
  · intro k hpos hlt
    have := h.earlier k hpos hlt
    rwa [hfold] at this

end Pass

/-! ### The two passes -/

variable (x : Setup M A E σ ε) (b : Buffer M) (s : σ) (polls : Nat)

theorem exhaustive_tallied [Zero A] [Zero E] :
    let r := exhaustive x b s polls
    let calls := (exhaustive x.recording b (s, []) polls).2.sink.2
    Pass.Called x s calls r.2 ∧ r.1.filled = b.filled + r.2.stats.visited ∧
      if x.sink.complete (x.sink.offer s seed) then
        r.2.interrupt = none ∧ r.2.stats.visited = 0 ∧ r.2.stats.tested = 0 ∧ calls = [seed]
      else
        Pass.Tallied x.probe b.fillAll [seed] (entrySources b.filled b.capacity) r.2.stats.visited calls r.2 := by
  intro r calls
  obtain ⟨hbuffer, hpass⟩ := exhaustive_recording x b s [] polls
  have hseeded : Pass.Accounts x.recording [seed] 0 (Pass.start .exhaustive (s, []) polls)
      (seeded x.recording (s, []) polls) := .offer ..
  cases hseed : x.sink.complete (x.sink.offer s seed) with
  | true =>
    have hrun := exhaustive_of_seed_complete (x := x.recording) (s := (s, [])) hseed b polls
    have haccounts : Pass.Accounts x.recording [seed] 0 (Pass.start .exhaustive (s, []) polls)
        (exhaustive x.recording b (s, []) polls).2 := by
      rw [hrun]
      exact hseeded.congr rfl rfl rfl rfl (Pass.sink_report ..) (Pass.stats_report ..)
    obtain ⟨hcalls, hcalled⟩ := haccounts.called rfl rfl (fun h => by cases h)
    rw [hpass, ← hcalls] at hcalled
    have hr : r = (b, (seeded x s polls).report x 0 b.capacity) := exhaustive_of_seed_complete hseed b polls
    have hstats : r.2.stats = (seeded x s polls).stats := by rw [hr, Pass.stats_report]
    have hnone : r.2.interrupt = none := by
      rw [hr, Pass.interrupt_report]
      rfl
    rw [if_pos rfl, hstats, show r.1 = b by rw [hr]]
    exact ⟨hcalled, rfl, hnone, rfl, rfl, hcalls⟩
  | false =>
    obtain ⟨hends, hfilled⟩ := exhaustive_ends x.recording (s := (s, [])) hseed b polls
    obtain ⟨later, tested, haccounts, htallied⟩ := hends.exists_tallied rfl [seed]
    obtain ⟨hcalls, hcalled⟩ := (hseeded.append hseed haccounts).called rfl rfl (fun h => by cases h)
    have hstats : (exhaustive x.recording b (s, []) polls).2.stats = r.2.stats := congrArg Pass.stats hpass
    rw [hpass, ← hcalls] at hcalled
    rw [← hcalls] at htallied
    rw [hstats] at hfilled htallied
    rw [if_neg Bool.false_ne_true]
    refine ⟨hcalled, ?_, ?_⟩
    · show (exhaustive x b s polls).1.filled = _
      rw [← hbuffer, hfilled, Buffer.filled_iterate]
    · rw [show r.2 = (exhaustive x.recording b (s, []) polls).2.unrecorded from hpass.symm] at htallied ⊢
      exact ⟨htallied.through, htallied.interrupted, htallied.completed⟩

omit [Storable M] in
/-- What a step does for its source changes none of the counters by which it is numbered. -/
theorem Pass.stats_work (p : Pass σ ε) (n total : Nat) (source : Source) (m : M) (tests : List (Completion M)) :
    ∃ tested hits complete, (p.work x n total source m tests).1.stats =
      { p.stats with tested := tested, hits := hits, complete := complete } := by
  unfold work
  dsimp only
  split
  · exact ⟨_, _, _, by rw [stats_pollDue]⟩
  · obtain ⟨tested, hits, complete, h⟩ := stats_tryCompletions (x := x) source m tests
      (p := (p.pollDue x n).reportDue x n total)
    rw [stats_reportDue, stats_pollDue] at h
    exact ⟨tested, hits, complete, h⟩

/-- Where `w` divides the number of products, the next one begins a new first list. -/
private theorem ceil_succ {w : Nat} (hw : 0 < w) (n : Nat) :
    (n + 1 + w - 1) / w = if n % w = 0 then (n + w - 1) / w + 1 else (n + w - 1) / w := by
  obtain ⟨q, r, hr, rfl⟩ : ∃ q r, r < w ∧ n = w * q + r := ⟨n / w, n % w, Nat.mod_lt n hw, (Nat.div_add_mod n w).symm⟩
  have hquotient (k : Nat) (hk : k < w) : (w * q + k) / w = q := by
    rw [Nat.mul_add_div hw, Nat.div_eq_of_lt hk, Nat.add_zero]
  have hnext : (w * q + r + 1 + w - 1) / w = q + 1 := by
    rw [show w * q + r + 1 + w - 1 = w * q + r + w by omega, Nat.add_div_right _ hw, hquotient r hr]
  rw [Nat.mul_add_mod, Nat.mod_eq_of_lt hr, hnext]
  by_cases hzero : r = 0
  · rw [if_pos hzero, show w * q + r + w - 1 = w * q + (w - 1) by omega, hquotient (w - 1) (by omega)]
  · rw [if_neg hzero, show w * q + r + w - 1 = w * q + (r - 1) + w by omega, Nat.add_div_right _ hw,
      hquotient (r - 1) (by omega)]

/-- The second pass has begun as many first lists as its products need, with `w` products for each. -/
theorem visited_walk_productCourse (hw : 0 < longestCount b) (k : Nat) {n : Nat} {p : Pass σ ε}
    (hproducts : p.stats.products = n) (hvisited : p.stats.visited = (n + longestCount b - 1) / longestCount b) :
    let q := walk ((productCourse b).step x) p (List.range' n k)
    q.1.stats.visited = (q.1.stats.products + longestCount b - 1) / longestCount b := by
  dsimp only
  induction k generalizing n p with
  | zero =>
    rw [List.range'_zero, walk_nil, hproducts]
    exact hvisited
  | succ k ih =>
    obtain ⟨tested, hits, complete, hstats⟩ := Pass.stats_work x ((productCourse b).count p n) (n + 1)
      (productCount b) (productSource b n) ((productSource b n).matrix b) completions
    have hnext : ((productCourse b).step x p n).1.stats.products = n + 1 := congrArg Stats.products hstats
    have hbegun : ((productCourse b).step x p n).1.stats.visited =
        (n + 1 + longestCount b - 1) / longestCount b := by
      rw [ceil_succ hw, ← hvisited]
      exact congrArg Stats.visited hstats
    rw [List.range'_succ]
    cases hstop : ((productCourse b).step x p n).2 with
    | true =>
      rw [walk_cons_of_stop hstop, hnext]
      exact hbegun
    | false =>
      rw [walk_cons_of_go hstop]
      exact ih hnext hbegun

theorem visited_meetInTheMiddle :
    (meetInTheMiddle x b s polls).2.1.stats.visited =
      ((meetInTheMiddle x b s polls).2.1.stats.products + 2 ^ b.depth - 1) / 2 ^ b.depth := by
  have hpow : 0 < 2 ^ b.depth := Nat.two_pow_pos _
  have hzero : 0 = (0 + 2 ^ b.depth - 1) / 2 ^ b.depth := (Nat.div_eq_of_lt (by omega)).symm
  unfold meetInTheMiddle
  dsimp only
  split
  · exact hzero
  · have hfull : (if b.full = true then b else b.fillAll).depth = b.depth := by
      split
      · rfl
      · exact Buffer.depth_fillAll b
    generalize (if b.full = true then b else b.fillAll) = full at hfull
    split
    · exact hzero
    · rw [Pass.stats_report, visitProducts_eq_walk]
      by_cases hdepth : b.depth = 0
      · -- a buffer of depth 0 has no products
        have hnone : productCount full = 0 := by
          rw [productCount, Buffer.longest, hfull, hdepth]
          exact Nat.zero_mul _
        rw [hnone]
        exact hzero
      · have hwidth : longestCount full = 2 ^ b.depth := by
          rw [longestCount, Buffer.capacity, Buffer.longest, hfull]
          exact start_succ_sub_start (by omega)
        have hwalk := visited_walk_productCourse x full (by rw [hwidth]; exact hpow) (productCount full)
          (p := Pass.start .meetInTheMiddle s polls) rfl (by rw [hwidth]; exact hzero)
        rw [hwidth] at hwalk
        exact hwalk

theorem meetInTheMiddle_tallied :
    let full := if b.full then b else b.fillAll
    let r := meetInTheMiddle x b s polls
    let calls := (meetInTheMiddle x.recording b (s, []) polls).2.1.sink.2
    if !b.full && x.options.requireFilled then
      r.2.2 = some .bufferNotFilled ∧ r.2.1 = Pass.start .meetInTheMiddle s polls ∧ calls = []
    else
      r.2.2 = none ∧ Pass.Called x s calls r.2.1 ∧
        if x.sink.complete s then
          r.2.1.interrupt = none ∧ r.2.1.stats.products = 0 ∧ r.2.1.stats.tested = 0 ∧ calls = []
        else
          Pass.Tallied x.probe full [] (pairSources b.longest b.capacity) r.2.1.stats.products calls r.2.1 := by
  intro full r calls
  obtain ⟨-, hpass, herror⟩ := meetInTheMiddle_recording x b s [] polls
  cases hrefused : (!b.full && x.options.requireFilled) with
  | true =>
    rw [if_pos rfl]
    have hrun : ∀ {σ : Type} (y : Setup M A E σ ε) (s : σ), y.options = x.options →
        meetInTheMiddle y b s polls = (b, Pass.start .meetInTheMiddle s polls, some .bufferNotFilled) := by
      intro σ y s hy
      unfold meetInTheMiddle
      exact if_pos (by rw [hy]; exact hrefused)
    refine ⟨?_, ?_, ?_⟩
    · exact congrArg (fun r => r.2.2) (hrun x s rfl)
    · exact congrArg (fun r => r.2.1) (hrun x s rfl)
    · exact congrArg (fun r => r.2.1.sink.2) (hrun x.recording (s, []) rfl)
  | false =>
    rw [if_neg Bool.false_ne_true]
    cases hs : x.sink.complete s with
    | true =>
      have hrun : ∀ {σ : Type} (y : Setup M A E σ ε) (s : σ), y.options = x.options → y.sink.complete s = true →
          meetInTheMiddle y b s polls = (full, { (Pass.start .meetInTheMiddle s polls : Pass σ ε) with
            stats := { (Stats.start .meetInTheMiddle) with complete := true } }, none) := by
        intro σ y s hy hs
        unfold meetInTheMiddle
        dsimp only
        rw [if_neg (by rw [hy, hrefused]; exact Bool.false_ne_true), if_pos hs]
        rfl
      have hr : r = _ := hrun x s rfl hs
      have hcalls : calls = [] := congrArg (fun r => r.2.1.sink.2) (hrun x.recording (s, []) rfl hs)
      rw [if_pos rfl, hcalls, hr]
      refine ⟨rfl, ⟨rfl, rfl, hs.symm, ?_⟩, rfl, rfl, rfl, rfl⟩
      intro k hpos hlt
      exact absurd hlt (Nat.not_lt_zero k)
    | false =>
      obtain ⟨hends, -, hnone⟩ := meetInTheMiddle_ends x.recording (s := (s, [])) hrefused hs polls
      obtain ⟨later, tested, haccounts, htallied⟩ := hends.exists_tallied rfl []
      obtain ⟨hcalls, hcalled⟩ := haccounts.called rfl rfl (fun _ => hs.symm)
      have hstats : (meetInTheMiddle x.recording b (s, []) polls).2.1.stats = r.2.1.stats := congrArg Pass.stats hpass
      rw [hpass, ← hcalls] at hcalled
      rw [List.nil_append, ← hcalls, hstats] at htallied
      rw [if_neg Bool.false_ne_true]
      refine ⟨herror.symm.trans hnone, hcalled, ?_⟩
      rw [show r.2.1 = (meetInTheMiddle x.recording b (s, []) polls).2.1.unrecorded from hpass.symm] at htallied ⊢
      exact ⟨htallied.through, htallied.interrupted, htallied.completed⟩

/-- The second pass counts its calls, also if it is refused. -/
theorem meetInTheMiddle_called :
    ∃ calls : List (Candidate M A E), (meetInTheMiddle x b s polls).2.1.sink = calls.foldl x.sink.offer s ∧
      (meetInTheMiddle x b s polls).2.1.stats.hits = calls.length := by
  have htallied := meetInTheMiddle_tallied x b s polls
  dsimp only at htallied
  split at htallied
  · refine ⟨[], ?_, ?_⟩
    all_goals
      rw [htallied.2.1]
      rfl
  · exact ⟨_, htallied.2.1.sink, htallied.2.1.hits⟩

end Search

/-! ### Runs -/

namespace Table

variable {M A E : Type} [GateAlgebra M] [Angle A] [Residual E]

/-- A new table counts its candidates, and each of them was found, or replaced another, or was rejected. -/
theorem counts_foldl_offer {points : Int} {t : Table M A E} (hnew : Table.new points = .ok t)
    (cs : List (Candidate M A E)) :
    (cs.foldl offer t).candidates = cs.length ∧
      (cs.foldl offer t).found + (cs.foldl offer t).replacements + (cs.foldl offer t).rejected = cs.length := by
  have hempty := wellFormed_foldl_offer hnew []
  have hfits : ∀ x ∈ cs.map (Call.offer : Candidate M A E → Call M A E), x.Fits t.points := by
    intro x hx
    obtain ⟨c, -, rfl⟩ := List.mem_map.1 hx
    exact trivial
  have hcandidates := candidates_run_offer (t := t) cs
  have houtcomes := outcomes_run hempty hfits
  obtain ⟨-, -, -, rfl⟩ := eq_run_of_made (Or.inl ⟨rfl, hnew⟩)
  rw [run_map_offer] at hcandidates
  rw [List.foldl_nil, run_map_offer, List.length_map] at houtcomes
  exact ⟨hcandidates.trans (Nat.zero_add _), houtcomes.trans (Nat.zero_add _)⟩

end Table

namespace Run

variable {c : Config} {s : State}

theorem result_conclude (times : Times) (fs : Files) (s : State) : (conclude times fs s).result = some s.result := by
  cases herror : s.error with
  | some e => rw [conclude, if_pos (by rw [herror]; rfl)]; rfl
  | none =>
    obtain ⟨logs, hend⟩ := conclude_of_no_error herror times fs
    rw [hend]

/-- The passes of a run have offered to its table what they count. -/
theorem table_passes (hmeet : s.result.meet = none) (sup : Supervision) :
    let r := (secondPass sup (firstPass sup s)).result
    ∃ calls : List DoubleCandidate, r.table = calls.foldl Table.offer s.result.table ∧
      calls.length = r.exhaustive.hits + (r.meet.map (·.hits)).getD 0 := by
  dsimp only
  obtain ⟨hcalled, -⟩ := Search.exhaustive_tallied (s.setup sup) s.buffer s.result.table s.polls
  obtain ⟨first, hfirst, hhits⟩ : ∃ first : List DoubleCandidate,
      (firstPass sup s).result.table = first.foldl Table.offer s.result.table ∧
        (firstPass sup s).result.exhaustive.hits = first.length :=
    ⟨_, (State.table_after ..).trans hcalled.sink,
      (congrArg (·.hits) (State.exhaustive_after ..)).trans hcalled.hits⟩
  have hnone : (firstPass sup s).result.meet = none := (State.meet_after ..).trans hmeet
  by_cases hneeds : (firstPass sup s).needsMeet = true ∧ (firstPass sup s).result.config.skipMeet = false
  · obtain ⟨second, hsink, hcount⟩ := Search.meetInTheMiddle_called ((firstPass sup s).setup sup)
      (firstPass sup s).buffer (firstPass sup s).result.table (firstPass sup s).polls
    rw [secondPass_of_needed hneeds.1 hneeds.2, State.table_after, State.exhaustive_after, State.meet_after]
    refine ⟨first ++ second, ?_, ?_⟩
    · rw [List.foldl_append, ← hfirst]
      exact hsink
    · rw [List.length_append, ← hhits, ← hcount]
      rfl
  · obtain ⟨s', hleft, hresult, -⟩ := secondPass_of_not_needed hneeds
    rw [hleft, hresult, hnone]
    exact ⟨first, hfirst, hhits.symm⟩

theorem counts_of_run {sup : Supervision} {times : Times} {fs : Files} {r : Result}
    (h : (run c sup times fs).result = some r) :
    r.table.candidates = r.exhaustive.hits + (r.meet.map (·.hits)).getD 0 ∧
      r.table.candidates = r.table.found + r.table.replacements + r.table.rejected := by
  cases hstart : start c with
  | error e =>
    rw [run, search, hstart] at h
    cases h
  | ok s =>
    obtain ⟨logs, full, canonical, expanded, hverified⟩ := State.verified_eq (secondPass sup (firstPass sup s))
    obtain ⟨calls, htable, hlength⟩ := table_passes (eq_of_start hstart).2.2.1 sup
    obtain ⟨precision, -, hnew, -⟩ := start_eq_ok hstart
    obtain ⟨hcandidates, houtcomes⟩ := Table.counts_foldl_offer hnew calls
    rw [run_of_start hstart, result_conclude, hverified] at h
    obtain rfl := Option.some.inj h
    rw [← htable] at hcandidates houtcomes
    exact ⟨hcandidates.trans hlength, hcandidates.trans houtcomes.symm⟩

end Run

open Search

/-- The counters of both passes, for any buffer, sink, intervals and answers to the polls, against the calls that a
recording sink writes down; and the counters of any run that has a result. -/
theorem counters_exact {M A E σ ε : Type} [GateAlgebra M] [Storable M] [Zero A] [Zero E] (x : Setup M A E σ ε)
    (b : Buffer M) (s : σ) (polls : Nat) (c : Config) (sup : Run.Supervision) (times : Run.Times) (fs : Files) :
    (let r := exhaustive x b s polls
      let recorded := exhaustive x.recording b (s, []) polls
      let calls := recorded.2.sink.2
      (recorded.1 = r.1 ∧ recorded.2.unrecorded = r.2) ∧ Pass.Called x s calls r.2 ∧
      r.1.filled = b.filled + r.2.stats.visited ∧
      if x.sink.complete (x.sink.offer s seed) then
        r.2.interrupt = none ∧ r.2.stats.visited = 0 ∧ r.2.stats.tested = 0 ∧ calls = [seed]
      else
        Pass.Tallied x.probe b.fillAll [seed] (entrySources b.filled b.capacity) r.2.stats.visited calls r.2) ∧
    (let r := meetInTheMiddle x b s polls
      let recorded := meetInTheMiddle x.recording b (s, []) polls
      let calls := recorded.2.1.sink.2
      let full := if b.full then b else b.fillAll
      (recorded.1 = r.1 ∧ recorded.2.1.unrecorded = r.2.1 ∧ recorded.2.2 = r.2.2) ∧
      r.2.1.stats.visited = (r.2.1.stats.products + 2 ^ b.depth - 1) / 2 ^ b.depth ∧
      if !b.full && x.options.requireFilled then
        r.2.2 = some .bufferNotFilled ∧ r.2.1 = Pass.start .meetInTheMiddle s polls ∧ calls = []
      else
        r.2.2 = none ∧ Pass.Called x s calls r.2.1 ∧
          if x.sink.complete s then
            r.2.1.interrupt = none ∧ r.2.1.stats.products = 0 ∧ r.2.1.stats.tested = 0 ∧ calls = []
          else
            Pass.Tallied x.probe full [] (pairSources b.longest b.capacity) r.2.1.stats.products calls r.2.1) ∧
    ∀ r, (Run.run c sup times fs).result = some r →
      r.table.candidates = r.exhaustive.hits + (r.meet.map (·.hits)).getD 0 ∧
        r.table.candidates = r.table.found + r.table.replacements + r.table.rejected := by
  refine ⟨?_, ?_, ?_⟩
  · exact ⟨exhaustive_recording x b s [] polls, exhaustive_tallied x b s polls⟩
  · exact ⟨meetInTheMiddle_recording x b s [] polls, visited_meetInTheMiddle x b s polls,
      meetInTheMiddle_tallied x b s polls⟩
  · intro r hr
    exact Run.counts_of_run hr

/-- A first pass of depth 2 in doubles that is stopped by its first poll, and a run of depth 1. -/
theorem counters_exact_doubles :
    let x : Setup Matrix Float Float (Array DoubleCandidate) Unit :=
      ⟨Probe.within 0.5, Sink.recorder 0, { Options.default with checkEvery := 3 }, none, fun _ => some .canceled⟩
    let b : Buffer Matrix := Buffer.empty 2 .single
    let c : Config := { Config.default with points := 16, depth := 1, diagnostics := "" }
    ((exhaustive x b #[] 0).2.interrupt = some .canceled ∧ (exhaustive x b #[] 0).2.stats.visited = 3 ∧
      (exhaustive x b #[] 0).2.stats.tested = 3 * 2 ∧
      (exhaustive x b #[] 0).2.stats.hits = (exhaustive x.recording b (#[], []) 0).2.sink.2.length) ∧
    ∃ r, (Run.run c .undisturbed ⟨⟨0⟩, ⟨0⟩, ⟨0⟩⟩ .empty).result = some r ∧
      r.table.candidates = r.exhaustive.hits + (r.meet.map (·.hits)).getD 0 := by
  intro x b c
  obtain ⟨⟨-, hcalled, -, htallied⟩, -, hrun⟩ := counters_exact x b #[] 0 c .undisturbed ⟨⟨0⟩, ⟨0⟩, ⟨0⟩⟩ .empty
  have hinterrupt : (exhaustive x b #[] 0).2.interrupt = some .canceled := by decide +kernel
  have hvisited : (exhaustive x b #[] 0).2.stats.visited = 3 := by decide +kernel
  refine ⟨⟨hinterrupt, hvisited, ?_, hcalled.hits⟩, ?_⟩
  · have hgo : ¬ x.sink.complete (x.sink.offer #[] seed) = true := Bool.false_ne_true
    rw [if_neg hgo] at htallied
    rw [(htallied.interrupted .canceled hinterrupt).2.2.2.1, hvisited]
  · have hresult : (Run.run c .undisturbed ⟨⟨0⟩, ⟨0⟩, ⟨0⟩⟩ .empty).result.isSome = true := by decide +kernel
    obtain ⟨r, hr⟩ := Option.isSome_iff_exists.1 hresult
    exact ⟨r, hr, (hrun r hr).1⟩

end CliffordT
