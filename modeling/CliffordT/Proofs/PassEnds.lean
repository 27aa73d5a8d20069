import CliffordT.Proofs.Courses

/-!
# How a pass ends

A pass goes through its sources one by one, and there are three ways in which it can end (`Pass.Ends`).  It is through
with them, each tested with all completions; or a poll stops it at one of them, which is counted then but not tested; or
the sink is complete with a candidate of one of them, and the completions behind that candidate's are not tried.  In
each case the calls of the sink are known, and so are the numbers of tests and of candidates (`Pass.Accounts`).

This holds of every course (`Pass.walk_ends`), and so of the first pass on a buffer that is filled as far as it may be
(`exhaustive_ends`), and of the second pass (`meetInTheMiddle_ends`).
-/

namespace CliffordT

/-- A walk along the images of a list. -/
theorem walk_map {σ α β : Type} (step : σ → β → σ × Bool) (f : α → β) (s : σ) (as : List α) :
    walk step s (as.map f) = walk (fun s a => step s (f a)) s as ∧
      walked step s (as.map f) = walked (fun s a => step s (f a)) s as := by
  induction as generalizing s with
  | nil => exact ⟨rfl, rfl⟩
  | cons a as ih =>
    obtain ⟨hwalk, htaken⟩ := ih (step s (f a)).1
    rw [List.map_cons, walk, walk, walked, walked, hwalk, htaken]
    exact ⟨rfl, rfl⟩

namespace Search

variable {M A E σ ε : Type}

namespace Pass

/-! ### Calls and counts -/

/-- Between `p` and `q` the sink was offered `calls`, and so many products were tested.  Before the last of these calls
the sink was not complete, and the flag says whether it is complete behind it. -/
structure Accounts (x : Setup M A E σ ε) (calls : List (Candidate M A E)) (tested : Nat) (p q : Pass σ ε) : Prop where
  sink : q.sink = calls.foldl x.sink.offer p.sink
  hits : q.stats.hits = p.stats.hits + calls.length
  tested : q.stats.tested = p.stats.tested + tested
  earlier : ∀ k, 0 < k → k < calls.length → x.sink.complete ((calls.take k).foldl x.sink.offer p.sink) = false
  unchanged : calls = [] → q.stats.complete = p.stats.complete
  complete : calls ≠ [] → q.stats.complete = x.sink.complete q.sink

variable {x : Setup M A E σ ε} {p q r : Pass σ ε} {calls later : List (Candidate M A E)} {n m : Nat}

theorem Accounts.none (hsink : q.sink = p.sink) (hhits : q.stats.hits = p.stats.hits)
    (htested : q.stats.tested = p.stats.tested + n) (hcomplete : q.stats.complete = p.stats.complete) :
    Accounts x [] n p q where
  sink := hsink
  hits := hhits
  tested := htested
  earlier k _ hlt := absurd hlt (Nat.not_lt_zero k)
  unchanged _ := hcomplete
  complete h := absurd rfl h

/-- One call. -/
theorem Accounts.offer (c : Candidate M A E) (p : Pass σ ε) : Accounts x [c] 0 p (p.offer x c) where
  sink := rfl
  hits := rfl
  tested := rfl
  earlier k hpos hlt := by
    rw [List.length_singleton] at hlt
    omega
  unchanged h := by cases h
  complete _ := rfl

theorem Accounts.append (h : Accounts x calls n p q) (hq : q.stats.complete = false) (h' : Accounts x later m q r) :
    Accounts x (calls ++ later) (n + m) p r where
  sink := by rw [List.foldl_append, ← h.sink, h'.sink]
  hits := by
    rw [h'.hits, h.hits, List.length_append]
    omega
  tested := by
    rw [h'.tested, h.tested]
    omega
  earlier k hpos hlt := by
    rw [List.length_append] at hlt
    rw [List.take_append, List.foldl_append]
    by_cases hk : k < calls.length
    · rw [Nat.sub_eq_zero_of_le (by omega), List.take_zero, List.foldl_nil]
      exact h.earlier k hpos hk
    · rw [List.take_of_length_le (by omega), ← h.sink]
      by_cases hlast : k = calls.length
      · -- behind the last of the first calls the sink was not complete either
        have hne : calls ≠ [] := by
          rintro rfl
          rw [hlast] at hpos
          exact Nat.lt_irrefl 0 hpos
        rw [hlast, Nat.sub_self, List.take_zero, List.foldl_nil, ← h.complete hne, hq]
      · exact h'.earlier (k - calls.length) (by omega) (by omega)
  unchanged hnil := by
    obtain ⟨hcalls, hlater⟩ := List.append_eq_nil_iff.mp hnil
    rw [h'.unchanged hlater, h.unchanged hcalls]
  complete hne := by
    by_cases hlater : later = []
    · have hcalls : calls ≠ [] := fun hcalls => hne (by rw [hcalls, hlater]; rfl)
      have hsink : r.sink = q.sink := by rw [h'.sink, hlater, List.foldl_nil]
      rw [h'.unchanged hlater, h.complete hcalls, hsink]
    · exact h'.complete hlater

/-- Only the sink and the counts matter. -/
theorem Accounts.congr {p' q' : Pass σ ε} (h : Accounts x calls n p q) (hp : p'.sink = p.sink)
    (hhits : p'.stats.hits = p.stats.hits) (htested : p'.stats.tested = p.stats.tested)
    (hcomplete : p'.stats.complete = p.stats.complete) (hq : q'.sink = q.sink) (hstats : q'.stats = q.stats) :
    Accounts x calls n p' q' where
  sink := by rw [hq, hp, h.sink]
  hits := by rw [hstats, hhits, h.hits]
  tested := by rw [hstats, htested, h.tested]
  earlier := by
    rw [hp]
    exact h.earlier
  unchanged := by
    rw [hstats, hcomplete]
    exact h.unchanged
  complete := by
    rw [hstats, hq]
    exact h.complete

theorem accounts_countTest (p : Pass σ ε) : Accounts x [] 1 p p.countTest := .none rfl rfl rfl rfl

variable [GateAlgebra M]

/-- A matrix is tested with all completions, or with those up to the one that makes the sink complete. -/
theorem tryCompletions_cases (source : Source) (m : M) (hp : p.stats.complete = false) (cs : List (Completion M)) :
    (Accounts x (x.probe.hitsOf source m cs) cs.length p (p.tryCompletions x source m cs) ∧
        (p.tryCompletions x source m cs).stats.complete = false) ∨
      ∃ ds c es, cs = ds ++ c :: es ∧ x.probe.isDiagonal (c.matrix * m) = true ∧
        Accounts x (x.probe.hitsOf source m (ds ++ [c])) (ds.length + 1) p (p.tryCompletions x source m cs) ∧
        (p.tryCompletions x source m cs).stats.complete = true := by
  induction cs generalizing p with
  | nil => exact Or.inl ⟨.none rfl rfl rfl rfl, hp⟩
  | cons c cs ih =>
    have hcount := accounts_countTest (x := x) p
    rw [tryCompletions]
    split
    · rename_i hdiag
      have hoffer := hcount.append hp (Accounts.offer (x.probe.candidate source m c) p.countTest)
      dsimp only
      split
      · rename_i hstop
        refine Or.inr ⟨[], c, cs, rfl, hdiag, ?_, hstop⟩
        rw [List.nil_append, Probe.hitsOf_cons_of_diagonal hdiag]
        exact hoffer
      · rename_i hgo
        have hgo := eq_false_of_ne_true hgo
        rcases ih hgo with ⟨hrest, hend⟩ | ⟨ds, d, es, rfl, hd, hrest, hend⟩
        · refine Or.inl ⟨?_, hend⟩
          rw [Probe.hitsOf_cons_of_diagonal hdiag, List.length_cons, Nat.add_comm]
          exact hoffer.append hgo hrest
        · refine Or.inr ⟨c :: ds, d, es, rfl, hd, ?_, hend⟩
          rw [List.cons_append, Probe.hitsOf_cons_of_diagonal hdiag, List.length_cons, Nat.add_right_comm,
            Nat.add_comm]
          exact hoffer.append hgo hrest
    · rename_i hdiag
      have hdiag := eq_false_of_ne_true hdiag
      rcases ih (p := p.countTest) hp with ⟨hrest, hend⟩ | ⟨ds, d, es, rfl, hd, hrest, hend⟩
      · refine Or.inl ⟨?_, hend⟩
        rw [Probe.hitsOf_cons_of_not_diagonal hdiag, List.length_cons, Nat.add_comm]
        exact hcount.append hp hrest
      · refine Or.inr ⟨c :: ds, d, es, rfl, hd, ?_, hend⟩
        rw [List.cons_append, Probe.hitsOf_cons_of_not_diagonal hdiag, List.length_cons, Nat.add_right_comm,
          Nat.add_comm]
        exact hcount.append hp hrest

/-! ### Ends -/

variable [Storable M]

/-- How a pass can end that goes through a list of sources, and how many of them it has counted then. -/
inductive Ends (x : Setup M A E σ ε) (b : Buffer M) (p : Pass σ ε) : List Source → Nat → Pass σ ε → Prop
  | through (ss : List Source) {q : Pass σ ε}
      (h : Accounts x (ss.flatMap (x.probe.hits b)) (3 * ss.length) p q)
      (hcomplete : q.stats.complete = false) (hinterrupt : q.interrupt = none) : Ends x b p ss ss.length q
  | interrupted (i : Interrupt) (ss : List Source) {ts : List Source} {s : Source} {q : Pass σ ε}
      (h : Accounts x (ss.flatMap (x.probe.hits b)) (3 * ss.length) p q)
      (hcomplete : q.stats.complete = false) (hinterrupt : q.interrupt = some i) :
      Ends x b p (ss ++ s :: ts) (ss.length + 1) q
  | completed (ss : List Source) {ts : List Source} {s : Source} {ds es : List (Completion M)} {c : Completion M}
      {q : Pass σ ε}
      (hc : completions = ds ++ c :: es) (hdiag : x.probe.isDiagonal (c.matrix * s.matrix b) = true)
      (h : Accounts x (ss.flatMap (x.probe.hits b) ++ x.probe.hitsOf s (s.matrix b) (ds ++ [c]))
        (3 * ss.length + (ds.length + 1)) p q)
      (hcomplete : q.stats.complete = true) (hinterrupt : q.interrupt = none) :
      Ends x b p (ss ++ s :: ts) (ss.length + 1) q

variable {b : Buffer M} {ss : List Source}

theorem Ends.congr (h : Ends x b p ss n q) {q' : Pass σ ε} (hsink : q'.sink = q.sink) (hstats : q'.stats = q.stats)
    (hinterrupt : q'.interrupt = q.interrupt) : Ends x b p ss n q' := by
  cases h with
  | through _ h hcomplete hi =>
    exact .through _ (h.congr rfl rfl rfl rfl hsink hstats) (by rw [hstats, hcomplete]) (hinterrupt.trans hi)
  | interrupted i _ h hcomplete hi =>
    exact .interrupted i _ (h.congr rfl rfl rfl rfl hsink hstats) (by rw [hstats, hcomplete]) (hinterrupt.trans hi)
  | completed _ hc hdiag h hcomplete hi =>
    exact .completed _ hc hdiag (h.congr rfl rfl rfl rfl hsink hstats) (by rw [hstats, hcomplete])
      (hinterrupt.trans hi)

/-- A source that was tested before the others. -/
theorem Ends.cons {s : Source} (hfirst : Accounts x (x.probe.hits b s) 3 p q) (hq : q.stats.complete = false)
    (h : Ends x b q ss n r) : Ends x b p (s :: ss) (n + 1) r := by
  have hflat (ts : List Source) : (s :: ts).flatMap (x.probe.hits b) =
      x.probe.hits b s ++ ts.flatMap (x.probe.hits b) := List.flatMap_cons
  have hlength (ts : List Source) : 3 * (s :: ts).length = 3 + 3 * ts.length := by
    rw [List.length_cons]
    omega
  cases h with
  | through _ h hcomplete hi =>
    refine .through (s :: ss) ?_ hcomplete hi
    rw [hflat, hlength]
    exact hfirst.append hq h
  | interrupted i ss h hcomplete hi =>
    refine .interrupted i (s :: ss) ?_ hcomplete hi
    rw [hflat, hlength]
    exact hfirst.append hq h
  | completed ss hc hdiag h hcomplete hi =>
    refine .completed (s :: ss) hc hdiag ?_ hcomplete hi
    rw [hflat, hlength, List.append_assoc, Nat.add_assoc]
    exact hfirst.append hq h

/-- What a course does when it counts, and what it tests. -/
structure Course.Follows (c : Course M σ ε) (b : Buffer M) : Prop where
  matrix : ∀ n, c.matrix n = (c.source n).matrix b
  tests : c.tests = completions
  count : ∀ p n, ∃ visited products,
    c.count p n = { p with stats := { p.stats with visited := visited, products := products } }

section

variable {c : Course M σ ε} {stage : Stage} (hc : c.Counts stage) (hf : c.Follows b)

include hc hf

/-- One step goes on with its source tested, or it ends the pass. -/
theorem step_ends (h : p.AtStep stage n) (hp : p.stats.complete = false) (ts : List Source) :
    let q := c.step x p n
    q.1.stats.stage = stage ∧ q.1.stats.steps = n + 1 ∧
      (q.2 = false ∧ q.1.AtStep stage (n + 1) ∧ q.1.stats.complete = false ∧
          Accounts x (x.probe.hits b (c.source n)) 3 p q.1 ∨
        q.2 = true ∧ Ends x b p (c.source n :: ts) 1 q.1) := by
  intro q
  have hat := hc.atStep h
  obtain ⟨visited, products, hcount⟩ := hf.count p n
  have hq : q = (c.count p n).work x (n + 1) c.total (c.source n) ((c.source n).matrix b) completions := by
    show c.step x p n = _
    rw [Course.step, hc.number h, hf.matrix, hf.tests]
  cases hpoll : ((c.count p n).pollDue x (n + 1)).interrupt with
  | some i =>
    have hstop : q = ((c.count p n).pollDue x (n + 1), true) := by
      rw [hq]
      unfold work
      exact if_pos (by simp [hpoll])
    rw [hstop]
    dsimp only
    rw [stats_pollDue]
    refine ⟨hat.stage, hat.steps, Or.inr ⟨rfl, .interrupted i [] ?_ ?_ hpoll⟩⟩
    · apply Accounts.none
      · rw [sink_pollDue, hcount]
      · rw [stats_pollDue, hcount]
      · rw [stats_pollDue, hcount]
        rfl
      · rw [stats_pollDue, hcount]
    · rw [stats_pollDue, hcount]
      exact hp
  | none =>
    have hwork : q.1.AtStep stage (n + 1) := by
      rw [hq]
      exact hat.work hpoll
    refine ⟨hwork.stage, hwork.steps, ?_⟩
    -- what the step has done before its tests changes neither the sink nor the counts of tests and candidates
    obtain ⟨ready, hready⟩ : ∃ ready, ((c.count p n).pollDue x (n + 1)).reportDue x (n + 1) c.total = ready := ⟨_, rfl⟩
    have hsink : ready.sink = p.sink := by simp [← hready, hcount]
    have hstats : ready.stats = { p.stats with visited := visited, products := products } := by simp [← hready, hcount]
    have hnone : ready.interrupt = none := by rw [← hready, interrupt_reportDue, hpoll]
    have hgo : q = (ready.tryCompletions x (c.source n) ((c.source n).matrix b) completions,
        (ready.tryCompletions x (c.source n) ((c.source n).matrix b) completions).stats.complete) := by
      rw [hq, ← hready]
      unfold work
      exact if_neg (by simp [hpoll])
    have hend := interrupt_tryCompletions (x := x) (p := ready) (c.source n) ((c.source n).matrix b) completions
    have hcases := tryCompletions_cases (x := x) (c.source n) ((c.source n).matrix b)
      (show ready.stats.complete = false by rw [hstats, hp]) completions
    rw [hgo] at hwork ⊢
    rcases hcases with ⟨haccounts, hcomplete⟩ | ⟨ds, d, es, hds, hdiag, haccounts, hcomplete⟩
    · refine Or.inl ⟨hcomplete, hwork, hcomplete, haccounts.congr hsink.symm ?_ ?_ ?_ rfl rfl⟩
      all_goals rw [hstats]
    · refine Or.inr ⟨hcomplete, .completed [] hds hdiag ?_ hcomplete (hend.trans hnone)⟩
      rw [List.length_nil, Nat.mul_zero, Nat.zero_add, List.flatMap_nil, List.nil_append]
      refine haccounts.congr hsink.symm ?_ ?_ ?_ rfl rfl
      all_goals rw [hstats]

/-- A walk along a course ends in one of the three ways. -/
theorem walk_ends (h : p.AtStep stage n) (hp : p.stats.complete = false) (k : Nat) :
    let q := walk (c.step x) p (List.range' n k)
    ∃ j, Ends x b p ((List.range' n k).map c.source) j q.1 ∧ q.1.stats.stage = stage ∧ q.1.stats.steps = n + j ∧
      walked (c.step x) p (List.range' n k) = j := by
  dsimp only
  induction k generalizing p n with
  | zero =>
    refine ⟨0, .through [] (.none rfl rfl rfl rfl) hp h.interrupt, h.stage, h.steps, rfl⟩
  | succ k ih =>
    rw [List.range'_succ, List.map_cons]
    obtain ⟨hstage, hsteps, ⟨hflag, hat, hcomplete, hfirst⟩ | ⟨hflag, hend⟩⟩ :=
      step_ends hc hf (x := x) h hp ((List.range' (n + 1) k).map c.source)
    · obtain ⟨j, hends, hstage, hsteps, htaken⟩ := ih hat hcomplete
      rw [walk_cons_of_go hflag, walked, if_neg (by simp [hflag]), htaken]
      exact ⟨j + 1, hends.cons hfirst hcomplete, hstage, by omega, rfl⟩
    · rw [walk_cons_of_stop hflag, walked, if_pos hflag]
      exact ⟨1, hend, hstage, hsteps, rfl⟩

end

end Pass

/-! ### The first pass -/

variable [GateAlgebra M] [Storable M]

/-- The first pass on any buffer goes through the missing entries. -/
def pendingCourse (b : Buffer M) : Pass.Course M σ ε :=
  { entryCourse b with
    source := fun n => .single (b.filled + n)
    matrix := fun n => b.fillAll.entry (b.filled + n) }

theorem pendingCourse_counts (b : Buffer M) : (pendingCourse b : Pass.Course M σ ε).Counts .exhaustive where
  atStep h := (entryCourse_counts b).atStep h
  number h := (entryCourse_counts b).number h

theorem pendingCourse_follows (b : Buffer M) : (pendingCourse b : Pass.Course M σ ε).Follows b.fillAll where
  matrix _ := rfl
  tests := rfl
  count _ _ := ⟨_, _, rfl⟩

theorem map_source_pendingCourse (b : Buffer M) (k : Nat) :
    (List.range' 0 k).map (pendingCourse b : Pass.Course M σ ε).source = (List.range' b.filled k).map .single := by
  rw [← Nat.add_zero b.filled, ← List.map_add_range', List.map_map]
  rfl

variable (x : Setup M A E σ ε)

theorem fill_eq_walk (b : Buffer M) (p : Pass σ ε) :
    let step := (pendingCourse b).step x
    let numbers := List.range' 0 (b.capacity - b.filled)
    b.fill (visitEntry x completions b.capacity) p = (Buffer.step^[walked step p numbers] b, walk step p numbers) := by
  intro step numbers
  have hpending : b.pending = numbers.map (b.filled + ·) := by
    rw [Buffer.pending, List.map_add_range', Nat.add_zero]
  obtain ⟨hwalk, htaken⟩ := walk_map (fun p i => visitEntry x completions b.capacity p i (b.fillAll.entry i))
    (b.filled + ·) p numbers
  refine Prod.ext ?_ ?_
  · rw [Buffer.fill_fst, hpending, htaken]
    rfl
  · rw [Buffer.fill_snd, hpending, hwalk]
    rfl

/-- The first pass, if the empty word does not make the sink complete. -/
theorem exhaustive_ends [Zero A] [Zero E] {s : σ} (hseed : x.sink.complete (x.sink.offer s seed) = false)
    (b : Buffer M) (polls : Nat) :
    let r := exhaustive x b s polls
    Pass.Ends x b.fillAll (seeded x s polls) (entrySources b.filled b.capacity) r.2.stats.visited r.2 ∧
      r.1 = Buffer.step^[r.2.stats.visited] b := by
  dsimp only
  have hstart : (seeded x s polls).AtStep .exhaustive 0 := ⟨rfl, rfl, rfl⟩
  obtain ⟨j, hends, hstage, hsteps, htaken⟩ := Pass.walk_ends (pendingCourse_counts b) (pendingCourse_follows b)
    (x := x) hstart hseed (b.capacity - b.filled)
  rw [map_source_pendingCourse] at hends
  rw [Stats.steps, hstage, Nat.zero_add] at hsteps
  rw [exhaustive_of_seed_not_complete hseed, fill_eq_walk]
  dsimp only
  rw [Pass.stats_report]
  refine ⟨?_, by rw [htaken]; exact congrArg (fun k => Buffer.step^[k] b) hsteps.symm⟩
  rw [show (walk ((pendingCourse b).step x) (seeded x s polls) _).1.stats.visited = j from hsteps]
  exact hends.congr (Pass.sink_report ..) (Pass.stats_report ..) (Pass.interrupt_report ..)

/-! ### The second pass -/

theorem productCourse_follows (b : Buffer M) : (productCourse b : Pass.Course M σ ε).Follows b where
  matrix _ := rfl
  tests := rfl
  count _ _ := ⟨_, _, rfl⟩

/-- The second pass, if it is not refused and the sink is not complete before. -/
theorem meetInTheMiddle_ends {b : Buffer M} {s : σ} (hrefused : (!b.full && x.options.requireFilled) = false)
    (hs : x.sink.complete s = false) (polls : Nat) :
    let full := if b.full then b else b.fillAll
    let r := meetInTheMiddle x b s polls
    Pass.Ends x full (Pass.start .meetInTheMiddle s polls) (pairSources b.longest b.capacity)
        r.2.1.stats.products r.2.1 ∧
      r.1 = full ∧ r.2.2 = none := by
  intro full
  dsimp only
  have hlongest : full.longest = b.longest := by
    show (if b.full then b else b.fillAll).longest = b.longest
    split
    · rfl
    · exact Buffer.longest_fillAll b
  have hcapacity : full.capacity = b.capacity := by
    show (if b.full then b else b.fillAll).capacity = b.capacity
    split
    · rfl
    · exact Buffer.capacity_fillAll b
  have hstart : (Pass.start .meetInTheMiddle s polls : Pass σ ε).AtStep .meetInTheMiddle 0 := ⟨rfl, rfl, rfl⟩
  obtain ⟨j, hends, hstage, hsteps, -⟩ := Pass.walk_ends (productCourse_counts full) (productCourse_follows full)
    (x := x) hstart rfl (productCount full)
  have hsources : (List.range' 0 (productCount full)).map (productCourse full : Pass.Course M σ ε).source =
      pairSources b.longest b.capacity := by
    rw [← List.range_eq_range', ← hlongest, ← hcapacity]
    exact map_productSource full
  rw [hsources] at hends
  rw [Stats.steps, hstage, Nat.zero_add] at hsteps
  have hrun : meetInTheMiddle x b s polls =
      (full, (visitProducts x completions full (productCount full) 0 (Pass.start .meetInTheMiddle s polls)).report x
        (visitProducts x completions full (productCount full) 0 (Pass.start .meetInTheMiddle s polls)).stats.products
        (productCount full), none) := by
    simp [meetInTheMiddle, hrefused, hs, full]
  rw [hrun, visitProducts_eq_walk]
  dsimp only
  rw [Pass.stats_report]
  refine ⟨?_, rfl, rfl⟩
  rw [show (walk (fun p n => visitProduct x completions full n p) _ _).1.stats.products = j from hsteps]
  exact hends.congr (Pass.sink_report ..) (Pass.stats_report ..) (Pass.interrupt_report ..)

end Search

end CliffordT
