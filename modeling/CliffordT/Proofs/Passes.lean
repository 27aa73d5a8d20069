import CliffordT.Double
import CliffordT.Proofs.Filling
import CliffordT.Search.Exhaustive
import CliffordT.Search.MeetInTheMiddle

/-!
# What the passes of a search offer

A pass goes through a list of sources, forms the matrix of each from the entries of the buffer, and offers the diagonal
products with the completions to its sink, until the sink is complete.  This file says so (`Pass.Tests`): counting,
reporting, polling and the filling of the buffer in between make no difference to what the sink is given.

* The first pass offers the empty word and then tests the entries that were missing (`exhaustive_offers`).
* The second pass tests the shorter lists, each followed by every longest list (`meetInTheMiddle_offers`).

Together they are a plain enumeration of candidates, cut off where the sink is complete
(`passes_refine_enumeration`).
-/

namespace CliffordT

/-! ### Sources and their candidates -/

section

variable {M A E : Type} [GateAlgebra M]

/-- The lists `lo, …, hi - 1` by themselves. -/
def entrySources (lo hi : Nat) : List Source := (List.range' lo (hi - lo)).map Source.single

/-- Every list below `lo` followed by each of the lists `lo, …, hi - 1`. -/
def pairSources (lo hi : Nat) : List Source :=
  (List.range lo).flatMap fun p => (List.range' lo (hi - lo)).map (Source.joined p)

/-- The matrix of a source, made from the entries of a buffer. -/
def Source.matrix [Storable M] (b : Buffer M) : Source → M
  | single i => b.entry i
  | joined p s => b.entry s * b.entry p

/-- The candidate that a matrix makes with a completion. -/
def Probe.candidate (probe : Probe M A E) (source : Source) (m : M) (c : Completion M) : Candidate M A E :=
  ⟨probe.phase (c.matrix * m), source.word c, c.matrix * m, probe.error (c.matrix * m)⟩

/-- The candidates of a matrix with some completions: those for which the product is diagonal, in order. -/
def Probe.hitsOf (probe : Probe M A E) (source : Source) (m : M) (cs : List (Completion M)) :
    List (Candidate M A E) :=
  (cs.filter fun c => probe.isDiagonal (c.matrix * m)).map (probe.candidate source m)

theorem Probe.hitsOf_cons_of_diagonal {probe : Probe M A E} {m : M} {c : Completion M}
    (h : probe.isDiagonal (c.matrix * m) = true) (source : Source) (cs : List (Completion M)) :
    probe.hitsOf source m (c :: cs) = probe.candidate source m c :: probe.hitsOf source m cs := by
  simp [hitsOf, h]

theorem Probe.hitsOf_cons_of_not_diagonal {probe : Probe M A E} {m : M} {c : Completion M}
    (h : probe.isDiagonal (c.matrix * m) = false) (source : Source) (cs : List (Completion M)) :
    probe.hitsOf source m (c :: cs) = probe.hitsOf source m cs := by
  simp [hitsOf, h]

/-- The candidates of a source. -/
def Probe.hits [Storable M] (probe : Probe M A E) (b : Buffer M) (source : Source) : List (Candidate M A E) :=
  probe.hitsOf source (source.matrix b) completions

/-- The pairs, numbered through: with `w` second lists, pair `n` is list `n / w` and second list `n % w`. -/
theorem pairSources_eq_map (lo hi : Nat) :
    pairSources lo hi =
      (List.range (lo * (hi - lo))).map fun n => Source.joined (n / (hi - lo)) (lo + n % (hi - lo)) := by
  -- the induction is on the number of first lists, with the number of second lists held fixed
  have hgen : ∀ w m : Nat, ((List.range m).flatMap fun p => (List.range' lo w).map (Source.joined p)) =
      (List.range (m * w)).map fun n => Source.joined (n / w) (lo + n % w) := by
    intro w m
    induction m with
    | zero => simp
    | succ m ih =>
      rw [List.range_succ, List.flatMap_append, ih, Nat.succ_mul, List.range_add, List.map_append]
      congr 1
      rw [List.flatMap_singleton, List.range'_eq_map_range, List.map_map, List.map_map]
      apply List.map_congr_left
      intro k hk
      rw [List.mem_range] at hk
      have hdiv : (m * w + k) / w = m := by
        rw [Nat.mul_comm, Nat.mul_add_div (by omega), Nat.div_eq_of_lt hk, Nat.add_zero]
      have hmod : (m * w + k) % w = k := by
        rw [Nat.mul_comm, Nat.mul_add_mod, Nat.mod_eq_of_lt hk]
      simp only [Function.comp_apply, hdiv, hmod]
  exact hgen _ _

end

namespace Search

variable {M A E σ ε : Type}

/-- The same setup, with a sink that also writes down what it is offered. -/
def Setup.recording (x : Setup M A E σ ε) : Setup M A E (σ × List (Candidate M A E)) ε where
  probe := x.probe
  sink := x.sink.recording
  options := x.options
  observe := x.observe.map fun f progress s => f progress s.1
  poll := x.poll

/-- The source of product number `n`. -/
def productSource (b : Buffer M) (n : Nat) : Source :=
  .joined (n / longestCount b) (b.longest + n % longestCount b)

theorem map_productSource (b : Buffer M) :
    (List.range (productCount b)).map (productSource b) = pairSources b.longest b.capacity :=
  (pairSources_eq_map b.longest b.capacity).symm

/-! ### What does not touch the sink -/

namespace Pass

variable (x : Setup M A E σ ε)

@[simp] theorem sink_report (done total : Nat) (p : Pass σ ε) : (p.report x done total).sink = p.sink := by
  unfold report
  split <;> rfl

@[simp] theorem stats_report (done total : Nat) (p : Pass σ ε) : (p.report x done total).stats = p.stats := by
  unfold report
  split <;> rfl

@[simp] theorem interrupt_report (done total : Nat) (p : Pass σ ε) :
    (p.report x done total).interrupt = p.interrupt := by
  unfold report
  split <;> rfl

@[simp] theorem sink_reportDue (n total : Nat) (p : Pass σ ε) : (p.reportDue x n total).sink = p.sink := by
  unfold reportDue
  split <;> simp

@[simp] theorem stats_reportDue (n total : Nat) (p : Pass σ ε) : (p.reportDue x n total).stats = p.stats := by
  unfold reportDue
  split <;> simp

@[simp] theorem interrupt_reportDue (n total : Nat) (p : Pass σ ε) :
    (p.reportDue x n total).interrupt = p.interrupt := by
  unfold reportDue
  split <;> simp

@[simp] theorem sink_pollDue (n : Nat) (p : Pass σ ε) : (p.pollDue x n).sink = p.sink := by
  unfold pollDue
  split <;> rfl

@[simp] theorem stats_pollDue (n : Nat) (p : Pass σ ε) : (p.pollDue x n).stats = p.stats := by
  unfold pollDue
  split <;> rfl

theorem interrupt_pollDue {x : Setup M A E σ ε} (hpoll : ∀ k, x.poll k = none) (n : Nat) {p : Pass σ ε}
    (h : p.interrupt = none) : (p.pollDue x n).interrupt = none := by
  unfold pollDue
  split
  · exact hpoll _
  · exact h

end Pass

/-! ### Testing sources -/

variable [GateAlgebra M]

namespace Pass

theorem interrupt_tryCompletions {x : Setup M A E σ ε} {p : Pass σ ε} (source : Source) (m : M)
    (cs : List (Completion M)) : (p.tryCompletions x source m cs).interrupt = p.interrupt := by
  induction cs generalizing p with
  | nil => rfl
  | cons c cs ih =>
    rw [tryCompletions]
    split
    · dsimp only
      split
      · rfl
      · exact ih
    · exact ih

section

variable (x : Setup M A E σ ε) (source : Source) (m : M)

/-- One matrix tested with some completions, from a pass whose sink is not complete. -/
structure Tries (cs : List (Completion M)) (p q : Pass σ ε) : Prop where
  offered : (q.sink, q.stats.complete) = x.sink.offerAll p.sink (x.probe.hitsOf source m cs)
  interrupt : q.interrupt = p.interrupt
  tested : q.stats.complete = false → q.stats.tested = p.stats.tested + cs.length

variable {x source m} {c : Completion M} {cs : List (Completion M)} {p : Pass σ ε}

/-- A product that is not diagonal is counted and passed over. -/
private theorem tries_skip {q : Pass σ ε} (h : x.probe.isDiagonal (c.matrix * m) = false)
    (ht : Tries x source m cs p.countTest q) : Tries x source m (c :: cs) p q where
  offered := by
    rw [Probe.hitsOf_cons_of_not_diagonal h]
    exact ht.offered
  interrupt := ht.interrupt
  tested hq := by
    have : p.countTest.stats.tested = p.stats.tested + 1 := rfl
    rw [ht.tested hq, this, List.length_cons]
    omega

/-- A diagonal product is offered, and the rest is tested if the sink is not complete then. -/
private theorem tries_hit {q : Pass σ ε} (h : x.probe.isDiagonal (c.matrix * m) = true)
    (hgo : x.sink.complete (x.sink.offer p.sink (x.probe.candidate source m c)) = false)
    (ht : Tries x source m cs (p.countTest.offer x (x.probe.candidate source m c)) q) :
    Tries x source m (c :: cs) p q where
  offered := by
    rw [Probe.hitsOf_cons_of_diagonal h, Sink.offerAll_cons_of_not_complete hgo]
    exact ht.offered
  interrupt := ht.interrupt
  tested hq := by
    have : (p.countTest.offer x (x.probe.candidate source m c)).stats.tested = p.stats.tested + 1 := rfl
    rw [ht.tested hq, this, List.length_cons]
    omega

/-- A diagonal product with which the sink is complete ends the tests. -/
private theorem tries_stop (h : x.probe.isDiagonal (c.matrix * m) = true)
    (hstop : x.sink.complete (x.sink.offer p.sink (x.probe.candidate source m c)) = true) :
    Tries x source m (c :: cs) p (p.countTest.offer x (x.probe.candidate source m c)) where
  offered := by
    rw [Probe.hitsOf_cons_of_diagonal h, Sink.offerAll_cons_of_complete hstop, ← hstop]
    rfl
  interrupt := rfl
  tested hq := by
    have : true = false := hstop.symm.trans hq
    cases this

variable (x source m cs) in
theorem tryCompletions_tries (hp : p.stats.complete = false) :
    Tries x source m cs p (p.tryCompletions x source m cs) := by
  induction cs generalizing p with
  | nil => exact ⟨by rw [tryCompletions, hp]; rfl, rfl, fun _ => rfl⟩
  | cons c cs ih =>
    rw [tryCompletions]
    split
    · rename_i hdiag
      dsimp only
      split
      · rename_i hstop
        exact tries_stop hdiag hstop
      · rename_i hgo
        have hgo := eq_false_of_ne_true hgo
        exact tries_hit hdiag hgo (ih hgo)
    · rename_i hdiag
      exact tries_skip (eq_false_of_ne_true hdiag) (ih (p := p.countTest) hp)

end

variable [Storable M]

/-- Sources tested in order, with matrices from a buffer, up to where the sink is complete. -/
structure Tests (x : Setup M A E σ ε) (b : Buffer M) (sources : List Source) (p q : Pass σ ε) : Prop where
  offered : (q.sink, q.stats.complete) = x.sink.offerAll p.sink (sources.flatMap (x.probe.hits b))
  interrupt : q.interrupt = none
  tested : q.stats.complete = false → q.stats.tested = p.stats.tested + 3 * sources.length

variable {x : Setup M A E σ ε} {b : Buffer M} {ss ts : List Source} {p q r : Pass σ ε}

theorem Tests.sink (h : Tests x b ss p q) : q.sink = (x.sink.offerAll p.sink (ss.flatMap (x.probe.hits b))).1 :=
  congrArg Prod.fst h.offered

theorem Tests.complete (h : Tests x b ss p q) :
    q.stats.complete = (x.sink.offerAll p.sink (ss.flatMap (x.probe.hits b))).2 :=
  congrArg Prod.snd h.offered

theorem Tests.nil (hp : p.stats.complete = false) (hi : p.interrupt = none) : Tests x b [] p p :=
  ⟨by rw [hp]; rfl, hi, fun _ => rfl⟩

theorem Tests.append_of_not_complete (h : Tests x b ss p q) (hq : q.stats.complete = false)
    (h' : Tests x b ts q r) : Tests x b (ss ++ ts) p r where
  offered := by
    rw [List.flatMap_append, Sink.offerAll_append_of_not_complete (h.complete.symm.trans hq), ← h.sink]
    exact h'.offered
  interrupt := h'.interrupt
  tested hr := by
    rw [h'.tested hr, h.tested hq, List.length_append]
    omega

theorem Tests.append_of_complete (h : Tests x b ss p q) (hq : q.stats.complete = true) (ts : List Source) :
    Tests x b (ss ++ ts) p q where
  offered := by
    rw [List.flatMap_append, Sink.offerAll_append_of_complete (h.complete.symm.trans hq)]
    exact h.offered
  interrupt := h.interrupt
  tested hr := by
    rw [hq] at hr
    cases hr

/-- If every step tests one source and stops when the sink is complete, a walk tests all sources in order. -/
theorem tests_walk {α : Type} {step : Pass σ ε → α → Pass σ ε × Bool} (source : α → Source)
    (hstep : ∀ p a, p.stats.complete = false → p.interrupt = none →
      Tests x b [source a] p (step p a).1 ∧ (step p a).2 = (step p a).1.stats.complete)
    (hp : p.stats.complete = false) (hi : p.interrupt = none) (as : List α) :
    Tests x b (as.map source) p (walk step p as).1 ∧ (walk step p as).2 = (walk step p as).1.stats.complete := by
  induction as generalizing p with
  | nil => exact ⟨Tests.nil hp hi, hp.symm⟩
  | cons a as ih =>
    obtain ⟨htest, hflag⟩ := hstep p a hp hi
    cases hstop : (step p a).2 with
    | true =>
      -- the sink is complete, so it would take nothing from the other sources
      rw [walk_cons_of_stop hstop]
      exact ⟨htest.append_of_complete (hflag.symm.trans hstop) (as.map source), hflag ▸ hstop.symm⟩
    | false =>
      have hgo := hflag.symm.trans hstop
      obtain ⟨htail, hend⟩ := ih hgo htest.interrupt
      rw [walk_cons_of_go hstop]
      exact ⟨htest.append_of_not_complete hgo htail, hend⟩

/-- Testing one source, after steps that leave sink and counters of tests alone. -/
theorem tests_tryCompletions {p' : Pass σ ε} (source : Source) (hsink : p'.sink = p.sink)
    (hcomplete : p'.stats.complete = false) (htested : p'.stats.tested = p.stats.tested)
    (hi : p'.interrupt = none) :
    Tests x b [source] p (p'.tryCompletions x source (source.matrix b) completions) := by
  have h := tryCompletions_tries x source (source.matrix b) completions hcomplete
  refine ⟨?_, h.interrupt.trans hi, fun hq => ?_⟩
  · rw [List.flatMap_singleton, ← hsink]
    exact h.offered
  · rw [h.tested hq, htested]
    rfl

end Pass

/-! ### The first pass -/

variable [Storable M] {x : Setup M A E σ ε}

private theorem visitEntry_tests (hpoll : ∀ k, x.poll k = none) (b : Buffer M) (total : Nat) (p : Pass σ ε) (i : Nat)
    (hp : p.stats.complete = false) (hi : p.interrupt = none) :
    Pass.Tests x b [.single i] p (visitEntry x completions total p i (b.entry i)).1 ∧
      (visitEntry x completions total p i (b.entry i)).2 =
        (visitEntry x completions total p i (b.entry i)).1.stats.complete := by
  have hnone := Pass.interrupt_pollDue hpoll (p.stats.visited + 1)
    (p := { p with stats := { p.stats with visited := p.stats.visited + 1 } }) hi
  unfold visitEntry
  dsimp only
  rw [if_neg (by rw [hnone]; simp)]
  refine ⟨Pass.tests_tryCompletions (.single i) (by simp) ?_ (by simp) ?_, rfl⟩
  · simpa using hp
  · rw [Pass.interrupt_reportDue, hnone]

/-- The filling of the first pass, from a pass whose sink is not complete. -/
theorem tests_fill (hpoll : ∀ k, x.poll k = none) (b : Buffer M) (total : Nat) {p : Pass σ ε}
    (hp : p.stats.complete = false) (hi : p.interrupt = none) (is : List Nat) :
    Pass.Tests x b.fillAll (is.map .single) p
        (walk (fun p i => visitEntry x completions total p i (b.fillAll.entry i)) p is).1 ∧
      (walk (fun p i => visitEntry x completions total p i (b.fillAll.entry i)) p is).2 =
        (walk (fun p i => visitEntry x completions total p i (b.fillAll.entry i)) p is).1.stats.complete :=
  Pass.tests_walk .single (fun p i hp hi => visitEntry_tests hpoll b.fillAll total p i hp hi) hp hi is

section

variable [Zero A] [Zero E]

/-- What the first pass offers, if it is not interrupted and its sink never complete. -/
def firstOffers (probe : Probe M A E) (b : Buffer M) (hi : Nat) : List (Candidate M A E) :=
  seed :: (entrySources b.filled hi).flatMap (probe.hits b.fillAll)

variable (x) in
/-- The first pass behind the empty word. -/
def seeded (s : σ) (polls : Nat) : Pass σ ε := (Pass.start .exhaustive s polls).offer x seed

theorem exhaustive_of_seed_complete {s : σ} (h : x.sink.complete (x.sink.offer s seed) = true) (b : Buffer M)
    (polls : Nat) :
    exhaustive x b s polls = (b, (seeded x s polls).report x 0 b.capacity) := by
  unfold exhaustive
  exact if_pos h

theorem exhaustive_of_seed_not_complete {s : σ} (h : x.sink.complete (x.sink.offer s seed) = false)
    (b : Buffer M) (polls : Nat) :
    exhaustive x b s polls =
      ((b.fill (visitEntry x completions b.capacity) (seeded x s polls)).1,
        (b.fill (visitEntry x completions b.capacity) (seeded x s polls)).2.1.report x
          (b.fill (visitEntry x completions b.capacity) (seeded x s polls)).2.1.stats.visited b.capacity) := by
  unfold exhaustive
  exact if_neg (ne_true_of_eq_false h)

/-- What the first pass offers, and that it fills the buffer unless the sink is complete. -/
theorem exhaustive_offers (hpoll : ∀ k, x.poll k = none) (b : Buffer M) (s : σ) (polls : Nat) :
    ((exhaustive x b s polls).2.sink, (exhaustive x b s polls).2.stats.complete) =
        x.sink.offerAll s (firstOffers x.probe b b.capacity) ∧
      (exhaustive x b s polls).2.interrupt = none ∧
      ((exhaustive x b s polls).2.stats.complete = false →
        (exhaustive x b s polls).1 = b.fillAll ∧
        (exhaustive x b s polls).2.stats.tested = 3 * (entrySources b.filled b.capacity).length) := by
  cases hseed : x.sink.complete (x.sink.offer s seed) with
  | true =>
    rw [exhaustive_of_seed_complete hseed, firstOffers, Sink.offerAll_cons_of_complete hseed]
    simp only [Pass.sink_report, Pass.stats_report, Pass.interrupt_report]
    refine ⟨by rw [← hseed]; rfl, rfl, fun h => ?_⟩
    have : true = false := hseed.symm.trans h
    cases this
  | false =>
    have hwalk := tests_fill hpoll b b.capacity (p := seeded x s polls) hseed rfl b.pending
    rw [← Buffer.fill_snd] at hwalk
    obtain ⟨htests, hflag⟩ := hwalk
    rw [exhaustive_of_seed_not_complete hseed, firstOffers, Sink.offerAll_cons_of_not_complete hseed]
    simp only [Pass.sink_report, Pass.stats_report, Pass.interrupt_report]
    refine ⟨htests.offered, htests.interrupt, fun h => ⟨?_, ?_⟩⟩
    · exact Buffer.fill_fst_of_end _ (hflag.trans h)
    · rw [htests.tested h]
      exact Nat.zero_add _

/-- A first pass whose sink is complete with the empty word does not touch the buffer. -/
theorem exhaustive_fst_of_seed_complete {s : σ} (h : x.sink.complete (x.sink.offer s seed) = true) (b : Buffer M)
    (polls : Nat) : (exhaustive x b s polls).1 = b := by
  rw [exhaustive_of_seed_complete h]

/-- A first pass that stops at entry `i` leaves a buffer filled up to that entry. -/
theorem filled_exhaustive (hpoll : ∀ k, x.poll k = none) {b : Buffer M} {s : σ} {i : Nat} (polls : Nat)
    (hlo : b.filled ≤ i) (hhi : i < b.capacity)
    (hbefore : (x.sink.offerAll s (firstOffers x.probe b i)).2 = false)
    (hat : (x.sink.offerAll s (firstOffers x.probe b (i + 1))).2 = true) :
    (exhaustive x b s polls).1.filled = i + 1 := by
  cases hseed : x.sink.complete (x.sink.offer s seed) with
  | true =>
    rw [firstOffers, Sink.offerAll_cons_of_complete hseed] at hbefore
    cases hbefore
  | false =>
    have hwalk := tests_fill hpoll b b.capacity (p := seeded x s polls) hseed rfl
    -- the walk does not stop before entry `i` and stops there
    have hsplit : b.pending =
        List.range' b.filled (i - b.filled) ++ i :: List.range' (i + 1) (b.capacity - (i + 1)) := by
      rw [Buffer.pending, show b.capacity - b.filled = (i - b.filled) + (b.capacity - (i + 1) + 1) by omega,
        ← List.range'_append_1, List.range'_succ, show b.filled + (i - b.filled) = i by omega]
    have hlast : List.range' b.filled (i + 1 - b.filled) = List.range' b.filled (i - b.filled) ++ [i] := by
      rw [show i + 1 - b.filled = (i - b.filled) + 1 by omega, ← List.range'_append_1, List.range'_succ,
        show b.filled + (i - b.filled) = i by omega]
      rfl
    rw [firstOffers, Sink.offerAll_cons_of_not_complete hseed, entrySources] at hbefore hat
    rw [hlast] at hat
    have hgo := (hwalk _).2.trans ((hwalk _).1.complete.trans hbefore)
    have hstop := (hwalk _).2.trans ((hwalk _).1.complete.trans hat)
    rw [exhaustive_of_seed_not_complete hseed]
    show (b.fill _ _).1.filled = i + 1
    rw [Buffer.fill_fst, hsplit, walked_append_cons hgo hstop, Buffer.filled_iterate, List.length_range']
    omega

end

/-! ### The second pass -/

private theorem visitProduct_tests (hpoll : ∀ k, x.poll k = none) (b : Buffer M) (p : Pass σ ε) (n : Nat)
    (hp : p.stats.complete = false) (hi : p.interrupt = none) :
    Pass.Tests x b [productSource b n] p (visitProduct x completions b n p).1 ∧
      (visitProduct x completions b n p).2 = (visitProduct x completions b n p).1.stats.complete := by
  -- the number of first lists begun so far is only reported
  obtain ⟨visited, hvisited⟩ :
      ∃ v, (if n % longestCount b = 0 then p.stats.visited + 1 else p.stats.visited) = v := ⟨_, rfl⟩
  have hnone := Pass.interrupt_pollDue hpoll (n + 1)
    (p := { p with stats := { p.stats with visited := visited, products := n + 1 } }) hi
  unfold visitProduct
  dsimp only
  rw [hvisited, if_neg (by rw [hnone]; simp)]
  refine ⟨Pass.tests_tryCompletions (productSource b n) (by simp) ?_ (by simp) ?_, rfl⟩
  · simpa using hp
  · rw [Pass.interrupt_reportDue, hnone]

theorem visitProducts_eq_walk (b : Buffer M) (count n : Nat) (p : Pass σ ε) :
    visitProducts x completions b count n p =
      (walk (fun p n => visitProduct x completions b n p) p (List.range' n count)).1 := by
  induction count generalizing n p with
  | zero => rfl
  | succ count ih =>
    rw [List.range'_succ, visitProducts]
    cases hstop : (visitProduct x completions b n p).2 with
    | true => simp [walk, hstop]
    | false => simp [walk, hstop, ih]

/-- What the second pass offers on a full buffer, to a sink that is not complete before. -/
theorem meetInTheMiddle_offers (hpoll : ∀ k, x.poll k = none) {b : Buffer M} (hfull : b.full = true) {s : σ}
    (hs : x.sink.complete s = false) (polls : Nat) :
    ((meetInTheMiddle x b s polls).2.1.sink, (meetInTheMiddle x b s polls).2.1.stats.complete) =
        x.sink.offerAll s ((pairSources b.longest b.capacity).flatMap (x.probe.hits b)) ∧
      (meetInTheMiddle x b s polls).1 = b ∧ (meetInTheMiddle x b s polls).2.1.interrupt = none ∧
      (meetInTheMiddle x b s polls).2.2 = none ∧
      ((meetInTheMiddle x b s polls).2.1.stats.complete = false →
        (meetInTheMiddle x b s polls).2.1.stats.tested = 3 * (pairSources b.longest b.capacity).length) := by
  have hrun : meetInTheMiddle x b s polls =
      (b, (visitProducts x completions b (productCount b) 0 (Pass.start .meetInTheMiddle s polls)).report x
        (visitProducts x completions b (productCount b) 0 (Pass.start .meetInTheMiddle s polls)).stats.products
        (productCount b), none) := by
    simp [meetInTheMiddle, hfull, hs]
  obtain ⟨htests, -⟩ := Pass.tests_walk (productSource b) (visitProduct_tests hpoll b)
    (p := Pass.start .meetInTheMiddle s polls) rfl rfl (List.range (productCount b))
  rw [map_productSource, List.range_eq_range', ← visitProducts_eq_walk] at htests
  rw [hrun]
  simp only [Pass.sink_report, Pass.stats_report, Pass.interrupt_report]
  refine ⟨htests.offered, trivial, htests.interrupt, trivial, fun h => ?_⟩
  rw [htests.tested h]
  exact Nat.zero_add _

/-! ### Both passes -/

section

variable [Zero A] [Zero E]

/-- What the second pass offers behind the first. -/
def secondOffers (probe : Probe M A E) (b : Buffer M) : List (Candidate M A E) :=
  (pairSources b.longest b.capacity).flatMap (probe.hits b.fillAll)

/-- The last pass of a search: the second pass follows if the sink is not complete after the first. -/
def search (x : Setup M A E σ ε) (b : Buffer M) (s : σ) (polls : Nat) : Pass σ ε :=
  let first := exhaustive x b s polls
  if first.2.stats.complete then first.2 else (meetInTheMiddle x first.1 first.2.sink first.2.polls).2.1

/-- The second pass, when it follows a first pass after which the sink was not complete. -/
theorem meetInTheMiddle_after (hpoll : ∀ k, x.poll k = none) {b : Buffer M} (hb : b.filled ≤ b.capacity) {s : σ}
    {polls : Nat} (h : (exhaustive x b s polls).2.stats.complete = false) (polls' : Nat) :
    let second := meetInTheMiddle x (exhaustive x b s polls).1 (exhaustive x b s polls).2.sink polls'
    (second.2.1.sink, second.2.1.stats.complete) =
        x.sink.offerAll s (firstOffers x.probe b b.capacity ++ secondOffers x.probe b) ∧
      second.2.1.interrupt = none ∧ second.2.2 = none ∧
      (second.2.1.stats.complete = false →
        second.2.1.stats.tested = 3 * (pairSources b.longest b.capacity).length) := by
  obtain ⟨hfirst, -, hend⟩ := exhaustive_offers hpoll b s polls
  have hsink : (exhaustive x b s polls).2.sink = (x.sink.offerAll s (firstOffers x.probe b b.capacity)).1 :=
    congrArg Prod.fst hfirst
  have hnot : (x.sink.offerAll s (firstOffers x.probe b b.capacity)).2 = false :=
    (congrArg Prod.snd hfirst).symm.trans h
  -- the second pass asks the sink itself; it was offered the empty word, so its answer is the flag of the first pass
  have hs : x.sink.complete (exhaustive x b s polls).2.sink = false := by
    rw [hsink, firstOffers, Sink.complete_offerAll_cons]
    exact hnot
  obtain ⟨hoffers, -, hnone, herr, htested⟩ := meetInTheMiddle_offers hpoll (Buffer.full_fillAll hb) hs polls'
  rw [Buffer.longest_fillAll, Buffer.capacity_fillAll] at hoffers htested
  rw [(hend h).1]
  refine ⟨?_, hnone, herr, htested⟩
  rw [hoffers, Sink.offerAll_append_of_not_complete hnot, ← hsink]
  rfl

theorem search_offers (hpoll : ∀ k, x.poll k = none) {b : Buffer M} (hb : b.filled ≤ b.capacity) (s : σ)
    (polls : Nat) :
    ((search x b s polls).sink, (search x b s polls).stats.complete) =
      x.sink.offerAll s (firstOffers x.probe b b.capacity ++ secondOffers x.probe b) := by
  unfold search
  dsimp only
  split
  · rename_i h
    have hfirst := (exhaustive_offers hpoll b s polls).1
    rw [Sink.offerAll_append_of_complete ((congrArg Prod.snd hfirst).symm.trans h)]
    exact hfirst
  · rename_i h
    exact (meetInTheMiddle_after hpoll hb (eq_false_of_ne_true h) _).1

/-- The two passes are a plain enumeration of candidates, cut off at the first one with which the sink is complete.
The second pass runs if the first was not cut off; a first pass that is cut off at entry `i` leaves the buffer filled
up to that entry. -/
theorem passes_refine_enumeration (x : Setup M A E σ ε) (hpoll : ∀ k, x.poll k = none) {b : Buffer M}
    (hb : b.Reached) (s : σ) (polls polls' : Nat) :
    let first := exhaustive x b s polls
    let second := meetInTheMiddle x first.1 first.2.sink polls'
    let entries := fun hi => seed :: (entrySources b.filled hi).flatMap (x.probe.hits b.fillAll)
    let pairs := (pairSources b.longest b.capacity).flatMap (x.probe.hits b.fillAll)
    (first.2.sink, first.2.stats.complete) = x.sink.offerAll s (entries b.capacity) ∧
    first.2.interrupt = none ∧
    (x.sink.complete (x.sink.offer s seed) = true → first.1 = b) ∧
    (∀ i, b.filled ≤ i → i < b.capacity → (x.sink.offerAll s (entries i)).2 = false →
      (x.sink.offerAll s (entries (i + 1))).2 = true → first.1.filled = i + 1) ∧
    (first.2.stats.complete = false →
      first.1 = b.fillAll ∧
      (second.2.1.sink, second.2.1.stats.complete) = x.sink.offerAll s (entries b.capacity ++ pairs) ∧
      second.2.1.interrupt = none ∧ second.2.2 = none) := by
  intro first second entries pairs
  obtain ⟨hoffers, hnone, hend⟩ := exhaustive_offers hpoll b s polls
  refine ⟨hoffers, hnone, ?_, ?_, ?_⟩
  · intro hseed
    exact exhaustive_fst_of_seed_complete hseed b polls
  · intro i hlo hhi hbefore hat
    exact filled_exhaustive hpoll polls hlo hhi hbefore hat
  · intro hcomplete
    obtain ⟨hsecond, hnone', herr, -⟩ := meetInTheMiddle_after hpoll hb.filled_le hcomplete polls'
    exact ⟨(hend hcomplete).1, hsecond, hnone', herr⟩

/-- A buffer of depth 3 in doubles with its first five entries computed, and a recorder that wants four candidates. -/
theorem passes_refine_enumeration_doubles :
    let x : Setup Matrix Float Float (Array DoubleCandidate) Unit :=
      ⟨Probe.within 0.5, Sink.recorder 4, Options.default, none, fun _ => none⟩
    let b : Buffer Matrix := ((Buffer.empty 3 .single).fill (fun n i _ => (n, i == 4)) 0).1
    let first := exhaustive x b #[] 0
    let second := meetInTheMiddle x first.1 first.2.sink 0
    let entries := seed :: (entrySources b.filled b.capacity).flatMap (x.probe.hits b.fillAll)
    let pairs := (pairSources b.longest b.capacity).flatMap (x.probe.hits b.fillAll)
    (∀ k, x.poll k = none) ∧ b.Reached ∧
    (first.2.sink, first.2.stats.complete) = x.sink.offerAll #[] entries ∧
    (first.2.stats.complete = false →
      (second.2.1.sink, second.2.1.stats.complete) = x.sink.offerAll #[] (entries ++ pairs)) := by
  intro x b
  have hpoll : ∀ k, x.poll k = none := fun _ => rfl
  have hb : b.Reached := .fill _ _ (.new (show Buffer.new 3 .single = .ok (Buffer.empty 3 .single) from rfl))
  obtain ⟨hfirst, -, -, -, hsecond⟩ := passes_refine_enumeration x hpoll hb #[] 0 0
  exact ⟨hpoll, hb, hfirst, fun h => (hsecond h).2.1⟩

end

end Search

end CliffordT
