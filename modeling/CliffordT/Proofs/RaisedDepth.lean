import CliffordT.Proofs.BufferHistory
import CliffordT.Proofs.Passes
import Mathlib.Data.List.Basic

/-!
# Raising the depth

A first pass on a deeper buffer begins as on the shallower one: the entries that both have are the same matrices, and
they come first.  So what it offers begins with what the other pass offers (`Deeper.firstOffers`), and if the other pass
ends with a complete sink, it ends there too.

The two passes differ in what they report, since a report names the capacity of the buffer.  In all else they go
together entry by entry (`SameWork`), and a pass that is stopped does not look at the entries behind
(`Deeper.exhaustive`).
-/

namespace CliffordT

namespace Search

variable {M A E σ ε : Type}

/-! ### Passes that differ in their reports -/

namespace Pass

/-- Two passes that agree in everything but their reports. -/
structure SameWork (p q : Pass σ ε) : Prop where
  stats : p.stats = q.stats
  sink : p.sink = q.sink
  polls : p.polls = q.polls
  interrupt : p.interrupt = q.interrupt

variable {x : Setup M A E σ ε} {p q : Pass σ ε}

theorem SameWork.report (h : SameWork p q) (done done' total total' : Nat) :
    SameWork (p.report x done total) (q.report x done' total') := by
  unfold Pass.report
  split <;> exact ⟨h.stats, h.sink, h.polls, h.interrupt⟩

theorem SameWork.reportDue (h : SameWork p q) (n total total' : Nat) :
    SameWork (p.reportDue x n total) (q.reportDue x n total') := by
  unfold Pass.reportDue
  split
  · exact h.report n n total total'
  · exact h

theorem SameWork.pollDue (h : SameWork p q) (n : Nat) : SameWork (p.pollDue x n) (q.pollDue x n) := by
  unfold Pass.pollDue
  split
  · exact ⟨h.stats, h.sink, by simp [h.polls], by simp [h.polls]⟩
  · exact h

theorem SameWork.visited (h : SameWork p q) (n : Nat) :
    SameWork { p with stats := { p.stats with visited := n } } { q with stats := { q.stats with visited := n } } :=
  ⟨by simp [h.stats], h.sink, h.polls, h.interrupt⟩

theorem SameWork.countTest (h : SameWork p q) : SameWork p.countTest q.countTest :=
  ⟨by simp [Pass.countTest, h.stats], h.sink, h.polls, h.interrupt⟩

theorem SameWork.offer (h : SameWork p q) (c : Candidate M A E) : SameWork (p.offer x c) (q.offer x c) :=
  ⟨by simp [Pass.offer, h.stats, h.sink], by simp [Pass.offer, h.sink], h.polls, h.interrupt⟩

theorem SameWork.tryCompletions [GateAlgebra M] (h : SameWork p q) (source : Source) (m : M)
    (cs : List (Completion M)) : SameWork (p.tryCompletions x source m cs) (q.tryCompletions x source m cs) := by
  induction cs generalizing p q with
  | nil => exact h
  | cons c cs ih =>
    rw [Pass.tryCompletions, Pass.tryCompletions]
    split
    · have hoffer := h.countTest.offer (x := x)
        ⟨x.probe.phase (c.matrix * m), source.word c, c.matrix * m, x.probe.error (c.matrix * m)⟩
      have hcomplete := congrArg Stats.complete hoffer.stats
      dsimp only
      rw [← hcomplete]
      split
      · exact hoffer
      · exact ih hoffer
    · exact ih h.countTest

end Pass

theorem visitEntry_sameWork [GateAlgebra M] {x : Setup M A E σ ε} {p q : Pass σ ε} (h : p.SameWork q)
    (tests : List (Completion M)) (total total' i : Nat) (m : M) :
    (visitEntry x tests total p i m).1.SameWork (visitEntry x tests total' q i m).1 ∧
      (visitEntry x tests total p i m).2 = (visitEntry x tests total' q i m).2 := by
  have hvisited := congrArg Stats.visited h.stats
  have hpoll := (h.visited (p.stats.visited + 1)).pollDue (x := x) (p.stats.visited + 1)
  unfold visitEntry
  dsimp only
  rw [← hvisited, ← hpoll.interrupt]
  split
  · exact ⟨hpoll, rfl⟩
  · have htry := (hpoll.reportDue (x := x) (p.stats.visited + 1) total total').tryCompletions (x := x) (.single i) m
      tests
    exact ⟨htry, congrArg Stats.complete htry.stats⟩

/-! ### Two buffers -/

variable [Storable M] [GateAlgebra M]

/-- The second buffer is filled like the first and has room for at least as much. -/
structure Deeper (precision : Precision) (b b' : Buffer M) : Prop where
  wellFilled : b.WellFilled precision
  wellFilled' : b'.WellFilled precision
  filled_eq : b'.filled = b.filled
  capacity_le : b.capacity ≤ b'.capacity

theorem deeper_empty {D D' : Nat} (precision : Precision) (h : D ≤ D') :
    Deeper precision (Buffer.empty D precision : Buffer M) (Buffer.empty D' precision) where
  wellFilled := Buffer.wellFilled_empty D precision
  wellFilled' := Buffer.wellFilled_empty D' precision
  filled_eq := rfl
  capacity_le := Index.start_mono (show 1 ≤ D + 1 by omega) (show D + 1 ≤ D' + 1 by omega)

namespace Deeper

variable {precision : Precision} {b b' : Buffer M}

theorem entry_fillAll (h : Deeper precision b b') {i : Nat} (hi : i < b.capacity) :
    b'.fillAll.entry i = b.fillAll.entry i := by
  have hle := h.capacity_le
  rw [h.wellFilled.entry_fillAll_of_lt hi, h.wellFilled'.entry_fillAll_of_lt (by omega)]

/-- The second buffer computes what the first computes, and then more. -/
theorem pending (h : Deeper precision b b') : ∃ rest, b'.pending = b.pending ++ rest := by
  have hfilled := h.wellFilled.filled_le
  have hle := h.capacity_le
  refine ⟨List.range' b.capacity (b'.capacity - b.capacity), ?_⟩
  rw [Buffer.pending, Buffer.pending, h.filled_eq,
    show b'.capacity - b.filled = (b.capacity - b.filled) + (b'.capacity - b.capacity) by omega,
    ← List.range'_append_1, show b.filled + (b.capacity - b.filled) = b.capacity by omega]

theorem lt_capacity_of_mem_pending (h : Deeper precision b b') {i : Nat} (hi : i ∈ b.pending) : i < b.capacity := by
  have hfilled := h.wellFilled.filled_le
  rw [Buffer.pending, List.mem_range'_1] at hi
  omega

variable [Zero A] [Zero E]

/-- What is offered on the second buffer begins with what is offered on the first. -/
theorem firstOffers (h : Deeper precision b b') (probe : Probe M A E) :
    ∃ rest, Search.firstOffers probe b' b'.capacity = Search.firstOffers probe b b.capacity ++ rest := by
  obtain ⟨rest, hrest⟩ := h.pending
  refine ⟨(rest.map Source.single).flatMap (probe.hits b'.fillAll), ?_⟩
  have hsame : (b.pending.map Source.single).flatMap (probe.hits b'.fillAll) =
      (b.pending.map Source.single).flatMap (probe.hits b.fillAll) := by
    apply List.flatMap_congr
    intro source hs
    obtain ⟨i, hi, rfl⟩ := List.mem_map.1 hs
    have hentry := h.entry_fillAll (h.lt_capacity_of_mem_pending hi)
    show probe.hitsOf _ (b'.fillAll.entry i) _ = probe.hitsOf _ (b.fillAll.entry i) _
    rw [hentry]
  show seed :: (b'.pending.map Source.single).flatMap _ = seed :: (b.pending.map Source.single).flatMap _ ++ _
  rw [hrest, List.map_append, List.flatMap_append, hsame, List.cons_append]

variable {x : Setup M A E σ ε} {s : σ} {polls : Nat}

/-- A first pass that ends with a complete sink does the same work on the second buffer, and fills as many entries. -/
theorem exhaustive (h : Deeper precision b b') (hpoll : ∀ k, x.poll k = none)
    (hcomplete : (Search.exhaustive x b s polls).2.stats.complete = true) :
    (Search.exhaustive x b s polls).2.SameWork (Search.exhaustive x b' s polls).2 ∧
      (Search.exhaustive x b s polls).1.filled = (Search.exhaustive x b' s polls).1.filled := by
  cases hseed : x.sink.complete (x.sink.offer s seed) with
  | true =>
    rw [exhaustive_of_seed_complete hseed, exhaustive_of_seed_complete hseed]
    exact ⟨Pass.SameWork.report ⟨rfl, rfl, rfl, rfl⟩ _ _ _ _, h.filled_eq.symm⟩
  | false =>
    rw [exhaustive_of_seed_not_complete hseed] at hcomplete
    rw [exhaustive_of_seed_not_complete hseed, exhaustive_of_seed_not_complete hseed]
    dsimp only at hcomplete ⊢
    rw [Pass.stats_report, Buffer.fill_snd] at hcomplete
    rw [Buffer.fill_snd, Buffer.fill_snd, Buffer.fill_fst, Buffer.fill_fst, Buffer.filled_iterate,
      Buffer.filled_iterate, h.filled_eq]
    have hstop := (tests_fill hpoll b b.capacity (p := seeded x s polls) hseed rfl b.pending).2.trans hcomplete
    -- entry by entry the passes do the same, so both stop, and the deeper one never comes to the rest
    have hstep : ∀ p q : Pass σ ε, ∀ i ∈ b.pending, p.SameWork q →
        (visitEntry x completions b.capacity p i (b.fillAll.entry i)).1.SameWork
            (visitEntry x completions b'.capacity q i (b'.fillAll.entry i)).1 ∧
          (visitEntry x completions b.capacity p i (b.fillAll.entry i)).2 =
            (visitEntry x completions b'.capacity q i (b'.fillAll.entry i)).2 := by
      intro p q i hi hpq
      rw [h.entry_fillAll (h.lt_capacity_of_mem_pending hi)]
      exact visitEntry_sameWork hpq completions _ _ i _
    obtain ⟨hsame, hflag, htaken⟩ :=
      walk_related (s := seeded x s polls) (t := seeded x s polls) hstep ⟨rfl, rfl, rfl, rfl⟩
    have hstop' := hflag.symm.trans hstop
    obtain ⟨rest, hrest⟩ := h.pending
    rw [hrest, walk_append_of_stop hstop', walked_append_of_stop hstop', htaken]
    exact ⟨hsame.report _ _ _ _, rfl⟩

end Deeper

variable [Zero A] [Zero E]

theorem wellFilled_exhaustive {precision : Precision} {b : Buffer M} (h : b.WellFilled precision)
    (x : Setup M A E σ ε) (s : σ) (polls : Nat) : (exhaustive x b s polls).1.WellFilled precision := by
  cases hseed : x.sink.complete (x.sink.offer s seed) with
  | true =>
    rw [exhaustive_of_seed_complete hseed]
    exact h
  | false =>
    rw [exhaustive_of_seed_not_complete hseed]
    exact h.fill _ _

/-- A first pass on a new buffer offers its candidates, bit for bit, at the beginning of what it offers on a deeper one,
to the same sink in the same state.  If the sink is complete at its end, then on the deeper buffer the pass ends with
the same sink, the same counts and the same filled entries.  Writing down the candidates, by which the first part is
stated, makes no difference to the sink. -/
theorem first_pass_of_le_depth (x : Setup M A E σ ε) (hpoll : ∀ k, x.poll k = none) {D D' : Nat} (hpos : 1 ≤ D)
    (hle : D ≤ D') (hmax : D' ≤ Buffer.maxDepth) (precision : Precision) (s : σ) (polls : Nat) :
    ∃ b b' : Buffer M, Buffer.new D precision = .ok b ∧ Buffer.new D' precision = .ok b' ∧
      let pass := exhaustive x b s polls
      let deep := exhaustive x b' s polls
      let recorded := exhaustive x.recording b (s, []) polls
      let recordedDeep := exhaustive x.recording b' (s, []) polls
      (recorded.2.sink.1 = pass.2.sink ∧ recordedDeep.2.sink.1 = deep.2.sink) ∧
      recorded.2.sink.2 <+: recordedDeep.2.sink.2 ∧
      (pass.2.stats.complete = true →
        deep.2.sink = pass.2.sink ∧ deep.2.stats = pass.2.stats ∧ deep.1.filled = pass.1.filled ∧
        ∀ i < pass.1.filled, ∃ m, pass.1.get? i = some m ∧ deep.1.get? i = some m) := by
  refine ⟨Buffer.empty D precision, Buffer.empty D' precision, Buffer.new_of_le hpos (by omega) precision,
    Buffer.new_of_le (by omega) hmax precision, ?_⟩
  have hdeeper := deeper_empty (M := M) precision hle
  generalize (Buffer.empty D precision : Buffer M) = b at *
  generalize (Buffer.empty D' precision : Buffer M) = b' at *
  intro pass deep recorded recordedDeep
  have hoffers (c : Buffer M) : (exhaustive x.recording c (s, []) polls).2.sink =
      (x.sink.recording.offerAll (s, []) (firstOffers x.probe c c.capacity)).1 :=
    congrArg Prod.fst (exhaustive_offers (x := x.recording) hpoll c (s, []) polls).1
  have hrecording (c : Buffer M) :
      (exhaustive x.recording c (s, []) polls).2.sink.1 = (exhaustive x c s polls).2.sink := by
    rw [hoffers, Sink.fst_offerAll_recording]
    exact (congrArg Prod.fst (exhaustive_offers hpoll c s polls).1).symm
  refine ⟨⟨hrecording b, hrecording b'⟩, ?_, fun hcomplete => ?_⟩
  · obtain ⟨rest, hrest⟩ := hdeeper.firstOffers x.probe
    show (exhaustive x.recording b (s, []) polls).2.sink.2 <+: (exhaustive x.recording b' (s, []) polls).2.sink.2
    rw [hoffers, hoffers, hrest]
    exact Sink.offerAll_recording_prefix _ _ _
  · obtain ⟨hsame, hfilled⟩ := hdeeper.exhaustive hpoll hcomplete
    refine ⟨hsame.sink.symm, hsame.stats.symm, hfilled.symm, fun i hi => ?_⟩
    have hwf : pass.1.WellFilled precision := wellFilled_exhaustive hdeeper.wellFilled x s polls
    have hwf' : deep.1.WellFilled precision := wellFilled_exhaustive hdeeper.wellFilled' x s polls
    have hi' : i < deep.1.filled := hfilled ▸ hi
    have hbound := hwf.filled_le
    have hbound' := hwf'.filled_le
    refine ⟨Buffer.stored precision (Index.decode i), ?_, ?_⟩
    · rw [Buffer.get?_of_lt (by omega), hwf.entry_of_lt hi]
    · rw [Buffer.get?_of_lt (by omega), hwf'.entry_of_lt hi']

/-- A table of 16 slots, which a first pass in single precision completes at the third entry of a buffer of depth 2: on
a buffer of depth 5 the pass leaves the same table and stops at the same entry. -/
theorem first_pass_of_le_depth_table :
    let x : Setup Matrix Float Float DoubleTable Unit :=
      ⟨Probe.within 0.75, Table.sink, Options.default, none, fun _ => none⟩
    let pass := exhaustive x (Buffer.empty 2 .single) (Table.empty 16) 0
    let deep := exhaustive x (Buffer.empty 5 .single) (Table.empty 16) 0
    pass.2.stats.complete = true ∧ deep.2.sink = pass.2.sink ∧ deep.2.stats = pass.2.stats ∧
      deep.1.filled = pass.1.filled := by
  dsimp only
  have hcomplete : (exhaustive (⟨Probe.within 0.75, Table.sink, Options.default, none, fun _ => none⟩ :
      Setup Matrix Float Float DoubleTable Unit) (Buffer.empty 2 .single) (Table.empty 16) 0).2.stats.complete =
        true := by
    decide +kernel
  obtain ⟨b, b', hb, hb', -, -, hdeep⟩ :=
    first_pass_of_le_depth (⟨Probe.within 0.75, Table.sink, Options.default, none, fun _ => none⟩ :
      Setup Matrix Float Float DoubleTable Unit) (fun _ => rfl) (show 1 ≤ 2 by decide) (show 2 ≤ 5 by decide)
      (show 5 ≤ Buffer.maxDepth by decide) .single (Table.empty 16) 0
  obtain rfl : Buffer.empty 2 .single = b := Except.ok.inj hb
  obtain rfl : Buffer.empty 5 .single = b' := Except.ok.inj hb'
  obtain ⟨hsink, hstats, hfilled, -⟩ := hdeep hcomplete
  exact ⟨hcomplete, hsink, hstats, hfilled⟩

end Search

end CliffordT
