import CliffordT.Proofs.BufferHistory
import CliffordT.Proofs.Passes

/-!
# Runs of the passes

A run calls the two passes on one buffer and one sink, in any order and any number of times (`Run`).  Each call may be
interrupted at any of its polls, and it ends with any candidate after which the sink is complete.  Wherever it ends, the
buffer is well filled, and the sink was offered nothing but the empty word and diagonal products of block lists with
completions (`Probe.Finds`), where the matrix of a block list is the one that its blocks determine.  So whatever is kept
when such a candidate is offered is kept by a run (`Run.keeps`).
-/

namespace CliffordT

variable {M : Type} [Storable M] [GateAlgebra M]

/-! ### The candidates of a search -/

/-- The matrix of a source, from the matrices that buffers store for its lists. -/
def Source.stored (precision : Precision) : Source → M
  | single i => Buffer.stored precision (Index.decode i)
  | joined p s => Buffer.stored precision (Index.decode s) * Buffer.stored precision (Index.decode p)

variable {A E σ ε : Type} [Zero A] [Zero E]

/-- The candidates that a search can find: the empty word, and diagonal products of sources with completions. -/
inductive Probe.Finds (probe : Probe M A E) (precision : Precision) : Candidate M A E → Prop
  | seed : Finds probe precision Search.seed
  | hit (source : Source) {c : Completion M} (hc : c ∈ completions)
      (hdiag : probe.isDiagonal (c.matrix * source.stored precision) = true) :
      Finds probe precision (probe.candidate source (source.stored precision) c)

namespace Search

variable {x : Setup M A E σ ε} {precision : Precision} {b : Buffer M} {P : σ → Prop}

/-! ### What one call keeps -/

omit [Storable M] [Zero A] [Zero E] in
/-- What is kept by every offer of a diagonal product is kept by testing the completions. -/
theorem Pass.tryCompletions_keeps {source : Source} {m : M} {cs : List (Completion M)}
    (hoffer : ∀ s, ∀ c ∈ cs, x.probe.isDiagonal (c.matrix * m) = true → P s →
      P (x.sink.offer s (x.probe.candidate source m c)))
    {p : Pass σ ε} (h : P p.sink) : P (p.tryCompletions x source m cs).sink := by
  induction cs generalizing p with
  | nil => exact h
  | cons c cs ih =>
    have ih := fun {p : Pass σ ε} => ih (p := p) (fun s d hd => hoffer s d (by simp [hd]))
    rw [tryCompletions]
    split
    · rename_i hdiag
      have hoffered := hoffer p.sink c (by simp) hdiag h
      dsimp only
      split
      · exact hoffered
      · exact ih hoffered
    · exact ih h

variable (hoffer : ∀ s c, x.probe.Finds precision c → P s → P (x.sink.offer s c))

include hoffer

private theorem visitEntry_keeps (total i : Nat) {p : Pass σ ε} (h : P p.sink) :
    P (visitEntry x completions total p i (Buffer.stored precision (Index.decode i))).1.sink := by
  unfold visitEntry
  dsimp only
  split
  · simpa using h
  · apply Pass.tryCompletions_keeps
    · intro s c hc hdiag hs
      exact hoffer s _ (.hit (.single i) hc hdiag) hs
    · simpa using h

private theorem visitProduct_keeps (hb : b.WellFilled precision) (hfull : b.full = true) {n : Nat}
    (hn : n < productCount b) {p : Pass σ ε} (h : P p.sink) : P (visitProduct x completions b n p).1.sink := by
  have hfilled : b.filled = b.capacity := by simpa [Buffer.full] using hfull
  -- both lists of a product are in the buffer
  have hwidth : 0 < longestCount b := Nat.pos_of_mul_pos_left (Nat.lt_of_le_of_lt (Nat.zero_le n) hn)
  have hsecond : b.longest + n % longestCount b < b.capacity := by
    have := Nat.mod_lt n hwidth
    unfold longestCount at this hwidth ⊢
    omega
  have hfirst : n / longestCount b < b.longest := Nat.div_lt_of_lt_mul (by rwa [Nat.mul_comm])
  unfold visitProduct
  dsimp only
  rw [hb.entry_of_lt (by omega), hb.entry_of_lt (show n / longestCount b < b.filled by omega)]
  generalize (if n % longestCount b = 0 then p.stats.visited + 1 else p.stats.visited) = visited
  split
  · simpa using h
  · apply Pass.tryCompletions_keeps
    · intro s c hc hdiag hs
      exact hoffer s _ (.hit (.joined _ _) hc hdiag) hs
    · simpa using h

/-- What every possible offer keeps, the first pass keeps. -/
theorem exhaustive_keeps (hb : b.WellFilled precision) {s : σ} (polls : Nat) (h : P s) :
    P (exhaustive x b s polls).2.sink ∧ (exhaustive x b s polls).1.WellFilled precision := by
  have hseed : P ((Pass.start .exhaustive s polls : Pass σ ε).offer x seed).sink := hoffer s _ .seed h
  unfold exhaustive
  dsimp only
  split
  · exact ⟨by simpa using hseed, hb⟩
  · refine ⟨?_, hb.fill _ _⟩
    show P ((b.fill (visitEntry x completions b.capacity) _).2.1.report x _ _).sink
    rw [Pass.sink_report, Buffer.fill_snd]
    refine walk_keeps (P := fun p : Pass σ ε => P p.sink) (fun p i hi hp => ?_) hseed
    rw [Buffer.pending, List.mem_range'_1] at hi
    have hle := hb.filled_le
    rw [hb.entry_fillAll_of_lt (by omega)]
    exact visitEntry_keeps hoffer _ i hp

/-- What every possible offer keeps, the second pass keeps. -/
theorem meetInTheMiddle_keeps (hb : b.WellFilled precision) {s : σ} (polls : Nat) (h : P s) :
    P (meetInTheMiddle x b s polls).2.1.sink ∧ (meetInTheMiddle x b s polls).1.WellFilled precision := by
  unfold meetInTheMiddle
  dsimp only
  split
  · exact ⟨h, hb⟩
  · -- the buffer is full, or it is filled now
    have hfilled : (if b.full then b else b.fillAll).WellFilled precision ∧
        (if b.full then b else b.fillAll).full = true := by
      split
      · exact ⟨hb, ‹_›⟩
      · exact ⟨hb.fillAll, Buffer.full_fillAll hb.filled_le⟩
    generalize (if b.full then b else b.fillAll) = c at hfilled
    obtain ⟨hc, hfull⟩ := hfilled
    split
    · exact ⟨h, hc⟩
    · refine ⟨?_, hc⟩
      rw [Pass.sink_report, visitProducts_eq_walk]
      refine walk_keeps (P := fun p : Pass σ ε => P p.sink) (fun p n hn hp => ?_) h
      rw [List.mem_range'_1] at hn
      exact visitProduct_keeps hoffer hc hfull (by omega) hp

omit hoffer

/-! ### Any number of calls -/

/-- The buffers and sinks to which calls of the passes lead. Calls may differ in their options, their observers and the
answers to their polls. -/
inductive Run (probe : Probe M A E) (sink : Sink (Candidate M A E) σ) (b₀ : Buffer M) (s₀ : σ) : Buffer M → σ → Prop
  | start : Run probe sink b₀ s₀ b₀ s₀
  | exhaustive {ε : Type} (x : Setup M A E σ ε) (hprobe : x.probe = probe) (hsink : x.sink = sink) (polls : Nat)
      {b : Buffer M} {s : σ} (h : Run probe sink b₀ s₀ b s) :
      Run probe sink b₀ s₀ (exhaustive x b s polls).1 (exhaustive x b s polls).2.sink
  | meetInTheMiddle {ε : Type} (x : Setup M A E σ ε) (hprobe : x.probe = probe) (hsink : x.sink = sink) (polls : Nat)
      {b : Buffer M} {s : σ} (h : Run probe sink b₀ s₀ b s) :
      Run probe sink b₀ s₀ (meetInTheMiddle x b s polls).1 (meetInTheMiddle x b s polls).2.1.sink

/-- What every possible offer keeps, a run keeps. -/
theorem Run.keeps {probe : Probe M A E} {sink : Sink (Candidate M A E) σ} {b₀ : Buffer M} {s₀ s : σ}
    (h : Run probe sink b₀ s₀ b s) (hb : b₀.WellFilled precision)
    (hoffer : ∀ s c, probe.Finds precision c → P s → P (sink.offer s c)) (h₀ : P s₀) :
    P s ∧ b.WellFilled precision := by
  induction h with
  | start => exact ⟨h₀, hb⟩
  | exhaustive x hprobe hsink polls _ ih =>
    subst hprobe hsink
    exact exhaustive_keeps hoffer ih.2 polls ih.1
  | meetInTheMiddle x hprobe hsink polls _ ih =>
    subst hprobe hsink
    exact meetInTheMiddle_keeps hoffer ih.2 polls ih.1

end Search

end CliffordT
