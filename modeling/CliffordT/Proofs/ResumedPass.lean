import CliffordT.Proofs.WorkCounters

/-!
# Interrupting and resuming the first pass

An entry is stored before the pass asks whether it is interrupted, and it is not tested if it is.  A pass that is called
again on the same buffer goes on behind the last entry stored, so nothing tests the entry at which the first call was
interrupted.  All others are tested once and in order: the candidates of one undisturbed pass are those of the first
call, then those of that entry, and then those of the second call without the empty word
(`resumed_pass_skips_interrupted_entry`).
-/

namespace CliffordT.Search

variable {M A E σ ε : Type} [GateAlgebra M] [Storable M]

/-- A buffer that was filled some way is filled up to the same end. -/
theorem fillAll_iterate {b : Buffer M} {n : Nat} (h : b.filled + n ≤ b.capacity) :
    (Buffer.step^[n] b).fillAll = b.fillAll := by
  rw [Buffer.fillAll_eq, Buffer.fillAll_eq, Buffer.capacity_iterate, Buffer.filled_iterate,
    ← Function.iterate_add_apply]
  congr 1
  omega

theorem length_entrySources (lo hi : Nat) : (entrySources lo hi).length = hi - lo := by
  rw [entrySources, List.length_map, List.length_range']

/-- The entries up to number `lo + n`, that entry, and those behind it. -/
theorem entrySources_split {lo hi n : Nat} (h : lo + n < hi) :
    entrySources lo hi = (entrySources lo hi).take n ++ .single (lo + n) :: entrySources (lo + n + 1) hi := by
  have hnumbers : List.range' lo (hi - lo) =
      List.range' lo n ++ (lo + n) :: List.range' (lo + n + 1) (hi - (lo + n + 1)) := by
    rw [show hi - lo = n + (hi - (lo + n + 1) + 1) by omega, ← List.range'_append_1, List.range'_succ]
  have htake : (entrySources lo hi).take n = (List.range' lo n).map .single := by
    rw [entrySources, hnumbers, List.map_append, List.take_append_of_le_length (by simp),
      List.take_of_length_le (by simp)]
  rw [htake, entrySources, entrySources, hnumbers, List.map_append, List.map_cons]

/-- The calls of a first pass, as a recording sink writes them down. -/
def exhaustiveCalls [Zero A] [Zero E] (x : Setup M A E σ ε) (b : Buffer M) (s : σ) (polls : Nat) :
    List (Candidate M A E) :=
  (exhaustive x.recording b (s, []) polls).2.sink.2

section

variable [Zero A] [Zero E] {x : Setup M A E σ ε} (hnever : ∀ s, x.sink.complete s = false)

include hnever

theorem exhaustive_tallied_of_never_complete (b : Buffer M) (s : σ) (polls : Nat) :
    let r := exhaustive x b s polls
    r.2.stats.complete = false ∧ r.1 = Buffer.step^[r.2.stats.visited] b ∧
      Pass.Tallied x.probe b.fillAll [seed] (entrySources b.filled b.capacity) r.2.stats.visited
        (exhaustiveCalls x b s polls) r.2 := by
  intro r
  obtain ⟨hcalled, -, htallied⟩ := exhaustive_tallied x b s polls
  rw [if_neg (by rw [hnever]; exact Bool.false_ne_true)] at htallied
  exact ⟨hcalled.complete.trans (hnever _), (exhaustive_ends x (hnever _) b polls).2, htallied⟩

/-- A pass that nobody interrupts tests all missing entries. -/
theorem exhaustiveCalls_of_never_complete (hpoll : ∀ k, x.poll k = none) (b : Buffer M) (s : σ) (polls : Nat) :
    (exhaustive x b s polls).1 = b.fillAll ∧
      exhaustiveCalls x b s polls = seed :: (entrySources b.filled b.capacity).flatMap (x.probe.hits b.fillAll) := by
  obtain ⟨hcomplete, hbuffer, htallied⟩ := exhaustive_tallied_of_never_complete hnever b s polls
  obtain ⟨-, hnone, hend⟩ := exhaustive_offers hpoll b s polls
  exact ⟨(hend hcomplete).1, (htallied.through hnone hcomplete).2.2⟩

/-- A first pass is interrupted, and then called again on the same buffer and sink without interruptions.  Together the
two calls offer what one undisturbed call offers, in the same order, apart from the repeated empty word and from the
candidates of the entry at which the pass was interrupted: these are lost.  So nothing is lost just if that entry has no
candidates. -/
theorem resumed_pass_skips_interrupted_entry {y : Setup M A E σ ε} (hprobe : y.probe = x.probe)
    (hsink : y.sink = x.sink) (hpoll : ∀ k, y.poll k = none) (b : Buffer M) (s : σ) (polls polls' : Nat) {i : Interrupt}
    (hi : (exhaustive x b s polls).2.interrupt = some i) :
    let first := exhaustive x b s polls
    let before := exhaustiveCalls x b s polls
    let after := exhaustiveCalls y first.1 first.2.sink polls'
    let whole := exhaustiveCalls y b s polls'
    let lost := x.probe.hits b.fillAll (.single (first.1.filled - 1))
    b.filled < first.1.filled ∧ first.1.filled ≤ b.capacity ∧ after.head? = some seed ∧
      whole = before ++ lost ++ after.tail ∧ (whole = before ++ after.tail ↔ lost = []) ∧
      (exhaustive y first.1 first.2.sink polls').1 = (exhaustive y b s polls').1 := by
  intro first before after whole lost
  have hnever' : ∀ s, y.sink.complete s = false := by
    rw [hsink]
    exact hnever
  obtain ⟨-, hbuffer, htallied⟩ := exhaustive_tallied_of_never_complete hnever b s polls
  obtain ⟨-, hpos, hlength, -, hbefore⟩ := htallied.interrupted i hi
  generalize (exhaustive x b s polls).2.stats.visited = n at hbuffer hpos hlength hbefore
  rw [length_entrySources] at hlength
  have hfilled : first.1.filled = b.filled + n := by
    show (exhaustive x b s polls).1.filled = _
    rw [hbuffer, Buffer.filled_iterate]
  have hcapacity : first.1.capacity = b.capacity := by
    show (exhaustive x b s polls).1.capacity = _
    rw [hbuffer, Buffer.capacity_iterate]
  have hfill : first.1.fillAll = b.fillAll := by
    show (exhaustive x b s polls).1.fillAll = _
    rw [hbuffer, fillAll_iterate (by omega)]
  obtain ⟨hend, hafter⟩ := exhaustiveCalls_of_never_complete hnever' hpoll first.1 first.2.sink polls'
  obtain ⟨hend', hwhole⟩ := exhaustiveCalls_of_never_complete hnever' hpoll b s polls'
  rw [hfilled, hcapacity, hfill, hprobe] at hafter
  rw [hprobe] at hwhole
  -- the entry at which the pass was interrupted has number `b.filled + n - 1`
  have hsplit := entrySources_split (show b.filled + (n - 1) < b.capacity by omega)
  have hlost : lost = x.probe.hits b.fillAll (.single (b.filled + (n - 1))) := by
    show x.probe.hits b.fillAll (.single (first.1.filled - 1)) = _
    rw [hfilled, show b.filled + n - 1 = b.filled + (n - 1) by omega]
  have hentries : (entrySources b.filled b.capacity).flatMap (x.probe.hits b.fillAll) =
      ((entrySources b.filled b.capacity).take (n - 1)).flatMap (x.probe.hits b.fillAll) ++ lost ++
        (entrySources (b.filled + n) b.capacity).flatMap (x.probe.hits b.fillAll) := by
    conv_lhs => rw [hsplit]
    rw [List.flatMap_append, List.flatMap_cons, ← List.append_assoc, hlost,
      show b.filled + (n - 1) + 1 = b.filled + n by omega]
  have hparts : whole = before ++ lost ++ after.tail := by
    rw [show whole = _ from hwhole, show before = _ from hbefore, show after = _ from hafter, hentries]
    rfl
  refine ⟨by omega, by omega, by rw [show after = _ from hafter]; rfl, hparts, ?_, hend.trans (hfill.trans hend'.symm)⟩
  rw [hparts, List.append_cancel_right_eq]
  exact List.append_right_eq_self

end

/-- A pass of depth 1 in doubles that is interrupted at its first entry.  The word `HTH` is one of its candidates. -/
theorem resumed_pass_skips_interrupted_entry_doubles :
    let x : Setup Matrix Float Float (Array DoubleCandidate) Unit :=
      ⟨Probe.within 0.5, Sink.recorder 0, { Options.default with checkEvery := 1 }, none, fun _ => some .canceled⟩
    let y := { x with poll := fun _ => none }
    let b : Buffer Matrix := Buffer.empty 1 .single
    (exhaustive x b #[] 0).2.interrupt = some .canceled ∧
    exhaustiveCalls y b #[] 0 = exhaustiveCalls x b #[] 0 ++
      x.probe.hits b.fillAll (.single ((exhaustive x b #[] 0).1.filled - 1)) ++
      (exhaustiveCalls y (exhaustive x b #[] 0).1 (exhaustive x b #[] 0).2.sink 0).tail := by
  intro x y b
  have hnever : ∀ s, x.sink.complete s = false := fun _ => rfl
  have hi : (exhaustive x b #[] 0).2.interrupt = some .canceled := by decide +kernel
  obtain ⟨-, -, -, hparts, -⟩ :=
    resumed_pass_skips_interrupted_entry hnever (y := y) rfl rfl (fun _ => rfl) b #[] 0 0 hi
  exact ⟨hi, hparts⟩

/-- The two calls offer `HtH` besides the empty word, and one undisturbed call offers `HTH` and `HtH`. -/
theorem resumed_pass_loses_candidate :
    let x : Setup Matrix Float Float (Array DoubleCandidate) Unit :=
      ⟨Probe.within 0.5, Sink.recorder 0, { Options.default with checkEvery := 1 }, none, fun _ => some .canceled⟩
    let y := { x with poll := fun _ => none }
    let b : Buffer Matrix := Buffer.empty 1 .single
    (exhaustive x b #[] 0).2.interrupt = some .canceled ∧
    (exhaustiveCalls x b #[] 0 ++
      (exhaustiveCalls y (exhaustive x b #[] 0).1 (exhaustive x b #[] 0).2.sink 0).tail).map (·.gates.text) =
        ["", "HtH"] ∧
    (exhaustiveCalls y b #[] 0).map (·.gates.text) = ["", "HTH", "HtH"] := by
  decide +kernel

end CliffordT.Search
