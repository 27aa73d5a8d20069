import CliffordT.Proofs.BlockWords
import CliffordT.Proofs.Passes

/-!
# The order of a search

In the second pass, list `p` followed by the longest list `start d + k` is the list with number
`start (d + 1) + p * 2 ^ d + k`: the lists of the second pass follow the lists of the buffer without a gap
(`map_blockList_sources`).  So a search of depth `d` goes through the numbering itself, up to the last list of
`2 * d - 1` blocks, and what is known about the numbering holds of the search: every list comes once, shorter ones come
first, and no word is reported twice (`passes_enumerate_block_lists`).
-/

namespace CliffordT

/-! ### The lists of both passes -/

theorem map_blockList_entrySources (n : Nat) :
    (entrySources 0 n).map Source.blockList = (List.range n).map Index.decode := by
  rw [entrySources, List.map_map, Nat.sub_zero, ← List.range_eq_range']
  apply List.map_congr_left
  intro i _
  exact Source.blockList_single i

/-- There are `2 ^ d` lists of `d` blocks. -/
theorem start_succ_sub_start {d : Nat} (h : 1 ≤ d) : Index.start (d + 1) - Index.start d = 2 ^ d := by
  have h1 := Index.start_add_two h
  have h2 := Index.start_succ h
  omega

theorem map_blockList_pairSources {d : Nat} (h : 1 ≤ d) :
    (pairSources (Index.start d) (Index.start (d + 1))).map Source.blockList =
      (List.range (Index.start d * 2 ^ d)).map fun n => Index.decode (Index.start (d + 1) + n) := by
  rw [pairSources_eq_map, start_succ_sub_start h, List.map_map]
  apply List.map_congr_left
  intro n _
  -- quotient and remainder of `n` are the first list and the place of the second among the longest
  have hmod : n % 2 ^ d < 2 ^ d := Nat.mod_lt n (Nat.two_pow_pos d)
  have hdiv : n / 2 ^ d * 2 ^ d + n % 2 ^ d = n := Nat.div_add_mod' n (2 ^ d)
  show (Source.joined (n / 2 ^ d) (Index.start d + n % 2 ^ d)).blockList = _
  rw [Source.blockList_joined, ← Index.decode_join, Index.join_start_add _ h hmod, hdiv]

theorem start_succ_add_mul {d : Nat} (h : 1 ≤ d) :
    Index.start (d + 1) + Index.start d * 2 ^ d = Index.start (2 * d) := by
  have h1 := Index.start_add_two h
  have h2 := Index.start_succ h
  have h3 := Index.start_add_two (show 1 ≤ 2 * d by omega)
  have hsq : (2 : Nat) ^ (2 * d) = Index.start d * 2 ^ d + 2 * 2 ^ d := by
    rw [two_mul, pow_add, ← add_mul, h1]
  omega

/-- The lists of the two passes are the lists of the numbering, in order and without a gap. -/
theorem map_blockList_sources {d : Nat} (h : 1 ≤ d) :
    (entrySources 0 (Index.start (d + 1)) ++ pairSources (Index.start d) (Index.start (d + 1))).map
        Source.blockList =
      (List.range (Index.start (2 * d))).map Index.decode := by
  rw [List.map_append, map_blockList_entrySources, map_blockList_pairSources h, ← start_succ_add_mul h,
    List.range_add, List.map_append, List.map_map]
  rfl

/-! ### Every list once -/

theorem nodup_map_decode (n : Nat) : ((List.range n).map Index.decode).Nodup :=
  List.Nodup.map Index.decode_injective List.nodup_range

theorem count_map_decode {n : Nat} {bs : List Block} (hbs : ∀ b ∈ bs, b.Valid) (hpos : 1 ≤ bs.length)
    (hle : bs.length ≤ n) : ((List.range (Index.start (n + 1))).map Index.decode).count bs = 1 := by
  obtain ⟨i, hi⟩ := Index.exists_decode_eq (List.ne_nil_of_length_pos hpos) hbs
  have hlt : i < Index.start (n + 1) := by
    rw [Index.lt_start_succ_iff (Nat.le_trans hpos hle), ← Index.length_decode, hi]
    exact hle
  apply List.count_eq_one_of_mem (nodup_map_decode _)
  rw [← hi]
  exact List.mem_map_of_mem (List.mem_range.2 hlt)

theorem pairwise_length_map_decode (n : Nat) :
    ((List.range n).map Index.decode).Pairwise fun bs cs => bs.length ≤ cs.length := by
  rw [List.pairwise_map]
  refine List.pairwise_lt_range.imp ?_
  intro i j hij
  rw [Index.length_decode, Index.length_decode]
  exact Index.blockCount_mono (Nat.le_of_lt hij)

namespace Search

variable {M A E σ ε : Type} [Storable M] [GateAlgebra M] [Zero A] [Zero E]

/-- What the passes offer to a sink that is never complete, and how many tests they make. -/
private theorem passes_of_never_complete {x : Setup M A E σ ε} (hpoll : ∀ k, x.poll k = none)
    (hnever : ∀ s, x.sink.complete s = false) {b : Buffer M} (hb : b.filled ≤ b.capacity) (s : σ)
    (polls polls' : Nat) :
    let first := exhaustive x b s polls
    let second := meetInTheMiddle x first.1 first.2.sink polls'
    first.2.sink =
        (seed :: (entrySources b.filled b.capacity).flatMap (x.probe.hits first.1)).foldl x.sink.offer s ∧
      second.2.1.sink =
        ((pairSources b.longest b.capacity).flatMap (x.probe.hits first.1)).foldl x.sink.offer first.2.sink ∧
      first.2.stats.tested = 3 * (entrySources b.filled b.capacity).length ∧
      second.2.1.stats.tested = 3 * (pairSources b.longest b.capacity).length := by
  intro first second
  obtain ⟨hfirst, -, hend⟩ := exhaustive_offers hpoll b s polls
  rw [Sink.offerAll_of_never_complete hnever] at hfirst
  have hcomplete : first.2.stats.complete = false := congrArg Prod.snd hfirst
  have hsink : first.2.sink = _ := congrArg Prod.fst hfirst
  obtain ⟨hfull, htested⟩ := hend hcomplete
  obtain ⟨hsecond, -, -, htested'⟩ := meetInTheMiddle_after hpoll hb hcomplete polls'
  rw [Sink.offerAll_of_never_complete hnever, List.foldl_append] at hsecond
  have hsink' : second.2.1.sink = _ := congrArg Prod.fst hsecond
  have hcomplete' : second.2.1.stats.complete = false := congrArg Prod.snd hsecond
  have hfull : first.1 = b.fillAll := hfull
  rw [hfull]
  refine ⟨hsink, ?_, htested, htested' hcomplete'⟩
  rw [hsink', hsink]
  rfl

/-- A search of depth `D` whose sink is never complete tests the block lists in the order of their numbers, from the
first to the last of `2 * D - 1` blocks. The first two facts say that `entries` and `pairs` are what the passes test:
whatever counts as diagonal, and whatever is done with candidates, the diagonal products of these sources with the
three completions are what is offered, in this order. -/
theorem passes_enumerate_block_lists {D : Nat} (hpos : 1 ≤ D) (hmax : D ≤ Buffer.maxDepth) (precision : Precision) :
    ∃ b : Buffer M, Buffer.new D precision = .ok b ∧
      let entries := entrySources 0 b.capacity
      let pairs := pairSources b.longest b.capacity
      let lists := (entries ++ pairs).map Source.blockList
      (∀ x : Setup M A E σ ε, (∀ k, x.poll k = none) → (∀ s, x.sink.complete s = false) → ∀ s polls polls',
        let first := exhaustive x b s polls
        let second := meetInTheMiddle x first.1 first.2.sink polls'
        first.2.sink = (seed :: entries.flatMap (x.probe.hits first.1)).foldl x.sink.offer s ∧
        second.2.1.sink = (pairs.flatMap (x.probe.hits first.1)).foldl x.sink.offer first.2.sink ∧
        first.2.stats.tested = 3 * entries.length ∧ second.2.1.stats.tested = 3 * pairs.length) ∧
      lists = (List.range (2 ^ (2 * D) - 2)).map Index.decode ∧
      pairs.map Source.blockList = (List.range pairs.length).map (fun n => Index.decode (b.capacity + n)) ∧
      (∀ bs : List Block, (∀ c ∈ bs, c.Valid) → 1 ≤ bs.length → bs.length ≤ 2 * D - 1 → lists.count bs = 1) ∧
      lists.Pairwise (fun bs cs => bs.length ≤ cs.length) ∧
      (completions (M := M)).map (fun c => c.word) =
        [[Gate.byte .h], [Gate.byte .x], [Gate.byte .h, Gate.byte .x]] ∧
      ((entries ++ pairs).flatMap fun source => (completions (M := M)).map source.word).Nodup ∧
      ∀ source : Source, ∀ c ∈ completions (M := M),
        source.word c = source.blockList.flatMap Block.word ++ c.word := by
  refine ⟨Buffer.empty D precision, Buffer.new_of_le hpos hmax precision, ?_⟩
  intro entries pairs lists
  have hlists : lists = (List.range (Index.start (2 * D))).map Index.decode := map_blockList_sources hpos
  have hnodup : lists.Nodup := hlists ▸ nodup_map_decode _
  refine ⟨?_, hlists, ?_, ?_, ?_, rfl, nodup_words hnodup, ?_⟩
  · intro x hpoll hnever s polls polls'
    exact passes_of_never_complete hpoll hnever (Nat.zero_le _) s polls polls'
  · have hpairs := map_blockList_pairSources hpos
    have hlen : pairs.length = Index.start D * 2 ^ D := by
      have := congrArg List.length hpairs
      rwa [List.length_map, List.length_map, List.length_range] at this
    rw [hlen]
    exact hpairs
  · intro bs hbs h1 h2
    have := count_map_decode hbs h1 h2
    rwa [show 2 * D - 1 + 1 = 2 * D by omega, ← hlists] at this
  · have := pairwise_length_map_decode (Index.start (2 * D))
    rwa [← hlists] at this
  · intro source c hc
    exact source.word_eq hc

/-- At depth 3 the block lists are those with numbers 0 to 61, and a recorder gets what they give in this order. -/
theorem passes_enumerate_block_lists_depth_three :
    let x : Setup Matrix Float Float (Array DoubleCandidate) Unit :=
      ⟨Probe.within 0.5, Sink.recorder 0, Options.default, none, fun _ => none⟩
    ∃ b : Buffer Matrix, Buffer.new (3 : Nat) .single = .ok b ∧
      (entrySources 0 b.capacity ++ pairSources b.longest b.capacity).map Source.blockList =
        (List.range 62).map Index.decode ∧
      let first := exhaustive x b #[] 0
      (meetInTheMiddle x first.1 first.2.sink 0).2.1.sink =
        ((pairSources b.longest b.capacity).flatMap (x.probe.hits first.1)).foldl Array.push first.2.sink := by
  intro x
  obtain ⟨b, hb, hpasses, hlists, -⟩ :=
    passes_enumerate_block_lists (M := Matrix) (A := Float) (E := Float) (σ := Array DoubleCandidate) (ε := Unit)
      (show 1 ≤ 3 by decide) (show 3 ≤ Buffer.maxDepth by decide) .single
  refine ⟨b, hb, hlists, ?_⟩
  exact (hpasses x (fun _ => rfl) (fun _ => rfl) #[] 0 0).2.1

end Search

end CliffordT
