import CliffordT.Proofs.Exact
import CliffordT.Proofs.SearchOrder

/-!
# Joining halves is searching deeper

With exact matrices the matrix of a source depends only on its block list, since the matrix of two lists in a row is the
product of their matrices (`product_append`).  So what a source offers depends only on its block list too
(`hits_eq_blockHits`), and a search of depth `d`, whose two passes go through the lists of up to `2 * d - 1` blocks in
the order of their numbers, offers the same candidates as a first pass on a buffer of depth `2 * d - 1`
(`search_eq_deep_search`).
-/

namespace CliffordT

variable {K A E σ ε : Type} [ExactNumbers K]

/-! ### Matrices of block lists -/

/-- The exact matrix of a block list: the first block is the rightmost factor. -/
def Block.product (bs : List Block) : Mat K := bs.foldl (fun m b => b.matrix * m) 1

theorem Block.product_append (bs cs : List Block) : (product (bs ++ cs) : Mat K) = product cs * product bs := by
  -- a block at the end is a factor in front, so the induction takes blocks off the end
  have hgen : ∀ (cs : List Block) (m : Mat K),
      cs.foldl (fun m (b : Block) => b.matrix * m) m = product cs * m := by
    intro cs
    induction cs using List.reverseRecOn with
    | nil => intro m; exact (one_mul m).symm
    | append_singleton cs c ih =>
      intro m
      rw [product, List.foldl_append, List.foldl_append, ih]
      exact (mul_assoc _ _ m).symm
  rw [product, List.foldl_append]
  exact hgen cs _

theorem entry_eq_product {depth i : Nat} (precision : Precision) (h : i < Index.start (depth + 1)) :
    (Buffer.empty depth precision : Buffer (Mat K)).fillAll.entry i = Block.product (Index.decode i) :=
  Buffer.entry_fillAll_empty precision h

/-! ### Candidates of block lists -/

/-- The candidates of a block list. -/
def Probe.blockHits (probe : Probe (Mat K) A E) (bs : List Block) : List (Candidate (Mat K) A E) :=
  (completions.filter fun c => probe.isDiagonal (c.matrix * Block.product bs)).map fun c =>
    ⟨probe.phase (c.matrix * Block.product bs), Word.spell bs ++ c.word, c.matrix * Block.product bs,
      probe.error (c.matrix * Block.product bs)⟩

theorem hits_eq_blockHits (probe : Probe (Mat K) A E) {b : Buffer (Mat K)} {source : Source}
    (h : source.matrix b = Block.product source.blockList) :
    probe.hits b source = probe.blockHits source.blockList := by
  rw [Probe.hits, Probe.hitsOf, h, Probe.blockHits]
  apply List.map_congr_left
  intro c hc
  rw [Probe.candidate, source.word_eq (List.mem_of_mem_filter hc)]

theorem flatMap_hits_eq (probe : Probe (Mat K) A E) {b : Buffer (Mat K)} {sources : List Source}
    (h : ∀ source ∈ sources, source.matrix b = Block.product source.blockList) :
    sources.flatMap (probe.hits b) = (sources.map Source.blockList).flatMap probe.blockHits := by
  rw [List.flatMap_map]
  apply List.flatMap_congr
  intro source hs
  exact hits_eq_blockHits probe (h source hs)

theorem matrix_entrySource {depth : Nat} (precision : Precision) :
    ∀ source ∈ entrySources 0 (Index.start (depth + 1)),
      source.matrix (Buffer.empty depth precision : Buffer (Mat K)).fillAll = Block.product source.blockList := by
  intro source hs
  simp only [entrySources, List.mem_map, List.mem_range'_1] at hs
  obtain ⟨i, hi, rfl⟩ := hs
  rw [Source.blockList_single, ← entry_eq_product precision (show i < Index.start (depth + 1) by omega)]
  rfl

theorem matrix_pairSource {depth : Nat} (precision : Precision) :
    ∀ source ∈ pairSources (Index.start depth) (Index.start (depth + 1)),
      source.matrix (Buffer.empty depth precision : Buffer (Mat K)).fillAll = Block.product source.blockList := by
  intro source hs
  simp only [pairSources, List.mem_flatMap, List.mem_map, List.mem_range, List.mem_range'_1] at hs
  obtain ⟨p, hp, i, hi, rfl⟩ := hs
  rw [Source.blockList_joined, Block.product_append,
    ← entry_eq_product precision (show i < Index.start (depth + 1) by omega),
    ← entry_eq_product precision (show p < Index.start (depth + 1) by omega)]
  rfl

namespace Search

variable [Zero A] [Zero E]

/-- Both sides go through the lists of up to `2 * D - 1` blocks in the order of their numbers. -/
theorem offers_eq_deep_offers (probe : Probe (Mat K) A E) {D : Nat} (hpos : 1 ≤ D)
    (precision precision' : Precision) :
    let b : Buffer (Mat K) := Buffer.empty D precision
    let deep : Buffer (Mat K) := Buffer.empty (2 * D - 1) precision'
    firstOffers probe b b.capacity ++ secondOffers probe b = firstOffers probe deep deep.capacity := by
  intro b deep
  have hlists := map_blockList_sources hpos
  rw [List.map_append] at hlists
  have hdeep := map_blockList_entrySources (Index.start (2 * D - 1 + 1))
  have hsame : 2 * D - 1 + 1 = 2 * D := by omega
  show (seed :: (entrySources 0 (Index.start (D + 1))).flatMap (probe.hits b.fillAll)) ++
      (pairSources (Index.start D) (Index.start (D + 1))).flatMap (probe.hits b.fillAll) =
    seed :: (entrySources 0 (Index.start (2 * D - 1 + 1))).flatMap (probe.hits deep.fillAll)
  -- sources differ between the two sides, but their block lists do not
  rw [flatMap_hits_eq probe (matrix_entrySource precision), flatMap_hits_eq probe (matrix_pairSource precision),
    flatMap_hits_eq probe (matrix_entrySource precision'), hdeep, hsame, ← hlists, List.flatMap_append]
  rfl

private theorem search_eq_deep (x : Setup (Mat K) A E σ ε) (hpoll : ∀ k, x.poll k = none) {D : Nat} (hpos : 1 ≤ D)
    (precision precision' : Precision) (s : σ) (polls polls' : Nat) :
    let both := search x (Buffer.empty D precision) s polls
    let deep := (exhaustive x (Buffer.empty (2 * D - 1) precision') s polls').2
    (both.sink, both.stats.complete) = (deep.sink, deep.stats.complete) := by
  intro both deep
  have hboth := search_offers hpoll (b := Buffer.empty D precision) (Nat.zero_le _) s polls
  have hdeep := (exhaustive_offers hpoll (Buffer.empty (2 * D - 1) precision') s polls').1
  rw [offers_eq_deep_offers x.probe hpos precision precision', ← hdeep] at hboth
  exact hboth

/-- With exact matrices, a search of depth `D` and a first pass alone on a buffer of depth `2 * D - 1` leave the sink in
the same state, complete or not, and offer it the same candidates in the same order. -/
theorem search_eq_deep_search (x : Setup (Mat K) A E σ ε) (hpoll : ∀ k, x.poll k = none) {D : Nat} (hpos : 1 ≤ D)
    (hmax : D ≤ Buffer.maxDepth) (precision precision' : Precision) (s : σ) (polls polls' : Nat) :
    ∃ b : Buffer (Mat K), Buffer.new D precision = .ok b ∧
      let deep : Buffer (Mat K) := Buffer.empty (2 * D - 1) precision'
      (search x b s polls).sink = (exhaustive x deep s polls').2.sink ∧
      (search x b s polls).stats.complete = (exhaustive x deep s polls').2.stats.complete ∧
      (search x.recording b (s, []) polls).sink.2 = (exhaustive x.recording deep (s, []) polls').2.sink.2 := by
  refine ⟨Buffer.empty D precision, Buffer.new_of_le hpos hmax precision, ?_⟩
  have hplain := search_eq_deep x hpoll hpos precision precision' s polls polls'
  have hrec := search_eq_deep x.recording hpoll hpos precision precision' (s, []) polls polls'
  obtain ⟨hsink, hcomplete⟩ := Prod.mk.inj hplain
  obtain ⟨hsink', -⟩ := Prod.mk.inj hrec
  exact ⟨hsink, hcomplete, congrArg Prod.snd hsink'⟩

open Classical in
/-- Over the complex numbers, a search of depth 2 for three diagonal matrices is a first pass of depth 3. -/
theorem search_eq_deep_search_complex :
    let x : Setup (Mat ℂ) ℝ ℝ (Array (Candidate (Mat ℂ) ℝ ℝ)) Unit :=
      ⟨⟨fun m => m.b = 0 ∧ m.c = 0, fun m => m.d.arg - m.a.arg, fun m => max ‖m.b‖ ‖m.c‖⟩, Sink.recorder 3,
        Options.default, none, fun _ => none⟩
    ∃ b : Buffer (Mat ℂ), Buffer.new (2 : Nat) .double = .ok b ∧
      (search x b #[] 0).sink = (exhaustive x (Buffer.empty 3 .double) #[] 0).2.sink := by
  intro x
  obtain ⟨b, hb, hsink, -⟩ :=
    search_eq_deep_search x (fun _ => rfl) (show 1 ≤ 2 by decide) (show 2 ≤ Buffer.maxDepth by decide) .double .double
      #[] 0 0
  exact ⟨b, hb, hsink⟩

end Search

end CliffordT
