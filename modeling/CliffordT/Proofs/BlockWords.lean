import CliffordT.Proofs.Numbering
import CliffordT.Search.Candidate
import Mathlib.Data.List.Nodup

/-!
# The words that a search reports

A block begins with a basis change and ends in a phase gate, so no two basis changes meet in a row of blocks, nor
where a completion is put behind it.  Hence nothing cancels: the word of a source is its blocks, spelled one after the
other, and the completion (`Source.word_eq`).  Read two bytes at a time such a word gives back its blocks and its
completion (`blocks_append_completion_inj`), so that words reported for different block lists or different completions
differ.
-/

namespace CliffordT

/-! ### Blocks one after the other -/

/-- The gates of a block list, with nothing cancelled. -/
def Word.spell (bs : List Block) : Word := bs.flatMap Block.word

@[simp] theorem Word.spell_nil : spell [] = [] := rfl

@[simp] theorem Word.spell_cons (b : Block) (bs : List Block) : spell (b :: bs) = b.word ++ spell bs := rfl

theorem Word.spell_append (bs cs : List Block) : spell (bs ++ cs) = spell bs ++ spell cs :=
  List.flatMap_append

theorem Word.simplify_of_not_hasPair {w : Word} (h : hasPair w = false) : simplify w = w := by
  simp [simplify, h]

private theorem hasPair_cons_of_ne {a : UInt8} (w : Word) (h : a ≠ Gate.byte .h) :
    Word.hasPair (a :: w) = Word.hasPair w := by
  cases w with
  | nil => rfl
  | cons b w => simp [Word.hasPair, h]

/-- A block in front makes no pair of basis changes, whatever follows. -/
private theorem hasPair_block_append (b : Block) (w : Word) : Word.hasPair (b.word ++ w) = Word.hasPair w := by
  unfold Block.word
  split
  · show Word.hasPair (Gate.byte .h :: Gate.byte .tInv :: w) = Word.hasPair w
    rw [Word.hasPair, hasPair_cons_of_ne w (by decide)]
    rfl
  · show Word.hasPair (Gate.byte .h :: Gate.byte .t :: w) = Word.hasPair w
    rw [Word.hasPair, hasPair_cons_of_ne w (by decide)]
    rfl

theorem Word.hasPair_spell_append (bs : List Block) (w : Word) : hasPair (spell bs ++ w) = hasPair w := by
  induction bs with
  | nil => rfl
  | cons b bs ih => rw [spell_cons, List.append_assoc, hasPair_block_append, ih]

theorem Word.ofBlocks_eq_spell (lists : List (List Block)) : ofBlocks lists = spell lists.flatten := by
  have hflat : (lists.flatMap fun blocks => blocks.flatMap Block.word) = spell lists.flatten := by
    induction lists with
    | nil => rfl
    | cons bs lists ih => rw [List.flatten_cons, spell_append, ← ih]; rfl
  have hnone := hasPair_spell_append lists.flatten []
  rw [List.append_nil] at hnone
  rw [ofBlocks, hflat, simplify_of_not_hasPair (hnone.trans rfl)]

/-! ### A completion behind the blocks -/

section

variable {M : Type} [GateAlgebra M]

theorem completion_word_cases {c : Completion M} (h : c ∈ completions) :
    c.word = [Gate.byte .h] ∨ c.word = [Gate.byte .x] ∨ c.word = [Gate.byte .h, Gate.byte .x] := by
  simp only [completions, List.mem_cons, List.not_mem_nil, or_false] at h
  rcases h with rfl | rfl | rfl <;> simp

private theorem hasPair_completion {c : Completion M} (h : c ∈ completions) : Word.hasPair c.word = false := by
  rcases completion_word_cases h with h | h | h <;> rw [h] <;> decide

/-- The blocks of a source, in the order of application. -/
def Source.blockList (source : Source) : List Block := source.blocks.flatten

@[simp] theorem Source.blockList_single (i : Nat) : (single i).blockList = Index.decode i := by
  simp [blockList, blocks]

@[simp] theorem Source.blockList_joined (p s : Nat) :
    (joined p s).blockList = Index.decode p ++ Index.decode s := by
  simp [blockList, blocks]

theorem Source.valid_of_mem_blockList {source : Source} {b : Block} (h : b ∈ source.blockList) : b.Valid := by
  cases source with
  | single i =>
    rw [blockList_single] at h
    exact Index.valid_of_mem_decode h
  | joined p s =>
    rw [blockList_joined, List.mem_append] at h
    rcases h with h | h
    · exact Index.valid_of_mem_decode h
    · exact Index.valid_of_mem_decode h

/-- Nothing cancels in the word of a source. -/
theorem Source.word_eq (source : Source) {c : Completion M} (h : c ∈ completions) :
    source.word c = Word.spell source.blockList ++ c.word := by
  rw [word, Word.ofBlocks_eq_spell]
  apply Word.simplify_of_not_hasPair
  rw [Word.hasPair_spell_append]
  exact hasPair_completion h

private theorem word_length (b : Block) : b.word.length = 2 := by
  unfold Block.word
  split <;> rfl

private theorem word_inj_of_valid {b d : Block} (hb : b.Valid) (hd : d.Valid) (h : b.word = d.word) : b = d := by
  rcases hb with rfl | rfl <;> rcases hd with rfl | rfl <;> revert h <;> decide

private theorem completion_ne_block_append {c : Completion M} (h : c ∈ completions) (b : Block) (w : Word) :
    c.word ≠ b.word ++ w := by
  unfold Block.word
  rcases completion_word_cases h with h | h | h <;> rw [h] <;> split <;> simp [Gate.byte]

/-- Blocks and completion can be read off a reported word. -/
theorem blocks_append_completion_inj {bs ds : List Block} {c e : Completion M} (hc : c ∈ completions)
    (he : e ∈ completions) (hbs : ∀ b ∈ bs, b.Valid) (hds : ∀ d ∈ ds, d.Valid)
    (h : Word.spell bs ++ c.word = Word.spell ds ++ e.word) : bs = ds ∧ c.word = e.word := by
  induction bs generalizing ds with
  | nil =>
    cases ds with
    | nil => exact ⟨rfl, h⟩
    | cons d ds =>
      rw [Word.spell_cons, List.append_assoc] at h
      exact absurd h (completion_ne_block_append hc d _)
  | cons b bs ih =>
    cases ds with
    | nil =>
      rw [Word.spell_cons, List.append_assoc] at h
      exact absurd h.symm (completion_ne_block_append he b _)
    | cons d ds =>
      rw [Word.spell_cons, Word.spell_cons, List.append_assoc, List.append_assoc] at h
      obtain ⟨hhead, htail⟩ := List.append_inj h (by rw [word_length, word_length])
      have hbd := word_inj_of_valid (hbs b (by simp)) (hds d (by simp)) hhead
      obtain ⟨hrest, hce⟩ := ih (fun x hx => hbs x (by simp [hx])) (fun x hx => hds x (by simp [hx])) htail
      exact ⟨by rw [hbd, hrest], hce⟩

/-- Sources with different block lists report different words, also with different completions. -/
theorem nodup_words {sources : List Source} (h : (sources.map Source.blockList).Nodup) :
    (sources.flatMap fun source => (completions (M := M)).map source.word).Nodup := by
  have hcompl : ((completions (M := M)).map fun c => c.word).Nodup := by
    simp only [completions, List.map_cons, List.map_nil]
    decide
  rw [List.nodup_flatMap]
  constructor
  · -- behind the blocks of one source, the words differ as the completions do
    intro source _
    refine List.Nodup.of_map (fun w => w.drop (Word.spell source.blockList).length) ?_
    have hdrop : (completions (M := M)).map (fun c =>
        (source.word c).drop (Word.spell source.blockList).length) = (completions (M := M)).map fun c => c.word := by
      apply List.map_congr_left
      intro c hc
      rw [source.word_eq hc, List.drop_left]
    rw [List.map_map]
    exact hdrop ▸ hcompl
  · refine (List.pairwise_map.1 h).imp ?_
    intro s t hst w hs ht
    obtain ⟨c, hc, rfl⟩ := List.mem_map.1 hs
    obtain ⟨e, he, hw⟩ := List.mem_map.1 ht
    rw [s.word_eq hc, t.word_eq he] at hw
    exact hst (blocks_append_completion_inj he hc (fun b hb => Source.valid_of_mem_blockList hb)
      (fun b hb => Source.valid_of_mem_blockList hb) hw).1.symm

end

end CliffordT
