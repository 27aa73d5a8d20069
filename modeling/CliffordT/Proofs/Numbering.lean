import CliffordT.Sequence.Index
import Mathlib.Data.List.Induction
import Mathlib.Tactic.Ring

/-!
# The numbering of block lists

The numbers `start n, …, start (n + 1) - 1` are those with `n` blocks (`blockCount_eq_iff`), and a number is read one
block at a time from the back: without its last block, list `i` has number `i / 2 - 1` (`decode_of_two_le`).  From
this recursion everything else follows by induction:

* `decode` is injective, and every nonempty list of the two blocks has a number (`exists_decode_eq`);
* a list followed by a list of `n` blocks has number `join p s` (`decode_join`), so the lists that continue list `p` by
  `n` blocks are `2 ^ n` consecutive numbers, in the order of the continuations.
-/

namespace CliffordT

/-- The two blocks that searched words are made of. -/
def Block.Valid (b : Block) : Prop := b = forward ∨ b = backward

theorem Block.valid_ofBit (bit : Bool) : (ofBit bit).Valid := by
  cases bit
  · exact Or.inl rfl
  · exact Or.inr rfl

theorem Block.ofBit_injective {c d : Bool} (h : Block.ofBit c = Block.ofBit d) : c = d := by
  have := congrArg Block.bit h
  simpa using this

namespace Index

/-! ### Numbers with a given number of blocks -/

theorem start_add_two {n : Nat} (h : 1 ≤ n) : start n + 2 = 2 ^ n := by
  obtain ⟨m, rfl⟩ : ∃ m, n = m + 1 := ⟨n - 1, by omega⟩
  have hpos : 0 < 2 ^ m := Nat.two_pow_pos m
  show 2 ^ (m + 1) - 2 + 2 = 2 ^ (m + 1)
  rw [Nat.pow_succ]
  omega

theorem start_one : start 1 = 0 := rfl

/-- There are twice as many lists with one block more. -/
theorem start_succ {n : Nat} (h : 1 ≤ n) : start (n + 1) = 2 * start n + 2 := by
  have h1 := start_add_two h
  have h2 := start_add_two (show 1 ≤ n + 1 by omega)
  rw [Nat.pow_succ] at h2
  omega

theorem start_mono {m n : Nat} (h1 : 1 ≤ m) (h : m ≤ n) : start m ≤ start n := by
  have hm := start_add_two h1
  have hn := start_add_two (Nat.le_trans h1 h)
  have := Nat.pow_le_pow_right (show 0 < 2 by omega) h
  omega

theorem blockCount_pos (i : Nat) : 1 ≤ blockCount i := by
  unfold blockCount
  rw [Nat.le_log2 (by omega)]
  omega

theorem blockCount_eq_iff {i n : Nat} (h : 1 ≤ n) : blockCount i = n ↔ start n ≤ i ∧ i < start (n + 1) := by
  have h1 := start_add_two h
  have h2 := start_add_two (show 1 ≤ n + 1 by omega)
  unfold blockCount
  rw [Nat.log2_eq_iff (by omega), ← h1, ← h2]
  omega

theorem start_blockCount_le (i : Nat) : start (blockCount i) ≤ i :=
  ((blockCount_eq_iff (blockCount_pos i)).1 rfl).1

theorem lt_start_blockCount_succ (i : Nat) : i < start (blockCount i + 1) :=
  ((blockCount_eq_iff (blockCount_pos i)).1 rfl).2

theorem blockCount_mono {i j : Nat} (h : i ≤ j) : blockCount i ≤ blockCount j := by
  have hj := start_add_two (show 1 ≤ blockCount j + 1 by omega)
  have := lt_start_blockCount_succ j
  apply Nat.le_of_lt_succ
  unfold blockCount at *
  rw [Nat.log2_lt (by omega)]
  omega

theorem blockCount_of_lt_two {i : Nat} (h : i < 2) : blockCount i = 1 := by
  rw [blockCount_eq_iff (Nat.le_refl 1), start_one, start_succ (Nat.le_refl 1), start_one]
  omega

theorem blockCount_of_two_le {i : Nat} (h : 2 ≤ i) : blockCount i = blockCount (i / 2 - 1) + 1 := by
  unfold blockCount
  rw [Nat.log2_def, if_pos (by omega), show (i + 2) / 2 = i / 2 - 1 + 2 by omega]

/-- The numbers below `start (n + 1)` are those with at most `n` blocks. -/
theorem lt_start_succ_iff {i n : Nat} (h : 1 ≤ n) : i < start (n + 1) ↔ blockCount i ≤ n := by
  constructor
  · intro hi
    by_contra hlt
    have := start_mono (show 1 ≤ n + 1 by omega) (show n + 1 ≤ blockCount i by omega)
    have := start_blockCount_le i
    omega
  · intro hi
    have := start_mono (show 1 ≤ blockCount i + 1 by omega) (show blockCount i + 1 ≤ n + 1 by omega)
    have := lt_start_blockCount_succ i
    omega

/-! ### Reading a number from the back -/

theorem length_decode (i : Nat) : (decode i).length = blockCount i := by
  simp [decode]

theorem valid_of_mem_decode {i : Nat} {b : Block} (h : b ∈ decode i) : b.Valid := by
  simp only [decode, List.mem_map] at h
  obtain ⟨j, -, rfl⟩ := h
  exact Block.valid_ofBit _

theorem decode_of_lt_two {i : Nat} (h : i < 2) : decode i = [trailing i] := by
  rcases (show i = 0 ∨ i = 1 by omega) with rfl | rfl <;> decide

/-- The last block of a list is the lowest bit of its number, and the other blocks are list `i / 2 - 1`. -/
theorem decode_of_two_le {i : Nat} (h : 2 ≤ i) : decode i = decode (i / 2 - 1) ++ [trailing i] := by
  have hcount := blockCount_of_two_le h
  obtain ⟨n, hn⟩ : ∃ n, blockCount (i / 2 - 1) = n := ⟨_, rfl⟩
  rw [hn] at hcount
  have hpos : 1 ≤ n := hn ▸ blockCount_pos _
  have hsucc := start_succ hpos
  have hle := start_blockCount_le (i / 2 - 1)
  rw [hn] at hle
  -- the offset loses its lowest bit
  have hhalf : i / 2 - 1 - start n = (i - start (n + 1)) / 2 := by omega
  have hlow : (i - start (n + 1)).testBit 0 = decide (i % 2 = 1) := by
    rw [Nat.testBit_zero]
    congr 1
    simp only [eq_iff_iff]
    omega
  simp only [decode, hcount, hn, trailing, List.range_succ, List.map_append, List.map_cons, List.map_nil]
  congr 1
  · apply List.map_congr_left
    intro j hj
    rw [List.mem_range] at hj
    rw [hhalf, ← Nat.testBit_succ]
    congr 2
    omega
  · rw [show n + 1 - 1 - n = 0 by omega, hlow]

theorem decode_two_mul_add (p : Nat) {e : Nat} (he : e < 2) :
    decode (2 * p + 2 + e) = decode p ++ [trailing e] := by
  have hpar : (2 * p + 2 + e) % 2 = e % 2 := by omega
  rw [decode_of_two_le (by omega), show (2 * p + 2 + e) / 2 - 1 = p by omega, trailing, trailing, hpar]

/-! ### One number for one list -/

private theorem trailing_inj {i j : Nat} (h : trailing i = trailing j) : i % 2 = j % 2 := by
  have := Block.ofBit_injective h
  simp only [decide_eq_decide] at this
  omega

theorem decode_injective : Function.Injective decode := by
  intro i
  -- equal lists have the same length, so both numbers are below two or both lose their last block
  induction i using Nat.strongRecOn with
  | ind i ih =>
    intro j h
    have hlen := congrArg List.length h
    rw [length_decode, length_decode] at hlen
    by_cases hi : i < 2
    · have hj : j < 2 := by
        have := lt_start_blockCount_succ j
        rw [← hlen, blockCount_of_lt_two hi, start_succ (Nat.le_refl 1), start_one] at this
        omega
      rw [decode_of_lt_two hi, decode_of_lt_two hj] at h
      have := trailing_inj (List.cons.inj h).1
      omega
    · have hj : 2 ≤ j := by
        by_contra hj
        rw [blockCount_of_lt_two (show j < 2 by omega), blockCount_of_two_le (show 2 ≤ i by omega)] at hlen
        have := blockCount_pos (i / 2 - 1)
        omega
      rw [decode_of_two_le (show 2 ≤ i by omega), decode_of_two_le hj] at h
      obtain ⟨hinit, hlast⟩ := List.append_inj' h rfl
      have := ih (i / 2 - 1) (by omega) hinit
      have := trailing_inj (List.cons.inj hlast).1
      omega

theorem exists_decode_eq {bs : List Block} (hne : bs ≠ []) (hbs : ∀ b ∈ bs, b.Valid) : ∃ i, decode i = bs := by
  induction bs using List.reverseRecOn with
  | nil => exact absurd rfl hne
  | append_singleton bs b ih =>
    obtain ⟨e, he, htr⟩ : ∃ e < 2, trailing e = b := by
      rcases hbs b (by simp) with rfl | rfl
      · exact ⟨0, by omega, rfl⟩
      · exact ⟨1, by omega, rfl⟩
    by_cases hnil : bs = []
    · subst hnil
      exact ⟨e, by rw [decode_of_lt_two he, htr]; rfl⟩
    · obtain ⟨p, hp⟩ := ih hnil (fun c hc => hbs c (by simp [hc]))
      exact ⟨2 * p + 2 + e, by rw [decode_two_mul_add p he, hp, htr]⟩

/-! ### Two lists in a row -/

/-- The number of list `p` followed by list `s`. -/
def join (p s : Nat) : Nat := (p + 2) * 2 ^ blockCount s + (s - start (blockCount s)) - 2

theorem join_of_lt_two (p : Nat) {s : Nat} (h : s < 2) : join p s = 2 * p + 2 + s := by
  rw [join, blockCount_of_lt_two h, start_one]
  omega

theorem join_of_two_le (p : Nat) {s : Nat} (h : 2 ≤ s) : join p s = 2 * join p (s / 2 - 1) + 2 + s % 2 := by
  have hpos := blockCount_pos (s / 2 - 1)
  have hle := start_blockCount_le (s / 2 - 1)
  have hsucc := start_succ hpos
  have hpow : 2 ≤ (p + 2) * 2 ^ blockCount (s / 2 - 1) := by
    have := Nat.mul_le_mul (show 2 ≤ p + 2 by omega) (Nat.one_le_two_pow (n := blockCount (s / 2 - 1)))
    omega
  rw [join, join, blockCount_of_two_le h, hsucc, pow_succ, ← mul_assoc]
  omega

theorem decode_join (p s : Nat) : decode (join p s) = decode p ++ decode s := by
  induction s using Nat.strongRecOn with
  | ind s ih =>
    by_cases h : s < 2
    · rw [join_of_lt_two p h, decode_two_mul_add p h, decode_of_lt_two h]
    · have hlast : trailing (s % 2) = trailing s := by simp [trailing]
      rw [join_of_two_le p (show 2 ≤ s by omega), decode_two_mul_add _ (Nat.mod_lt s (by omega)),
        ih (s / 2 - 1) (by omega), hlast, decode_of_two_le (show 2 ≤ s by omega), List.append_assoc]

/-- The continuations of list `p` by `n` blocks, numbered. -/
theorem join_start_add (p : Nat) {n k : Nat} (hn : 1 ≤ n) (hk : k < 2 ^ n) :
    join p (start n + k) = start (n + 1) + (p * 2 ^ n + k) := by
  have h1 := start_add_two hn
  have h2 := start_succ hn
  have hcount : blockCount (start n + k) = n := by
    rw [blockCount_eq_iff hn]
    omega
  rw [join, hcount, add_mul]
  omega

end Index

end CliffordT
