import CliffordT.Double
import CliffordT.Proofs.Numbering
import CliffordT.Sequence.Index64
import Mathlib.Data.List.Shortlex

/-!
# Numbering block lists by machine integers

The numbering in 64-bit arithmetic is the numbering by naturals as far as the sign bit: on `0 … 2 ^ 63 - 1` the two
count and list the same blocks (`blockCount_ofNat`, `decode_ofNat`), although `start 63` is computed through the
smallest integer and comes back to the positive side only when two is taken off.  Encoding doubles at each block
(`encode_concat`), also where it wraps around, so it undoes decoding on this whole range.  The list without its last
block is computed with a sum that does wrap around, at the last two integers; below them it is `i / 2 - 1`.

Since a number is read from the back, one block at a time, the order of the numbers is the order of the lists by
length and then by their first difference (`lt_iff_shortlex`).
-/

namespace CliffordT

/-! ### The order of the numbers -/

namespace Index

private theorem lex_append {α : Type} {r : α → α → Prop} {s t : List α} (h : List.Lex r s t)
    (hlength : s.length = t.length) (u v : List α) : List.Lex r (s ++ u) (t ++ v) := by
  induction h with
  | nil => simp at hlength
  | cons _ ih => exact List.Lex.cons (ih (by simpa using hlength))
  | rel hab => exact List.Lex.rel hab

private theorem code_trailing (i : Nat) : (trailing i).code.toNat = i % 2 := by
  unfold trailing
  rcases Nat.mod_two_eq_zero_or_one i with h | h <;> simp [h, Block.ofBit, Block.forward, Block.backward]

private theorem shortlex_decode_of_lt {i j : Nat} (h : i < j) :
    List.Shortlex (fun b c : Block => b.code < c.code) (decode i) (decode j) := by
  -- lists of the same length agree up to the last block, or differ before it
  induction i using Nat.strongRecOn generalizing j with
  | ind i ih =>
    have hcount := blockCount_mono (Nat.le_of_lt h)
    by_cases hlt : blockCount i < blockCount j
    · apply List.Shortlex.of_length_lt
      rw [length_decode, length_decode]
      exact hlt
    have heq : blockCount i = blockCount j := by omega
    apply List.Shortlex.of_lex (by rw [length_decode, length_decode, heq])
    have hlast (hmod : i % 2 < j % 2) : (trailing i).code < (trailing j).code := by
      rw [UInt8.lt_iff_toNat_lt, code_trailing, code_trailing]
      exact hmod
    by_cases hi : i < 2
    · have hj : j < 2 := by
        have := lt_start_blockCount_succ j
        rw [← heq, blockCount_of_lt_two hi, start_succ (Nat.le_refl 1), start_one] at this
        omega
      rw [decode_of_lt_two hi, decode_of_lt_two hj, List.lex_singleton_iff]
      exact hlast (by omega)
    · have hi2 : 2 ≤ i := by omega
      have hj2 : 2 ≤ j := by omega
      rw [decode_of_two_le hi2, decode_of_two_le hj2]
      rw [blockCount_of_two_le hi2, blockCount_of_two_le hj2] at heq
      by_cases hinit : i / 2 - 1 = j / 2 - 1
      · rw [hinit]
        apply List.Lex.append_left
        rw [List.lex_singleton_iff]
        exact hlast (by omega)
      · have hlen : (decode (i / 2 - 1)).length = (decode (j / 2 - 1)).length := by
          rw [length_decode, length_decode]
          omega
        have hless := ih (i / 2 - 1) (by omega) (show i / 2 - 1 < j / 2 - 1 by omega)
        rw [List.shortlex_iff_lex hlen] at hless
        exact lex_append hless hlen _ _

/-- Numbers are ordered as their lists are: by length, then by the first block in which they differ. -/
theorem lt_iff_shortlex {i j : Nat} :
    i < j ↔ List.Shortlex (fun b c : Block => b.code < c.code) (decode i) (decode j) := by
  constructor
  · exact shortlex_decode_of_lt
  · intro h
    have : Std.Asymm fun b c : Block => b.code < c.code := ⟨fun b c => UInt8.lt_asymm⟩
    by_contra hle
    rcases Nat.lt_or_eq_of_le (Nat.le_of_not_lt hle) with hlt | rfl
    · exact Std.Asymm.asymm _ _ h (shortlex_decode_of_lt hlt)
    · exact Std.Asymm.asymm _ _ h h

end Index

/-! ### Arithmetic at 64 bits -/

namespace Index64

private theorem not_ofNat_neg {i : Nat} (h : i < 2 ^ 63) : ¬ Int64.ofNat i < 0 := by
  rw [Int64.lt_iff_toInt_lt, Int64.toInt_ofNat_of_lt h, Int64.toInt_zero]
  omega

/-- The integers that number a list are the naturals below `2 ^ 63`. -/
private theorem exists_ofNat {i : Int64} (h : 0 ≤ i) : ∃ k < 2 ^ 63, Int64.ofNat k = i :=
  ⟨i.toNatClampNeg, i.toNatClampNeg_lt, Int64.ofNat_toNatClampNeg i h⟩

private theorem ofNat_lt_ofNat {i j : Nat} (hi : i < 2 ^ 63) (hj : j < 2 ^ 63) :
    Int64.ofNat i < Int64.ofNat j ↔ i < j := by
  rw [Int64.lt_iff_toInt_lt, Int64.toInt_ofNat_of_lt hi, Int64.toInt_ofNat_of_lt hj, Int.ofNat_lt]

private theorem ofNat_le_ofNat {i j : Nat} (hi : i < 2 ^ 63) (hj : j < 2 ^ 63) :
    Int64.ofNat i ≤ Int64.ofNat j ↔ i ≤ j := by
  rw [Int64.le_iff_toInt_le, Int64.toInt_ofNat_of_lt hi, Int64.toInt_ofNat_of_lt hj, Int.ofNat_le]

private theorem ofNat_two_mul_add (k c : Nat) : Int64.ofNat (2 * k + c) = 2 * Int64.ofNat k + Int64.ofNat c := by
  rw [Int64.ofNat_add, Int64.ofNat_mul]
  rfl

private theorem bitAt_ofNat {n : Nat} (h : n < 64) : bitAt (Int64.ofNat n) = Int64.ofNat (2 ^ n) := by
  have hbits : ∀ n < 64, bitAt (Int64.ofNat n) = Int64.ofNat (2 ^ n) := by decide +kernel
  exact hbits n h

/-- The first integer with 63 blocks is right too, although `2 ^ 63` is not an integer of 64 bits. -/
theorem start_ofNat {n : Nat} (h1 : 1 ≤ n) (h : n < 64) : start (Int64.ofNat n) = Int64.ofNat (Index.start n) := by
  have hpow := Index.start_add_two h1
  rw [start, bitAt_ofNat h, ← hpow, Int64.ofNat_add]
  exact Int64.add_sub_cancel _ _

private theorem toBitVec_shiftRight_ofNat (x : Int64) {k : Nat} (h : k < 64) :
    (x >>> Int64.ofNat k).toBitVec = x.toBitVec.sshiftRight k := by
  have hamount : ∀ k < 64, ((Int64.ofNat k).toBitVec.smod 64).toNat = k := by decide +kernel
  rw [Int64.toBitVec_shiftRight, BitVec.sshiftRight', hamount k h]

private theorem and_one_eq_one_iff (x : Int64) : x &&& 1 = 1 ↔ x.toBitVec.getLsbD 0 = true := by
  rw [← Int64.toBitVec_inj, Int64.toBitVec_and]
  show x.toBitVec &&& 1#64 = 1#64 ↔ _
  rw [BitVec.and_one_eq_setWidth_ofBool_getLsbD]
  cases x.toBitVec.getLsbD 0 <;> decide

private theorem shiftRight_and_one {a k : Nat} (h : k < 64) :
    (Int64.ofNat a >>> Int64.ofNat k) &&& 1 = 1 ↔ a.testBit k = true := by
  rw [and_one_eq_one_iff, toBitVec_shiftRight_ofNat _ h, BitVec.getLsbD_sshiftRight]
  show (!decide (64 ≤ 0) && if k + 0 < 64 then (BitVec.ofNat 64 a).getLsbD (k + 0) else _) = true ↔ _
  rw [Nat.add_zero, if_pos h, BitVec.getLsbD_ofNat]
  simp [h]

private theorem toInt_shiftRight_one (x : Int64) : (x >>> 1).toInt = x.toInt / 2 := by
  show (x >>> Int64.ofNat 1).toBitVec.toInt = _
  rw [toBitVec_shiftRight_ofNat x (by decide), BitVec.toInt_sshiftRight, Int.shiftRight_eq_div_pow]
  rfl

/-- A bit shifted in behind the others doubles them and adds itself. -/
private theorem shiftLeft_or_bit (x : Int64) (c : Bool) :
    (x <<< 1) ||| (if c then 1 else 0) = 2 * x + (if c then 1 else 0) := by
  have hshift : (x <<< 1).toBitVec = x.toBitVec <<< 1 := by
    rw [Int64.toBitVec_shiftLeft, show (Int64.toBitVec 1).smod 64 = 1#64 by decide, BitVec.shiftLeft_eq']
    rfl
  have hdouble : x <<< 1 = 2 * x := by
    rw [← Int64.toBitVec_inj, hshift, BitVec.shiftLeft_eq_mul_twoPow, Int64.toBitVec_mul, BitVec.mul_comm]
    rfl
  have hlow : (x <<< 1) &&& (if c then 1 else 0) = 0 := by
    cases c with
    | false => exact Int64.and_zero
    | true =>
      rw [if_pos rfl, ← Int64.toBitVec_inj, Int64.toBitVec_and, hshift]
      show x.toBitVec <<< 1 &&& 1#64 = 0#64
      rw [BitVec.and_one_eq_setWidth_ofBool_getLsbD, BitVec.getLsbD_shiftLeft]
      rfl
  rw [← Int64.toBitVec_inj, Int64.toBitVec_and] at hlow
  rw [← hdouble, ← Int64.toBitVec_inj, Int64.toBitVec_or, Int64.toBitVec_add,
    BitVec.add_eq_or_of_and_eq_zero _ _ hlow]

/-! ### Machine integers as naturals -/

theorem blockCount_ofNat {i : Nat} (h : i < 2 ^ 63) : blockCount (Int64.ofNat i) = .ok (Index.blockCount i) := by
  have hsum : ((Int64.ofNat i).toUInt64 + 2).toNat = i + 2 := by
    rw [Int64.toUInt64_ofNat', UInt64.toNat_add, UInt64.toNat_ofNat']
    show (i % 2 ^ 64 + 2) % 2 ^ 64 = i + 2
    omega
  rw [blockCount, if_neg (not_ofNat_neg h), hsum, Index.blockCount]

theorem trailing_ofNat {i : Nat} (h : i < 2 ^ 63) : trailing (Int64.ofNat i) = .ok (Index.trailing i) := by
  have hbit : Int64.ofNat i &&& 1 = 1 ↔ i % 2 = 1 := by
    rw [and_one_eq_one_iff]
    show (BitVec.ofNat 64 i).getLsbD 0 = true ↔ _
    rw [BitVec.getLsbD_ofNat]
    simp
  simp only [trailing, if_neg (not_ofNat_neg h), hbit, Index.trailing]

private theorem blockCount_lt {i : Nat} (h : i < 2 ^ 63) : Index.blockCount i < 64 := by
  have hcount : Index.blockCount i ≤ 63 := by
    rw [← Index.lt_start_succ_iff (by decide)]
    exact Nat.lt_trans h (by decide)
  omega

theorem decode_ofNat {i : Nat} (h : i < 2 ^ 63) : decode (Int64.ofNat i) = .ok (Index.decode i) := by
  have hlt := blockCount_lt h
  have hoffset : Int64.ofNat i - start (Int64.ofNat (Index.blockCount i)) =
      Int64.ofNat (i - Index.start (Index.blockCount i)) := by
    rw [start_ofNat (Index.blockCount_pos i) hlt, Int64.ofNat_sub _ _ (Index.start_blockCount_le i)]
  rw [decode, blockCount_ofNat h]
  show Except.ok _ = Except.ok _
  rw [hoffset, Index.decode]
  congr 1
  apply List.map_congr_left
  intro j hj
  simp only [shiftRight_and_one (show Index.blockCount i - 1 - j < 64 by omega), Bool.decide_eq_true]

/-- A block put behind a list doubles its integer, whether that wraps around or not. -/
theorem encode_concat {bs : List Block} (hne : bs ≠ []) (h : bs.length + 1 < 64) (b : Block) :
    encode (bs ++ [b]) = 2 * encode bs + 2 + (if b.bit then 1 else 0) := by
  have hpos : 1 ≤ bs.length := List.length_pos_iff.2 hne
  have hstart : start (Int64.ofNat (bs.length + 1)) = 2 * start (Int64.ofNat bs.length) + 2 := by
    rw [start_ofNat (by omega) h, start_ofNat hpos (by omega), Index.start_succ hpos, ofNat_two_mul_add]
    rfl
  have hempty : (bs ++ [b]).isEmpty = false := by simp
  have hempty' : bs.isEmpty = false := by simpa using hne
  simp only [encode, hempty, hempty', List.length_append, List.length_singleton, List.foldl_append, List.foldl_cons,
    List.foldl_nil, Bool.false_eq_true, if_false]
  rw [hstart, shiftLeft_or_bit]
  grind

theorem encode_decode {i : Nat} (h : i < 2 ^ 63) : encode (Index.decode i) = Int64.ofNat i := by
  induction i using Nat.strongRecOn with
  | ind i ih =>
    by_cases hi : i < 2
    · rw [Index.decode_of_lt_two hi]
      rcases (show i = 0 ∨ i = 1 by omega) with rfl | rfl <;> decide
    · have hi2 : 2 ≤ i := by omega
      have hlt := blockCount_lt h
      rw [Index.blockCount_of_two_le hi2, ← Index.length_decode] at hlt
      have hne : Index.decode (i / 2 - 1) ≠ [] := by
        have hpos := Index.blockCount_pos (i / 2 - 1)
        rw [← Index.length_decode] at hpos
        exact List.length_pos_iff.1 hpos
      have hlast : (if (Index.trailing i).bit then (1 : Int64) else 0) = Int64.ofNat (i % 2) := by
        rcases Nat.mod_two_eq_zero_or_one i with hmod | hmod <;> simp [Index.trailing, hmod]
      have hsplit : i = 2 * (i / 2 - 1) + 2 + i % 2 := by omega
      rw [Index.decode_of_two_le hi2, encode_concat hne hlt, ih (i / 2 - 1) (by omega) (by omega), hlast]
      conv_rhs => rw [hsplit, Int64.ofNat_add, ofNat_two_mul_add]
      rfl

/-! ### The list without its last block -/

private theorem ofNat_inj {i j : Nat} (hi : i < 2 ^ 63) (hj : j < 2 ^ 63) :
    Int64.ofNat i = Int64.ofNat j ↔ i = j := by
  rw [← Int64.toInt_inj, Int64.toInt_ofNat_of_lt hi, Int64.toInt_ofNat_of_lt hj, Int.ofNat_inj]

theorem predecessor_ofNat {i : Nat} (h : i + 2 < 2 ^ 63) :
    predecessor (Int64.ofNat i) = .ok ((Index.predecessor? i).elim (-1) Int64.ofNat) := by
  have hhalf : (((Int64.ofNat i + 2) >>> 1) - 2).toInt = (i : Int) / 2 - 1 := by
    have hsum : (Int64.ofNat i + 2).toInt = i + 2 := by
      show (Int64.ofNat i + Int64.ofNat 2).toInt = _
      rw [← Int64.ofNat_add, Int64.toInt_ofNat_of_lt h]
      rfl
    have htwo : (2 : Int64).toInt = 2 := by decide
    rw [Int64.toInt_sub, toInt_shiftRight_one, hsum, htwo, Int.bmod_eq_of_le (by omega) (by omega)]
    omega
  rw [predecessor, if_neg (not_ofNat_neg (by omega)), Index.predecessor?]
  congr 1
  rw [← Int64.toInt_inj, hhalf]
  by_cases hi : i < 2
  · rw [if_pos hi]
    show _ = (-1 : Int64).toInt
    rw [show (-1 : Int64).toInt = -1 by decide]
    omega
  · rw [if_neg hi, Option.elim_some, Int64.toInt_ofNat_of_lt (by omega)]
    omega

/-- The sum in `predecessor` wraps around at the last two integers, and the result is negative. -/
private theorem predecessor_last {i : Nat} (h : i < 2 ^ 63) (hlast : 2 ^ 63 ≤ i + 2) :
    ∃ p, predecessor (Int64.ofNat i) = .ok p ∧ p < 0 := by
  rcases (show i = 2 ^ 63 - 2 ∨ i = 2 ^ 63 - 1 by omega) with rfl | rfl
  · exact ⟨_, rfl, by decide⟩
  · exact ⟨_, rfl, by decide⟩

private theorem predecessor?_eq_some_iff {i p : Nat} :
    Index.predecessor? i = some p ↔ i = 2 * p + 2 ∨ i = 2 * p + 3 := by
  unfold Index.predecessor?
  split
  · simp
    omega
  · rw [Option.some_inj]
    omega

private theorem predecessor_eq_ofNat_iff {p : Nat} (h : 2 * p + 3 < 2 ^ 63 - 2) {i : Int64} :
    predecessor i = .ok (Int64.ofNat p) ↔ i = Int64.ofNat (2 * p + 2) ∨ i = Int64.ofNat (2 * p + 3) := by
  by_cases hi : i < 0
  · -- a negative integer has no predecessor, and is not one of the two
    have hleft : predecessor i ≠ .ok (Int64.ofNat p) := by simp [predecessor, hi]
    refine iff_of_false hleft ?_
    rintro (rfl | rfl)
    · exact not_ofNat_neg (by omega) hi
    · exact not_ofNat_neg (by omega) hi
  obtain ⟨k, hk, rfl⟩ := exists_ofNat (Int64.not_lt.1 hi)
  rw [ofNat_inj hk (by omega), ofNat_inj hk (by omega)]
  by_cases hlast : 2 ^ 63 ≤ k + 2
  · obtain ⟨q, hq, hneg⟩ := predecessor_last hk hlast
    refine iff_of_false ?_ (by omega)
    rw [hq]
    rintro ⟨⟩
    exact not_ofNat_neg (by omega) hneg
  · rw [predecessor_ofNat (by omega), ← predecessor?_eq_some_iff, Except.ok.injEq]
    cases hpred : Index.predecessor? k with
    | none =>
      refine iff_of_false (fun heq => ?_) (by simp)
      apply not_ofNat_neg (show p < 2 ^ 63 by omega)
      rw [← heq]
      decide
    | some q =>
      have hq := predecessor?_eq_some_iff.1 hpred
      rw [Option.elim_some, ofNat_inj (by omega) (by omega), Option.some_inj]

/-! ### The numbering and its recurrence -/

private theorem exists_decode_of_length_le {bs : List Block} (h1 : 1 ≤ bs.length) (h : bs.length ≤ 62)
    (hbs : ∀ b ∈ bs, b.Valid) : ∃ k, k + 2 < 2 ^ 63 ∧ Index.decode k = bs := by
  obtain ⟨k, rfl⟩ := Index.exists_decode_eq (List.length_pos_iff.1 h1) hbs
  rw [Index.length_decode] at h
  have hlt := (Index.lt_start_succ_iff (show 1 ≤ 62 by decide)).2 h
  have hstart := Index.start_add_two (show 1 ≤ 62 + 1 by decide)
  exact ⟨k, by omega, rfl⟩

/-- The integers from zero on number the lists of the two blocks, up to the last integer: a list has as many blocks as
its integer says and encodes to it.  All lists of up to 62 blocks are numbered, each among the integers of its length.
The integers are ordered as the lists are, by length and then lexicographically. -/
theorem integers_number_lists_in_order :
    (∀ i : Int64, 0 ≤ i →
      ∃ bs, decode i = .ok bs ∧ blockCount i = .ok bs.length ∧ (∀ b ∈ bs, b.Valid) ∧ encode bs = i) ∧
    (∀ bs : List Block, 1 ≤ bs.length → bs.length ≤ 62 → (∀ b ∈ bs, b.Valid) →
      0 ≤ encode bs ∧ (encode bs).toInt ≤ 2 ^ 63 - 3 ∧ start (Int64.ofNat bs.length) ≤ encode bs ∧
      encode bs < start (Int64.ofNat (bs.length + 1)) ∧ decode (encode bs) = .ok bs) ∧
    ∀ i j : Int64, 0 ≤ i → 0 ≤ j →
      ∃ bs cs, decode i = .ok bs ∧ decode j = .ok cs ∧
        (i < j ↔ List.Shortlex (fun b c => b.code < c.code) bs cs) := by
  refine ⟨?_, ?_, ?_⟩
  · intro i hi
    obtain ⟨k, hk, rfl⟩ := exists_ofNat hi
    refine ⟨Index.decode k, decode_ofNat hk, ?_, fun b => Index.valid_of_mem_decode, encode_decode hk⟩
    rw [blockCount_ofNat hk, Index.length_decode]
  · intro bs h1 hlength hbs
    obtain ⟨k, hk, rfl⟩ := exists_decode_of_length_le h1 hlength hbs
    rw [Index.length_decode] at h1 hlength ⊢
    have hk' : k < 2 ^ 63 := by omega
    have hfirst := Index.start_blockCount_le k
    have hnext := Index.lt_start_blockCount_succ k
    have hlast : Index.start (Index.blockCount k + 1) < 2 ^ 63 :=
      Nat.lt_of_le_of_lt (Index.start_mono (by omega) (show Index.blockCount k + 1 ≤ 63 by omega)) (by decide)
    rw [encode_decode hk', start_ofNat h1 (by omega), start_ofNat (by omega) (by omega),
      ofNat_le_ofNat (by omega) hk', ofNat_lt_ofNat hk' hlast, Int64.toInt_ofNat_of_lt hk']
    exact ⟨Int64.not_lt.1 (not_ofNat_neg hk'), by omega, hfirst, hnext, decode_ofNat hk'⟩
  · intro i j hi hj
    obtain ⟨k, hk, rfl⟩ := exists_ofNat hi
    obtain ⟨l, hl, rfl⟩ := exists_ofNat hj
    refine ⟨_, _, decode_ofNat hk, decode_ofNat hl, ?_⟩
    rw [ofNat_lt_ofNat hk hl, Index.lt_iff_shortlex]

/-- The last integer has 63 blocks, of which only the last turns backwards.  The last list of 62 blocks is just below the
first of 63. -/
theorem integers_number_lists_in_order_sign_bit :
    (∃ bs, decode Int64.maxValue = .ok bs ∧ blockCount Int64.maxValue = .ok bs.length ∧ encode bs = Int64.maxValue) ∧
    decode (encode (List.replicate 62 Block.backward)) = .ok (List.replicate 62 Block.backward) ∧
    encode (List.replicate 62 Block.backward) < start 63 ∧
    ∃ bs cs, decode (Int64.maxValue - 1) = .ok bs ∧ decode Int64.maxValue = .ok cs ∧
      List.Shortlex (fun b c => b.code < c.code) bs cs := by
  obtain ⟨hintegers, hlists, horder⟩ := integers_number_lists_in_order
  obtain ⟨bs, hbs, hcount, -, hencode⟩ := hintegers Int64.maxValue (by decide)
  have hvalid : ∀ b ∈ List.replicate 62 Block.backward, b.Valid := by
    intro b hb
    exact Or.inr (List.eq_of_mem_replicate hb)
  obtain ⟨-, -, -, hbelow, hdecode⟩ := hlists (List.replicate 62 Block.backward) (by decide) (by decide) hvalid
  obtain ⟨ds, cs, hds, hcs, hlt⟩ := horder (Int64.maxValue - 1) Int64.maxValue (by decide) (by decide)
  exact ⟨⟨bs, hbs, hcount, hencode⟩, hdecode, hbelow, ds, cs, hds, hcs, hlt.1 (by decide)⟩

/-- Up to the third last integer, the predecessor is a smaller integer with one block less, and its list is the list
without the last block; the two lists of one block have none.  An integer `p` is the predecessor of `2 * p + 2` and
`2 * p + 3`, as long as these are in that range, and of no other.  An entry of a buffer is made of the last block of
its number and the entry of the predecessor. -/
theorem recurrence_follows_numbering :
    (∀ i : Int64, 2 ≤ i → i.toInt ≤ 2 ^ 63 - 3 →
      ∃ p b n bs, predecessor i = .ok p ∧ 0 ≤ p ∧ p < i ∧ trailing i = .ok b ∧ blockCount p = .ok n ∧
        blockCount i = .ok (n + 1) ∧ decode p = .ok bs ∧ decode i = .ok (bs ++ [b])) ∧
    (∀ i : Int64, i = 0 ∨ i = 1 → ∃ b, predecessor i = .ok (-1) ∧ trailing i = .ok b ∧ decode i = .ok [b]) ∧
    (∀ p : Int64, 0 ≤ p → 2 * p.toInt + 3 ≤ 2 ^ 63 - 3 →
      (2 * p + 2).toInt = 2 * p.toInt + 2 ∧ (2 * p + 3).toInt = 2 * p.toInt + 3 ∧
      ∀ i : Int64, predecessor i = .ok p ↔ i = 2 * p + 2 ∨ i = 2 * p + 3) ∧
    ∀ (M : Type) [Storable M] [GateAlgebra M] (buffer : Buffer M) (i : Int64), 0 ≤ i → i.toInt ≤ 2 ^ 63 - 3 →
      ∃ p b, predecessor i = .ok p ∧ trailing i = .ok b ∧
        buffer.product i.toNatClampNeg = b.matrix * (if p < 0 then 1 else buffer.entry p.toNatClampNeg) := by
  refine ⟨?_, ?_, ?_, ?_⟩
  · intro i hi hlast
    obtain ⟨k, hk, rfl⟩ := exists_ofNat (Int64.le_trans (by decide) hi)
    rw [Int64.toInt_ofNat_of_lt hk] at hlast
    have hk2 : 2 ≤ k := (ofNat_le_ofNat (by decide) hk).1 hi
    have hp : k / 2 - 1 < 2 ^ 63 := by omega
    refine ⟨Int64.ofNat (k / 2 - 1), Index.trailing k, Index.blockCount (k / 2 - 1), Index.decode (k / 2 - 1), ?_,
      Int64.not_lt.1 (not_ofNat_neg hp), (ofNat_lt_ofNat hp hk).2 (by omega), trailing_ofNat hk, blockCount_ofNat hp,
      ?_, decode_ofNat hp, ?_⟩
    · rw [predecessor_ofNat (by omega), Index.predecessor?, if_neg (by omega), Option.elim_some]
    · rw [blockCount_ofNat hk, Index.blockCount_of_two_le hk2]
    · rw [decode_ofNat hk, Index.decode_of_two_le hk2]
  · rintro i (rfl | rfl)
    · exact ⟨Block.forward, by decide, by decide, by decide⟩
    · exact ⟨Block.backward, by decide, by decide, by decide⟩
  · intro p hp hlast
    obtain ⟨k, hk, rfl⟩ := exists_ofNat hp
    rw [Int64.toInt_ofNat_of_lt hk] at hlast ⊢
    have htwo : 2 * Int64.ofNat k + 2 = Int64.ofNat (2 * k + 2) := (ofNat_two_mul_add k 2).symm
    have hthree : 2 * Int64.ofNat k + 3 = Int64.ofNat (2 * k + 3) := (ofNat_two_mul_add k 3).symm
    rw [htwo, hthree, Int64.toInt_ofNat_of_lt (by omega), Int64.toInt_ofNat_of_lt (by omega)]
    exact ⟨by omega, by omega, fun i => predecessor_eq_ofNat_iff (by omega)⟩
  · intro M _ _ buffer i hi hlast
    obtain ⟨k, hk, rfl⟩ := exists_ofNat hi
    rw [Int64.toInt_ofNat_of_lt hk] at hlast
    refine ⟨_, _, predecessor_ofNat (by omega), trailing_ofNat hk, ?_⟩
    rw [Int64.toNatClampNeg_ofNat_of_lt hk, Buffer.product]
    cases hpred : Index.predecessor? k with
    | none => rw [Option.elim_none, if_pos (by decide)]
    | some p =>
      have hp := predecessor?_eq_some_iff.1 hpred
      rw [Option.elim_some, if_neg (not_ofNat_neg (by omega)), Int64.toNatClampNeg_ofNat_of_lt (by omega)]

/-- The third last integer is the last that has a predecessor, and with the one before it shares `2 ^ 62 - 3`.  Entry 5
of a buffer is made of a block backwards and entry 1. -/
theorem recurrence_follows_numbering_third_last :
    let i : Int64 := Int64.maxValue - 2
    let p : Int64 := Int64.ofNat (2 ^ 62 - 3)
    let buffer : Buffer Matrix := (Buffer.empty 3 .single).fillAll
    (∃ b bs, trailing i = .ok b ∧ decode p = .ok bs ∧ decode i = .ok (bs ++ [b])) ∧
    (∃ b, predecessor 1 = .ok (-1) ∧ trailing 1 = .ok b ∧ decode 1 = .ok [b]) ∧
    (∀ j : Int64, predecessor j = .ok p ↔ j = i - 1 ∨ j = i) ∧
    buffer.product 5 = Block.backward.matrix * buffer.entry 1 := by
  intro i p buffer
  obtain ⟨hstep, hfirst, htwo, hbuffer⟩ := recurrence_follows_numbering
  refine ⟨?_, hfirst 1 (Or.inr rfl), ?_, ?_⟩
  · obtain ⟨q, b, n, bs, hq, -, -, hb, -, -, hbs, hi⟩ := hstep i (by decide) (by decide)
    have hp : predecessor i = .ok p := by decide
    cases hq.symm.trans hp
    exact ⟨b, bs, hb, hbs, hi⟩
  · have hfollow : 2 * p + 2 = i - 1 ∧ 2 * p + 3 = i := by decide
    rw [← hfollow.1, ← hfollow.2]
    exact (htwo p (by decide) (by decide)).2.2
  · clear_value buffer
    obtain ⟨q, b, hq, hb, hproduct⟩ := hbuffer Matrix buffer 5 (by decide) (by decide)
    have hq1 : predecessor 5 = .ok 1 := by decide
    have hb1 : trailing 5 = .ok Block.backward := by decide
    cases hq.symm.trans hq1
    cases hb.symm.trans hb1
    rwa [if_neg (by decide)] at hproduct

end Index64

end CliffordT
