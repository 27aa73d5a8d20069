import CliffordT.Buffer
import CliffordT.Proofs.Numbering
import CliffordT.Proofs.Walk
import Mathlib.Logic.Function.Iterate

/-!
# Filling a buffer

One step of filling writes the next entry and leaves all others alone (`entry_step`), so the first `k` entries of a
buffer are the same however far it is filled beyond them (`entry_iterate_of_lt`).  Hence what a filling shows to its
visitor are the entries of the full buffer, in increasing order, up to the one at which the visitor stops
(`fill_snd`), and the buffer that is left has taken one step per entry shown (`fill_fst`).

What an entry holds depends on its number alone: it is formed from the blocks of its list, first to last, with one
rounded product per block (`entry_fillAll_empty`).
-/

namespace CliffordT.Buffer

variable {M : Type}

theorem new_eq_ok {depth : Int} {precision : Precision} {b : Buffer M} (h : Buffer.new depth precision = .ok b) :
    1 ≤ depth ∧ depth ≤ maxDepth ∧ b = empty depth.toNat precision := by
  unfold Buffer.new at h
  split at h
  · cases h
  · rename_i hdepth
    refine ⟨by omega, by omega, ?_⟩
    cases h
    rfl

theorem new_of_le {depth : Nat} (hpos : 1 ≤ depth) (hmax : depth ≤ maxDepth) (precision : Precision) :
    Buffer.new (depth : Int) precision = .ok (empty depth precision : Buffer M) := by
  unfold Buffer.new
  rw [if_neg (by omega)]
  rfl

variable [Storable M]

/-! ### Storing one matrix -/

theorem entry_put_self (b : Buffer M) (i : Nat) (m : M) : (b.put i m).entry i = Storable.round b.precision m := by
  have hsize : i < (b.cells ++ Array.replicate (i + 1 - b.cells.size) 0).size := by
    simp only [Array.size_append, Array.size_replicate]
    omega
  simp only [entry, put, Array.getD_eq_getD_getElem?]
  rw [Array.getElem?_setIfInBounds_self_of_lt hsize]
  rfl

theorem entry_put_of_ne (b : Buffer M) {i j : Nat} (m : M) (h : j ≠ i) : (b.put i m).entry j = b.entry j := by
  simp only [entry, put, Array.getD_eq_getD_getElem?]
  rw [Array.getElem?_setIfInBounds_ne h.symm, Array.getElem?_append]
  split
  · rfl
  · -- cells that were never written hold zero, before and after
    rename_i hj
    rw [Array.getElem?_replicate, Array.getElem?_eq_none (show b.cells.size ≤ j by omega)]
    split <;> rfl

/-! ### One step and several -/

variable [GateAlgebra M]

@[simp] theorem depth_step (b : Buffer M) : b.step.depth = b.depth := rfl

@[simp] theorem precision_step (b : Buffer M) : b.step.precision = b.precision := rfl

@[simp] theorem filled_step (b : Buffer M) : b.step.filled = b.filled + 1 := rfl

theorem entry_step (b : Buffer M) (j : Nat) :
    b.step.entry j = if j = b.filled then Storable.round b.precision (b.product b.filled) else b.entry j := by
  have hput : b.step.entry j = (b.put b.filled (b.product b.filled)).entry j := rfl
  split
  · rename_i h
    rw [hput, h, entry_put_self]
  · rename_i h
    rw [hput, entry_put_of_ne _ _ h]

theorem depth_iterate (b : Buffer M) (n : Nat) : (step^[n] b).depth = b.depth := by
  induction n generalizing b with
  | zero => rfl
  | succ n ih => rw [Function.iterate_succ_apply, ih, depth_step]

theorem capacity_iterate (b : Buffer M) (n : Nat) : (step^[n] b).capacity = b.capacity := by
  rw [capacity, depth_iterate, capacity]

theorem precision_iterate (b : Buffer M) (n : Nat) : (step^[n] b).precision = b.precision := by
  induction n generalizing b with
  | zero => rfl
  | succ n ih => rw [Function.iterate_succ_apply, ih, precision_step]

theorem filled_iterate (b : Buffer M) (n : Nat) : (step^[n] b).filled = b.filled + n := by
  induction n generalizing b with
  | zero => rfl
  | succ n ih => rw [Function.iterate_succ_apply, ih, filled_step]; omega

/-- Entries that were computed stay as they are. -/
theorem entry_iterate_of_lt (b : Buffer M) (n : Nat) {i : Nat} (h : i < b.filled) :
    (step^[n] b).entry i = b.entry i := by
  induction n generalizing b with
  | zero => rfl
  | succ n ih =>
    rw [Function.iterate_succ_apply, ih b.step (by rw [filled_step]; omega), entry_step,
      if_neg (show i ≠ b.filled by omega)]

/-- However far the filling goes on, an entry is what it was when it was stored. -/
theorem entry_iterate_filled (b : Buffer M) (n : Nat) : (step^[n] b.step).entry b.filled = b.step.entry b.filled :=
  entry_iterate_of_lt b.step n (by rw [filled_step]; omega)

/-! ### Filling with a visitor -/

section

variable {σ : Type} (visit : σ → Nat → M → σ × Bool)

/-- A filling takes one step for each entry that it shows, and shows the entries as they are once all are there. -/
theorem fillFrom_eq (n : Nat) (b : Buffer M) (s : σ) :
    fillFrom visit n b s =
      (step^[walked (fun s i => visit s i ((step^[n] b).entry i)) s (List.range' b.filled n)] b,
        walk (fun s i => visit s i ((step^[n] b).entry i)) s (List.range' b.filled n)) := by
  induction n generalizing b s with
  | zero => rfl
  | succ n ih =>
    -- what is shown now is shown before the other steps, but they will not change it
    have hentry := entry_iterate_filled b n
    rw [List.range'_succ, fillFrom]
    simp only [Function.iterate_succ_apply]
    cases hstop : (visit s b.filled (b.step.entry b.filled)).2 with
    | true => simp [walk, walked, hentry, hstop]
    | false => simp [walk, walked, hentry, hstop, ih]

theorem fillAll_eq (b : Buffer M) : b.fillAll = step^[b.capacity - b.filled] b := by
  have hend : ∀ (n : Nat) (b : Buffer M), (fillFrom (fun _ _ _ => ((), false)) n b ()).1 = step^[n] b := by
    intro n
    induction n with
    | zero => intro b; rfl
    | succ n ih => intro b; exact ih b.step
  exact hend _ _

/-- The numbers whose entries are missing, in the order in which they are computed. -/
def pending (b : Buffer M) : List Nat := List.range' b.filled (b.capacity - b.filled)

/-- A visitor is shown the missing entries of the full buffer in order. -/
theorem fill_snd (b : Buffer M) (s : σ) :
    (b.fill visit s).2 = walk (fun s i => visit s i (b.fillAll.entry i)) s b.pending := by
  rw [fill, fillFrom_eq, fillAll_eq, pending]

theorem fill_fst (b : Buffer M) (s : σ) :
    (b.fill visit s).1 = step^[walked (fun s i => visit s i (b.fillAll.entry i)) s b.pending] b := by
  rw [fill, fillFrom_eq, fillAll_eq, pending]

@[simp] theorem capacity_fill (b : Buffer M) (s : σ) : (b.fill visit s).1.capacity = b.capacity := by
  rw [fill_fst, capacity_iterate]

@[simp] theorem precision_fill (b : Buffer M) (s : σ) : (b.fill visit s).1.precision = b.precision := by
  rw [fill_fst, precision_iterate]

/-- A filling that is not stopped computes everything. -/
theorem fill_fst_of_end {b : Buffer M} {s : σ} (h : (b.fill visit s).2.2 = false) :
    (b.fill visit s).1 = b.fillAll := by
  rw [fill_snd] at h
  rw [fill_fst, walked_of_end h, pending, List.length_range', fillAll_eq]

end

@[simp] theorem depth_fillAll (b : Buffer M) : b.fillAll.depth = b.depth := by
  rw [fillAll_eq, depth_iterate]

@[simp] theorem capacity_fillAll (b : Buffer M) : b.fillAll.capacity = b.capacity := by
  rw [capacity, depth_fillAll, capacity]

@[simp] theorem longest_fillAll (b : Buffer M) : b.fillAll.longest = b.longest := by
  rw [longest, depth_fillAll, longest]

theorem filled_fillAll {b : Buffer M} (h : b.filled ≤ b.capacity) : b.fillAll.filled = b.capacity := by
  rw [fillAll_eq, filled_iterate]
  omega

theorem full_fillAll {b : Buffer M} (h : b.filled ≤ b.capacity) : b.fillAll.full = true := by
  simp [full, filled_fillAll h]

/-! ### What the entries are -/

/-- The matrix of a block list, with every product rounded as it is when it is stored. -/
def stored (precision : Precision) (bs : List Block) : M :=
  bs.foldl (fun m b => Storable.round precision (b.matrix * m)) 1

theorem stored_concat (precision : Precision) (bs : List Block) (b : Block) :
    (stored precision (bs ++ [b]) : M) = Storable.round precision (b.matrix * stored precision bs) := by
  rw [stored, List.foldl_append]
  rfl

/-- Every computed entry is the matrix of its list. -/
def Sound (b : Buffer M) : Prop := ∀ i < b.filled, b.entry i = stored b.precision (Index.decode i)

theorem Sound.round_product {b : Buffer M} (h : b.Sound) :
    Storable.round b.precision (b.product b.filled) = stored b.precision (Index.decode b.filled) := by
  unfold product Index.predecessor?
  by_cases hi : b.filled < 2
  · rw [if_pos hi, Index.decode_of_lt_two hi]
    rfl
  · -- the list without its last block has a smaller number, so its entry is there
    rw [if_neg hi, Index.decode_of_two_le (by omega), stored_concat]
    show Storable.round b.precision (_ * b.entry (b.filled / 2 - 1)) = _
    rw [h _ (by omega)]

theorem Sound.step {b : Buffer M} (h : b.Sound) : b.step.Sound := by
  intro i hi
  rw [filled_step] at hi
  rw [entry_step, precision_step]
  split
  · rename_i hlast
    rw [hlast, h.round_product]
  · exact h i (by omega)

theorem Sound.iterate {b : Buffer M} (h : b.Sound) (n : Nat) : (Buffer.step^[n] b).Sound := by
  induction n generalizing b with
  | zero => exact h
  | succ n ih => exact ih h.step

theorem sound_empty (depth : Nat) (precision : Precision) : (empty depth precision : Buffer M).Sound := by
  intro i hi
  cases hi

/-- The entries of a new buffer, once it is full. -/
theorem entry_fillAll_empty {depth i : Nat} (precision : Precision) (h : i < Index.start (depth + 1)) :
    (empty depth precision : Buffer M).fillAll.entry i = stored precision (Index.decode i) := by
  have hsound := (sound_empty (M := M) depth precision).iterate (Index.start (depth + 1))
  have hfill : (empty depth precision : Buffer M).fillAll =
      Buffer.step^[Index.start (depth + 1)] (empty depth precision) := fillAll_eq _
  have hentry := hsound i (by rw [filled_iterate]; exact Nat.lt_of_lt_of_eq h (Nat.zero_add _).symm)
  rw [hfill, hentry, precision_iterate]
  rfl

/-! ### Buffers that can occur -/

/-- The buffers that can occur: a new one, and what is left when such a buffer was filled, as far as any visitor
lets it, or a matrix was stored in one of its cells. -/
inductive Reached : Buffer M → Prop
  | new {depth : Int} {precision : Precision} {b : Buffer M} (h : Buffer.new depth precision = .ok b) : Reached b
  | fill {σ : Type} (visit : σ → Nat → M → σ × Bool) (s : σ) {b : Buffer M} (h : Reached b) :
      Reached (b.fill visit s).1
  | set {i : Int} {m : M} {b c : Buffer M} (h : Reached b) (hset : b.set? i m = some c) : Reached c

theorem filled_fill_le {σ : Type} (visit : σ → Nat → M → σ × Bool) {b : Buffer M} (s : σ)
    (h : b.filled ≤ b.capacity) : (b.fill visit s).1.filled ≤ b.capacity := by
  have hle := walked_le_length (fun s i => visit s i (b.fillAll.entry i)) s b.pending
  rw [pending, List.length_range'] at hle
  rw [fill_fst, filled_iterate, pending]
  omega

theorem Reached.filled_le {b : Buffer M} (h : b.Reached) : b.filled ≤ b.capacity := by
  induction h with
  | new h =>
    obtain ⟨-, -, rfl⟩ := new_eq_ok h
    exact Nat.zero_le _
  | fill visit s _ ih =>
    rw [capacity_fill]
    exact filled_fill_le visit s ih
  | set _ hset ih =>
    unfold set? at hset
    split at hset
    · cases hset
      exact ih
    · cases hset

end CliffordT.Buffer
