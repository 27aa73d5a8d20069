import CliffordT.Double
import CliffordT.Proofs.Filling

/-!
# The history of a buffer

A buffer is filled in any number of fillings, each of which may be stopped by its visitor after any entry, and between
them matrices may be put into cells that are not filled yet.  Whatever happened before (`History`), the buffer is well
filled: an entry is the matrix of its block list with one rounded product per block (`History.wellFilled`), since a
filling computes it from entries that were computed before it, never from a stray write.

The visits of all fillings are one log.  A filling goes on where the last one stopped, so the log goes through the
numbers from 0 on (`History.number_log`); a filling without a visitor leaves nothing for later ones to show.
-/

namespace CliffordT

/-- One call of a visitor: what it was shown, and whether it asked to stop. -/
structure Visit (M : Type) where
  number : Nat
  value : M
  stop : Bool

namespace Buffer

variable {M : Type}

/-! ### A visitor that keeps a log -/

section

variable {σ : Type} (visit : σ → Nat → M → σ × Bool)

/-- The same visitor, which also writes down its calls. -/
def logged (s : σ × List (Visit M)) (i : Nat) (m : M) : (σ × List (Visit M)) × Bool :=
  (((visit s.1 i m).1, s.2 ++ [⟨i, m, (visit s.1 i m).2⟩]), (visit s.1 i m).2)

/-- A walk of a visitor with a log is the walk of the visitor. It adds one visit for each number it takes, and the last
one asks to stop if the walk is stopped. -/
theorem walk_logged (f : Nat → M) (is : List Nat) (s : σ) (log : List (Visit M)) :
    ∃ new : List (Visit M),
      walk (fun s i => logged visit s i (f i)) (s, log) is =
        (((walk (fun s i => visit s i (f i)) s is).1, log ++ new), (walk (fun s i => visit s i (f i)) s is).2) ∧
      new.map Visit.number = is.take (walked (fun s i => visit s i (f i)) s is) ∧
      (∀ v ∈ new, v.value = f v.number) ∧
      ((walk (fun s i => visit s i (f i)) s is).2 = true ↔ ∃ v ∈ new, v.stop = true) := by
  induction is generalizing s log with
  | nil => exact ⟨[], by simp, rfl, by simp, by simp⟩
  | cons i is ih =>
    cases hstop : (visit s i (f i)).2 with
    | true =>
      refine ⟨[⟨i, f i, true⟩], ?_, ?_, by simp, ?_⟩
      · simp [walk, logged, hstop]
      · simp [walked, hstop]
      · simp [walk, hstop]
    | false =>
      obtain ⟨new, hwalk, hnumber, hvalue, hflag⟩ := ih (visit s i (f i)).1 (log ++ [⟨i, f i, false⟩])
      have hlogged : logged visit (s, log) i (f i) = (((visit s i (f i)).1, log ++ [⟨i, f i, false⟩]), false) := by
        simp [logged, hstop]
      refine ⟨⟨i, f i, false⟩ :: new, ?_, ?_, ?_, ?_⟩
      · simp [walk, hlogged, hstop, hwalk]
      · simp [walked, hstop, hnumber]
      · simpa using hvalue
      · simpa [walk, hstop] using hflag

variable [Storable M] [GateAlgebra M]

/-- The calls of a visitor in one filling. -/
def visits (b : Buffer M) (s : σ) : List (Visit M) := (b.fill (logged visit) (s, [])).2.1.2

private theorem visits_spec (b : Buffer M) (s : σ) :
    (b.visits visit s).map Visit.number =
        b.pending.take (walked (fun s i => visit s i (b.fillAll.entry i)) s b.pending) ∧
      (∀ v ∈ b.visits visit s, v.value = b.fillAll.entry v.number) ∧
      ((b.fill visit s).2.2 = true ↔ ∃ v ∈ b.visits visit s, v.stop = true) := by
  obtain ⟨new, hwalk, hspec⟩ := walk_logged visit b.fillAll.entry b.pending s []
  have hvisits : b.visits visit s = new := by rw [visits, fill_snd, hwalk, List.nil_append]
  rw [hvisits, fill_snd]
  exact hspec

private theorem take_range' {n k : Nat} (i : Nat) (h : k ≤ n) : (List.range' i n).take k = List.range' i k := by
  rw [show n = k + (n - k) by omega, ← List.range'_append_1, List.take_left' List.length_range']

/-- A filling shows the entries that it computes, in order. -/
theorem number_visits (b : Buffer M) (s : σ) :
    (b.visits visit s).map Visit.number = List.range' b.filled ((b.fill visit s).1.filled - b.filled) := by
  have hle := walked_le_length (fun s i => visit s i (b.fillAll.entry i)) s b.pending
  rw [pending, List.length_range'] at hle
  rw [(visits_spec visit b s).1, fill_fst, filled_iterate, Nat.add_sub_cancel_left, pending, take_range' _ hle]

theorem value_of_mem_visits {b : Buffer M} {s : σ} {v : Visit M} (h : v ∈ b.visits visit s) :
    v.value = b.fillAll.entry v.number :=
  (visits_spec visit b s).2.1 v h

theorem fill_stopped_iff (b : Buffer M) (s : σ) :
    (b.fill visit s).2.2 = true ↔ ∃ v ∈ b.visits visit s, v.stop = true :=
  (visits_spec visit b s).2.2

end

/-! ### Well filled buffers -/

variable [Storable M]

theorem set?_eq_some {b c : Buffer M} {i : Int} {m : M} (h : b.set? i m = some c) :
    0 ≤ i ∧ i < b.capacity ∧ c = b.put i.toNat m := by
  unfold set? at h
  split at h
  · rename_i hi
    exact ⟨hi.1, hi.2, (Option.some.inj h).symm⟩
  · cases h

theorem get?_of_lt {b : Buffer M} {i : Nat} (h : i < b.capacity) : b.get? i = some (b.entry i) := by
  unfold get?
  rw [if_pos (by omega)]
  rfl

variable [GateAlgebra M]

/-- A buffer of some precision that is filled, within its limits, with the matrices of block lists. -/
structure WellFilled (precision : Precision) (b : Buffer M) : Prop where
  sound : b.Sound
  filled_le : b.filled ≤ b.capacity
  precision_eq : b.precision = precision

theorem wellFilled_empty (depth : Nat) (precision : Precision) :
    (empty depth precision : Buffer M).WellFilled precision :=
  ⟨sound_empty depth precision, Nat.zero_le _, rfl⟩

namespace WellFilled

variable {precision : Precision} {b : Buffer M}

theorem fill {σ : Type} (visit : σ → Nat → M → σ × Bool) (s : σ) (h : b.WellFilled precision) :
    (b.fill visit s).1.WellFilled precision where
  sound := by
    rw [fill_fst]
    exact h.sound.iterate _
  filled_le := by
    rw [capacity_fill]
    exact filled_fill_le visit s h.filled_le
  precision_eq := by rw [precision_fill, h.precision_eq]

theorem fillAll (h : b.WellFilled precision) : b.fillAll.WellFilled precision :=
  h.fill _ _

/-- A write behind the filled entries changes none of them. -/
theorem put (h : b.WellFilled precision) {i : Nat} (hi : b.filled ≤ i) (m : M) : (b.put i m).WellFilled precision where
  sound := by
    intro j hj
    have hj : j < b.filled := hj
    rw [entry_put_of_ne b m (by omega)]
    exact h.sound j hj
  filled_le := h.filled_le
  precision_eq := h.precision_eq

theorem entry_of_lt (h : b.WellFilled precision) {i : Nat} (hi : i < b.filled) :
    b.entry i = stored precision (Index.decode i) := by
  rw [h.sound i hi, h.precision_eq]

theorem entry_fillAll_of_lt (h : b.WellFilled precision) {i : Nat} (hi : i < b.capacity) :
    b.fillAll.entry i = stored precision (Index.decode i) :=
  h.fillAll.entry_of_lt (by rw [filled_fillAll h.filled_le]; exact hi)

end WellFilled

/-! ### Histories -/

/-- What can happen to a buffer, with the visits of all its fillings: it is new, it is filled as far as a visitor lets
it, it is filled without a visitor, or a matrix is stored in a cell behind the filled ones. -/
inductive History : Buffer M → List (Visit M) → Prop
  | new {depth : Int} {precision : Precision} {b : Buffer M} (h : Buffer.new depth precision = .ok b) : History b []
  | fill {σ : Type} (visit : σ → Nat → M → σ × Bool) (s : σ) {b : Buffer M} {log : List (Visit M)}
      (h : History b log) : History (b.fill visit s).1 (log ++ b.visits visit s)
  | fillAll {b : Buffer M} {log : List (Visit M)} (h : History b log) : History b.fillAll log
  | set {i : Int} {m : M} {b c : Buffer M} {log : List (Visit M)} (h : History b log) (hi : b.filled ≤ i)
      (hset : b.set? i m = some c) : History c log

namespace History

variable {b : Buffer M} {log : List (Visit M)}

theorem wellFilled (h : History b log) : b.WellFilled b.precision := by
  induction h with
  | new h =>
    obtain ⟨-, -, rfl⟩ := new_eq_ok h
    exact wellFilled_empty _ _
  | fill visit s _ ih =>
    rw [precision_fill]
    exact ih.fill visit s
  | fillAll _ ih =>
    rw [fillAll_eq, precision_iterate, ← fillAll_eq]
    exact ih.fillAll
  | set _ hi hset ih =>
    obtain ⟨-, -, rfl⟩ := set?_eq_some hset
    exact ih.put (by omega) _

/-- A log ends where the next filling begins, unless nothing is left to fill. -/
theorem length_log (h : History b log) :
    log.length = b.filled ∨ log.length ≤ b.filled ∧ b.filled = b.capacity := by
  induction h with
  | new h =>
    obtain ⟨-, -, rfl⟩ := new_eq_ok h
    exact Or.inl rfl
  | @fill _ visit s b log hist ih =>
    have hlen := congrArg List.length (number_visits visit b s)
    rw [List.length_map, List.length_range'] at hlen
    have hle := filled_fill_le visit s hist.wellFilled.filled_le
    have hmono : b.filled ≤ (b.fill visit s).1.filled := by
      rw [fill_fst, filled_iterate]
      omega
    rw [List.length_append, hlen, capacity_fill]
    rcases ih with ih | ⟨ih, hfull⟩
    · left
      omega
    · right
      omega
  | fillAll hist ih =>
    -- nobody was shown these entries, and nothing is left for a later filling
    right
    have hle := hist.wellFilled.filled_le
    rw [filled_fillAll hle, capacity_fillAll]
    omega
  | set _ _ hset ih =>
    obtain ⟨-, -, rfl⟩ := set?_eq_some hset
    exact ih

/-- Over all fillings, the numbers shown are 0, 1, 2 and so on. -/
theorem number_log (h : History b log) : log.map Visit.number = List.range log.length := by
  induction h with
  | new _ => rfl
  | @fill _ visit s b log hist ih =>
    have hnumber := number_visits visit b s
    have hlen := congrArg List.length hnumber
    rw [List.length_map, List.length_range'] at hlen
    rw [List.map_append, ih, hnumber, List.length_append, hlen, List.range_eq_range', List.range_eq_range']
    rcases hist.length_log with hlog | ⟨-, hfull⟩
    · rw [← hlog, ← List.range'_append_1, Nat.zero_add]
    · -- a full buffer shows nothing more
      have hle := filled_fill_le visit s hist.wellFilled.filled_le
      rw [show (b.fill visit s).1.filled - b.filled = 0 by omega]
      simp
  | fillAll _ ih => exact ih
  | set _ _ _ ih => exact ih

theorem number_lt_filled (h : History b log) {v : Visit M} (hv : v ∈ log) : v.number < b.filled := by
  have hmem : v.number ∈ List.range log.length := by
    rw [← h.number_log]
    exact List.mem_map_of_mem hv
  rw [List.mem_range] at hmem
  rcases h.length_log with hlen | ⟨hlen, -⟩ <;> omega

/-- A visitor is shown the matrices of block lists. -/
theorem value_log (h : History b log) : ∀ v ∈ log, v.value = stored b.precision (Index.decode v.number) := by
  induction h with
  | new _ => simp
  | @fill _ visit s b log hist ih =>
    intro v hv
    rw [precision_fill]
    rcases List.mem_append.1 hv with hv | hv
    · exact ih v hv
    · have hmem : v.number ∈ List.range' b.filled ((b.fill visit s).1.filled - b.filled) := by
        rw [← number_visits]
        exact List.mem_map_of_mem hv
      rw [List.mem_range'_1] at hmem
      have hle := filled_fill_le visit s hist.wellFilled.filled_le
      rw [value_of_mem_visits visit hv, hist.wellFilled.entry_fillAll_of_lt (by omega)]
  | fillAll _ ih =>
    rw [fillAll_eq, precision_iterate]
    exact ih
  | set _ _ hset ih =>
    obtain ⟨-, -, rfl⟩ := set?_eq_some hset
    exact ih

end History

/-- Whatever happened to a buffer of doubles, an entry that was computed is the rounded product of its block list; the
visits of all fillings went through the entries from the first on; and a filling is stopped by a visit that asks for
it, or ends with a full buffer. -/
theorem entries_determined_by_number {b : Buffer Matrix} {log : List (Visit Matrix)} (h : History b log) :
    let store : Matrix → Matrix := fun m => if b.precision = .double then m else m.narrow
    b.filled ≤ b.capacity ∧
    (∀ i < b.filled, b.get? i = some ((Index.decode i).foldl (fun m c => store (c.matrix * m)) 1)) ∧
    log.map Visit.number = List.range log.length ∧
    (∀ v ∈ log, v.number < b.filled ∧ b.get? v.number = some v.value) ∧
    (∀ (σ : Type) (visit : σ → Nat → Matrix → σ × Bool) (s : σ),
      ((b.fill visit s).2.2 = true ↔ ∃ v ∈ b.visits visit s, v.stop = true) ∧
      ((b.fill visit s).2.2 = false → (b.fill visit s).1.full = true)) ∧
    b.fillAll.full = true := by
  intro store
  have hle := h.wellFilled.filled_le
  have hround (p : Precision) (m : Matrix) : Storable.round p m = if p = .double then m else m.narrow := by
    cases p <;> rfl
  have hstore (m : Matrix) : Storable.round b.precision m = store m := hround b.precision m
  have hentry : ∀ i < b.filled, b.get? i = some (stored b.precision (Index.decode i)) := by
    intro i hi
    rw [get?_of_lt (by omega), h.wellFilled.entry_of_lt hi]
  refine ⟨hle, ?_, h.number_log, ?_, ?_, full_fillAll hle⟩
  · intro i hi
    rw [hentry i hi, stored]
    simp only [hstore]
  · intro v hv
    have hlt := h.number_lt_filled hv
    exact ⟨hlt, by rw [hentry _ hlt, h.value_log v hv]⟩
  · intro σ visit s
    refine ⟨fill_stopped_iff visit b s, fun hend => ?_⟩
    rw [fill_fst_of_end visit hend]
    exact full_fillAll hle

/-- A buffer of depth 3 in single precision whose filling is stopped at entry 4, with a stray write in cell 9 before the
rest is filled. -/
theorem entries_determined_by_number_stray_write :
    let visit : Nat → Nat → Matrix → Nat × Bool := fun n i _ => (n + 1, i == 4)
    let stopped : Buffer Matrix := ((Buffer.empty 3 .single).fill visit 0).1
    let log := (Buffer.empty 3 .single).visits visit 0
    let b := (stopped.put 9 0).fillAll
    History b log ∧
    b.get? 9 = some ((Index.decode 9).foldl (fun m c => Mat.narrow (c.matrix * m)) 1) ∧
    log.map Visit.number = List.range log.length := by
  intro visit stopped log b
  have hnew : History (Buffer.empty 3 .single : Buffer Matrix) [] :=
    .new (show Buffer.new 3 .single = .ok (Buffer.empty 3 .single) from rfl)
  have hset : stopped.set? 9 0 = some (stopped.put 9 0) := rfl
  have hb : History b log := .fillAll (.set (.fill visit 0 hnew) (show (5 : Int) ≤ 9 by decide) hset)
  obtain ⟨-, hentry, hnumber, -⟩ := entries_determined_by_number hb
  have hfilled : b.filled = 14 := rfl
  exact ⟨hb, hentry 9 (by omega), hnumber⟩

end Buffer

end CliffordT
