import CliffordT.Proofs.ErrorOrder
import CliffordT.Proofs.TableInvariant

/-!
# Stored errors stay within the margin

An entry is replaced only by one whose error is less by more than the margin, and it turns away only what is not.  So
the error stored in a bucket never grows (`exists_entry?_apply`, `exists_entry?_run`), and right after a call it is at
most five quarters of the error put forward (`exists_entry?_apply_bucket`).  Both together bound the stored error by five
quarters of every error that was ever put forward for the bucket, also of those turned away in favour of entries that
have been replaced since.
-/

namespace CliffordT.Table

variable {M A E : Type} [GateAlgebra M] [Angle A] [Residual E] [LE E] [Residual.Ordered E] {t : Table M A E}

open Residual.Ordered

omit [GateAlgebra M] [Angle A] in
private theorem widen_nonneg {x : E} (hx : 0 ≤ x) : 0 ≤ Residual.widen x :=
  le_trans hx (le_widen hx)

omit [GateAlgebra M] [Angle A] in
private theorem le_self_of_nonneg {x : E} (hx : 0 ≤ x) : x ≤ x :=
  (le_total hx hx).elim id id

omit [GateAlgebra M] [Angle A] in
/-- What is less than another by more than the margin is less than it. -/
private theorem le_of_widen_lt {x y : E} (hx : 0 ≤ x) (hy : 0 ≤ y) (h : Residual.widen x < y) : x ≤ y := by
  have hnot := (lt_iff_not_le (widen_nonneg hx) hy).1 h
  rcases le_total (widen_nonneg hx) hy with hle | hle
  · exact le_trans (le_widen hx) hle
  · exact absurd hle hnot

/-- A call that names a bucket of the circle and has an error from zero on. -/
def Call.Sound (points : Nat) (x : Call M A E) : Prop := x.Fits points ∧ 0 ≤ x.error

/-- A well-formed table in which every error is from zero on. -/
structure Sound (t : Table M A E) : Prop where
  wellFormed : t.WellFormed
  error_nonneg (b : Nat) (e : Entry M A E) : t.entry? b = some e → 0 ≤ e.error

omit [Residual.Ordered E] in
theorem Sound.apply (h : t.Sound) {x : Call M A E} (hx : x.Sound t.points) : (t.apply x).Sound := by
  refine ⟨h.wellFormed.apply hx.1, fun b e he => ?_⟩
  rcases entry?_apply (h.wellFormed.bucket_lt hx.1) with ⟨-, hstored⟩ | ⟨-, hkept⟩
  · rw [hstored] at he
    split at he
    · cases he
      rw [x.error_entry]
      exact hx.2
    · exact h.error_nonneg b e he
  · rw [hkept] at he
    exact h.error_nonneg b e he

omit [Residual.Ordered E] in
theorem Sound.run (h : t.Sound) {calls : List (Call M A E)} (hcalls : ∀ x ∈ calls, x.Sound t.points) :
    (t.run calls).Sound := by
  induction calls generalizing t with
  | nil => exact h
  | cons x xs ih =>
    refine ih (h.apply (hcalls x (by simp))) fun y hy => ?_
    rw [points_apply]
    exact hcalls y (by simp [hy])

/-- A call leaves an entry where it is, or replaces it by one that is better by more than the margin. -/
theorem Sound.exists_entry?_apply (h : t.Sound) {x : Call M A E} (hx : x.Sound t.points) {b : Nat}
    {old : Entry M A E} (hold : t.entry? b = some old) :
    ∃ new, entry? (t.apply x) b = some new ∧ new.error ≤ old.error ∧
      (new = old ∨ Residual.widen new.error < old.error) := by
  have hself := le_self_of_nonneg (h.error_nonneg b old hold)
  rcases entry?_apply (h.wellFormed.bucket_lt hx.1) with ⟨hmargin, hstored⟩ | ⟨-, hkept⟩
  · by_cases hb : b = x.bucket t.points
    · subst hb
      have hless := hmargin old hold
      refine ⟨x.entry t, (hstored _).trans (if_pos rfl), ?_⟩
      rw [x.error_entry]
      exact ⟨le_of_widen_lt hx.2 (h.error_nonneg _ old hold) hless, Or.inr hless⟩
    · exact ⟨old, by rw [hstored, if_neg hb, hold], hself, Or.inl rfl⟩
  · exact ⟨old, by rw [hkept, hold], hself, Or.inl rfl⟩

/-- After a call its bucket holds an entry within the margin of the error put forward. -/
theorem Sound.exists_entry?_apply_bucket (h : t.Sound) {x : Call M A E} (hx : x.Sound t.points) :
    ∃ e, entry? (t.apply x) (x.bucket t.points) = some e ∧ e.error ≤ Residual.widen x.error := by
  rcases entry?_apply (h.wellFormed.bucket_lt hx.1) with ⟨-, hstored⟩ | ⟨⟨old, hold, hmargin⟩, hkept⟩
  · refine ⟨x.entry t, (hstored _).trans (if_pos rfl), ?_⟩
    rw [x.error_entry]
    exact le_widen hx.2
  · refine ⟨old, by rw [hkept, hold], ?_⟩
    rw [lt_iff_not_le (widen_nonneg hx.2) (h.error_nonneg _ old hold), not_not] at hmargin
    exact hmargin

/-- The error stored in a bucket never grows. -/
theorem Sound.exists_entry?_run (h : t.Sound) {calls : List (Call M A E)} (hcalls : ∀ x ∈ calls, x.Sound t.points)
    {b : Nat} {old : Entry M A E} (hold : t.entry? b = some old) :
    ∃ new, entry? (t.run calls) b = some new ∧ new.error ≤ old.error := by
  induction calls generalizing t old with
  | nil => exact ⟨old, hold, le_self_of_nonneg (h.error_nonneg b old hold)⟩
  | cons x xs ih =>
    have hx := hcalls x (by simp)
    obtain ⟨mid, hmid, hle, -⟩ := h.exists_entry?_apply hx hold
    have hrest : ∀ y ∈ xs, y.Sound (t.apply x).points := fun y hy => by
      rw [points_apply]
      exact hcalls y (by simp [hy])
    obtain ⟨new, hnew, hle'⟩ := ih (h.apply hx) hrest hmid
    exact ⟨new, hnew, le_trans hle' hle⟩

/-- The error stored in a bucket is within the margin of every error that was put forward for it. -/
theorem Sound.exists_entry?_of_mem (h : t.Sound) {calls : List (Call M A E)} (hcalls : ∀ x ∈ calls, x.Sound t.points)
    {x : Call M A E} (hx : x ∈ calls) :
    ∃ e, entry? (t.run calls) (x.bucket t.points) = some e ∧ e.error ≤ Residual.widen x.error := by
  obtain ⟨before, after, rfl⟩ := List.append_of_mem hx
  have hbefore : (t.run before).Sound := h.run fun y hy => hcalls y (by simp [hy])
  have hxs : x.Sound (t.run before).points := by
    rw [points_run]
    exact hcalls x hx
  have hafter : ∀ y ∈ after, y.Sound ((t.run before).apply x).points := fun y hy => by
    rw [points_apply, points_run]
    exact hcalls y (by simp [hy])
  -- what is stored right after the call only gets better
  obtain ⟨mid, hmid, hmargin⟩ := hbefore.exists_entry?_apply_bucket hxs
  obtain ⟨e, he, hle⟩ := (hbefore.apply hxs).exists_entry?_run hafter hmid
  rw [points_run] at he
  rw [run_append, run_cons]
  exact ⟨e, he, le_trans hle hmargin⟩

/-- Whatever entries a table is made of and whatever is put forward then, the error stored in a bucket is within the
margin of every error put forward for it; it never grows; and an entry is replaced only by one that is better by more
than the margin. -/
theorem stored_error_within_margin {points : Int} {es : List (Entry M A E)} {t₀ : Table M A E}
    (h₀ : es = [] ∧ Table.new points = .ok t₀ ∨ ofEntries points es = .ok t₀) (hes : ∀ e ∈ es, 0 ≤ e.error)
    {calls : List (Call M A E)} (hcalls : ∀ x ∈ calls, x.Fits t₀.points ∧ 0 ≤ x.error) :
    (∀ x ∈ es.map .accept ++ calls,
      ∃ e, entry? (t₀.run calls) (x.bucket t₀.points) = some e ∧ e.error ≤ Residual.widen x.error) ∧
    (∀ more : List (Call M A E), (∀ x ∈ more, x.Fits t₀.points ∧ 0 ≤ x.error) →
      ∀ b old, entry? (t₀.run calls) b = some old →
        ∃ new, entry? (t₀.run (calls ++ more)) b = some new ∧ new.error ≤ old.error) ∧
    ∀ x : Call M A E, x.Fits t₀.points ∧ 0 ≤ x.error → ∀ b old new, entry? (t₀.run calls) b = some old →
      entry? (t₀.run (calls ++ [x])) b = some new → new ≠ old → Residual.widen new.error < old.error := by
  obtain ⟨hpos, hdvd, hfit, rfl⟩ := eq_run_of_made h₀
  have hempty : (empty points.toNat : Table M A E).Sound :=
    ⟨wellFormed_empty (by omega) (by omega), fun b e he => by simp [entry?_empty] at he⟩
  have hall : ∀ x ∈ es.map .accept ++ calls, x.Sound (empty points.toNat : Table M A E).points := by
    intro x hx
    rcases List.mem_append.1 hx with hx | hx
    · obtain ⟨e, he, rfl⟩ := List.mem_map.1 hx
      exact ⟨hfit e he, hes e he⟩
    · rw [← points_run _ (es.map .accept)]
      exact hcalls x hx
  have hsound := hempty.run hall
  rw [run_append] at hsound
  refine ⟨fun x hx => ?_, fun more hmore b old hold => ?_, fun x hx b old new hold hchanged hne => ?_⟩
  · rw [← run_append, points_run]
    exact hempty.exists_entry?_of_mem hall hx
  · rw [run_append _ calls]
    refine hsound.exists_entry?_run (fun x hx => ?_) hold
    rw [points_run]
    exact hmore x hx
  · have hx : x.Sound (((empty points.toNat).run (es.map .accept)).run calls).points := by
      rw [points_run]
      exact hx
    obtain ⟨new', hnew', -, hbetter⟩ := hsound.exists_entry?_apply hx hold
    rw [run_concat, hnew'] at hchanged
    cases hchanged
    exact hbetter.resolve_left hne

theorem stored_error_within_margin_doubles_rationals :
    (let e : Float → DoubleEntry := fun x => ⟨1, 0, [], 1, x⟩
     let t := ((empty 16 : DoubleTable).accept (e 1)).run ([0.9, 0.5].map fun x => .accept (e x))
     ∀ x ∈ [1, 0.9, 0.5], ∃ kept, t.entry? 1 = some kept ∧ kept.error ≤ 1.25 * x) ∧
    let e : ℚ → Entry Matrix Float ℚ := fun x => ⟨1, 0, [], 1, x⟩
    let t := (empty 16).run ([1, 4 / 5, 3 / 5].map fun x => .accept (e x))
    ∀ x ∈ [1, 4 / 5, 3 / 5], ∃ kept, t.entry? 1 = some kept ∧ kept.error ≤ 5 / 4 * x := by
  have hbucket : (0 : Int) ≤ 1 ∧ (1 : Int) < (16 / 8 : Nat) := by decide
  constructor
  · intro e t x hx
    have hmade : ofEntries 16 [e 1] = .ok ((empty 16 : DoubleTable).accept (e 1)) := rfl
    have hone : ∀ y ∈ [e 1], 0 ≤ y.error := by
      rw [List.forall_mem_singleton]
      exact (show (0 : Float) ≤ 1 by decide)
    have hnonneg : ∀ y ∈ [0.9, 0.5], (0 : Float) ≤ y := by decide
    have hcalls : ∀ y ∈ [0.9, 0.5].map (fun y => Call.accept (e y)),
        y.Fits ((empty 16 : DoubleTable).accept (e 1)).points ∧ 0 ≤ y.error := by
      rw [points_accept, List.forall_mem_map]
      exact fun y hy => ⟨hbucket, hnonneg y hy⟩
    exact (stored_error_within_margin (Or.inr hmade) hone hcalls).1 (.accept (e x))
      (List.mem_map_of_mem (f := fun y => Call.accept (e y)) hx)
  · intro e t x hx
    have hmade : Table.new 16 = .ok (empty 16 : Table Matrix Float ℚ) := rfl
    have hnonneg : ∀ y ∈ [1, 4 / 5, 3 / 5], (0 : ℚ) ≤ y := by decide +kernel
    have hcalls : ∀ y ∈ [1, 4 / 5, 3 / 5].map (fun y => Call.accept (e y)),
        y.Fits (empty 16 : Table Matrix Float ℚ).points ∧ 0 ≤ y.error := by
      rw [List.forall_mem_map]
      exact fun y hy => ⟨hbucket, hnonneg y hy⟩
    exact (stored_error_within_margin (Or.inl ⟨rfl, hmade⟩) (by simp) hcalls).1 (.accept (e x))
      (List.mem_map_of_mem (f := fun y => Call.accept (e y)) hx)

end CliffordT.Table
