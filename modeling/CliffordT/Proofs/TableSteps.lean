import CliffordT.Proofs.TableEntries

/-!
# Steps of a table

A table changes by calls: a candidate is offered to it, or it accepts an entry as it is (`Call`).  Either way one entry
is put forward for one bucket (`Call.entry`, `Call.bucket`), and `accept_cases` says all that can come of it: the entry
fills an empty bucket, or it takes the place of one whose error exceeds the margin, or it is turned away.  For the
buckets this means that the entry is stored and no other bucket changes, or that none changes (`entry?_apply`).

A run is any number of calls in turn (`run`).  The calls of a run keep the number of slots, so what a call puts forward
does not depend on when it is made.
-/

namespace CliffordT.Table

variable {M A E : Type}

/-! ### Accepting an entry -/

section

variable [Residual E] {t : Table M A E} {e : Entry M A E}

/-- All that can come of accepting an entry whose bucket exists. -/
theorem accept_cases (h : e.bucket.toNat < t.buckets.size) :
    (t.entry? e.bucket.toNat = none ∧ t.accept e =
      { t with buckets := t.buckets.setIfInBounds e.bucket.toNat (some e), found := t.found + 1 }) ∨
    (∃ old, t.entry? e.bucket.toNat = some old ∧ Residual.widen e.error < old.error ∧ t.accept e =
      { t with buckets := t.buckets.setIfInBounds e.bucket.toNat (some e), replacements := t.replacements + 1 }) ∨
    ∃ old, t.entry? e.bucket.toNat = some old ∧ ¬ Residual.widen e.error < old.error ∧ t.accept e =
      { t with rejected := t.rejected + 1 } := by
  have hget : t.buckets[e.bucket.toNat]? = some t.buckets[e.bucket.toNat] := Array.getElem?_eq_getElem h
  unfold accept entry?
  dsimp only
  rw [hget]
  cases t.buckets[e.bucket.toNat] with
  | none => exact Or.inl ⟨rfl, rfl⟩
  | some old =>
    by_cases hmargin : Residual.widen e.error < old.error
    · exact Or.inr (Or.inl ⟨old, rfl, hmargin, if_pos hmargin⟩)
    · exact Or.inr (Or.inr ⟨old, rfl, hmargin, if_neg hmargin⟩)

omit [Residual E] in
private theorem entry?_of_buckets_eq {t' : Table M A E} (h : e.bucket.toNat < t.buckets.size)
    (hset : t'.buckets = t.buckets.setIfInBounds e.bucket.toNat (some e)) (b : Nat) :
    t'.entry? b = if b = e.bucket.toNat then some e else t.entry? b := by
  unfold entry?
  rw [hset]
  by_cases hb : b = e.bucket.toNat
  · subst hb
    simp [h]
  · rw [if_neg hb, Array.getElem?_setIfInBounds_ne (Ne.symm hb)]

theorem entry?_accept (h : e.bucket.toNat < t.buckets.size) :
    ((∀ old, t.entry? e.bucket.toNat = some old → Residual.widen e.error < old.error) ∧
      ∀ b, entry? (t.accept e) b = if b = e.bucket.toNat then some e else t.entry? b) ∨
    (∃ old, t.entry? e.bucket.toNat = some old ∧ ¬ Residual.widen e.error < old.error) ∧
      ∀ b, entry? (t.accept e) b = t.entry? b := by
  rcases accept_cases h with ⟨hnone, heq⟩ | ⟨old, hold, hmargin, heq⟩ | ⟨old, hold, hmargin, heq⟩
  · exact Or.inl ⟨by simp [hnone], entry?_of_buckets_eq h (by rw [heq])⟩
  · refine Or.inl ⟨fun old' hold' => ?_, entry?_of_buckets_eq h (by rw [heq])⟩
    rw [hold] at hold'
    cases hold'
    exact hmargin
  · exact Or.inr ⟨⟨old, hold, hmargin⟩, fun b => by rw [heq]; rfl⟩

@[simp] theorem points_accept (t : Table M A E) (e : Entry M A E) : (t.accept e).points = t.points := by
  unfold accept
  dsimp only
  split
  · rfl
  · rfl
  · split <;> rfl

theorem found_accept_le (t : Table M A E) (e : Entry M A E) : (t.accept e).found ≤ t.found + 1 := by
  unfold accept
  dsimp only
  split
  · exact Nat.le_succ _
  · exact Nat.le_refl _
  · split <;> exact Nat.le_succ _

@[simp] theorem candidates_accept (t : Table M A E) (e : Entry M A E) : (t.accept e).candidates = t.candidates := by
  unfold accept
  dsimp only
  split
  · rfl
  · rfl
  · split <;> rfl

@[simp] theorem size_buckets_accept (t : Table M A E) (e : Entry M A E) :
    (t.accept e).buckets.size = t.buckets.size := by
  unfold accept
  dsimp only
  split
  · rfl
  · simp
  · split <;> simp

end

/-! ### Calls -/

/-- One change of a table. -/
inductive Call (M A E : Type) where
  /-- a candidate is offered -/
  | offer (c : Candidate M A E)
  /-- an entry is accepted as it is -/
  | accept (e : Entry M A E)

namespace Call

/-- The error of what is put forward. -/
def error : Call M A E → E
  | offer c => c.error
  | accept e => e.error

/-- The bucket for which something is put forward, on a circle of so many slots. -/
def bucket [Angle A] (points : Nat) : Call M A E → Nat
  | offer c => Angle.slot points c.phase % (points / 8)
  | accept e => e.bucket.toNat

/-- An entry that is accepted as it is has to name a bucket of the circle. -/
def Fits (points : Nat) : Call M A E → Prop
  | offer _ => True
  | accept e => 0 ≤ e.bucket ∧ e.bucket < (points / 8 : Nat)

end Call

variable [GateAlgebra M] [Angle A]

/-- The entry that a call puts forward. -/
def Call.entry (t : Table M A E) : Call M A E → Entry M A E
  | offer c => t.entryOf c
  | accept e => e

theorem bucket_entryOf (t : Table M A E) (c : Candidate M A E) :
    (t.entryOf c).bucket = (Angle.slot t.points c.phase % (t.points / 8) : Nat) := by
  unfold entryOf
  dsimp only
  split <;> rfl

theorem error_entryOf (t : Table M A E) (c : Candidate M A E) : (t.entryOf c).error = c.error := by
  unfold entryOf
  dsimp only
  split <;> rfl

/-- The entry of a candidate depends on the number of slots only. -/
theorem entryOf_congr {t t' : Table M A E} (h : t'.points = t.points) (c : Candidate M A E) :
    t'.entryOf c = t.entryOf c := by
  cases t
  cases t'
  cases h
  rfl

theorem Call.entry_congr {t t' : Table M A E} (h : t'.points = t.points) (x : Call M A E) :
    x.entry t' = x.entry t := by
  cases x with
  | offer c => exact entryOf_congr h c
  | accept e => rfl

@[simp] theorem Call.error_entry (t : Table M A E) (x : Call M A E) : (x.entry t).error = x.error := by
  cases x with
  | offer c => exact error_entryOf t c
  | accept e => rfl

@[simp] theorem Call.toNat_bucket_entry (t : Table M A E) (x : Call M A E) :
    (x.entry t).bucket.toNat = x.bucket t.points := by
  cases x with
  | offer c => rw [entry, bucket_entryOf]; rfl
  | accept e => rfl

omit [GateAlgebra M] in
theorem Call.bucket_lt {points : Nat} (hpoints : 0 < points / 8) {x : Call M A E} (h : x.Fits points) :
    x.bucket points < points / 8 := by
  cases x with
  | offer c => exact Nat.mod_lt _ hpoints
  | accept e =>
    obtain ⟨hlow, hhigh⟩ := h
    show e.bucket.toNat < points / 8
    omega

variable [Residual E]

/-- Offering a candidate is accepting its entry, and counting it. -/
theorem offer_eq (t : Table M A E) (c : Candidate M A E) :
    t.offer c = { t.accept (t.entryOf c) with candidates := t.candidates + 1 } := by
  -- the count does not enter the entry, and accepting leaves it alone
  have hentry : ({ t with candidates := t.candidates + 1 } : Table M A E).entryOf c = t.entryOf c :=
    entryOf_congr rfl c
  unfold offer
  dsimp only
  rw [hentry]
  unfold accept
  dsimp only
  split
  · rfl
  · rfl
  · split <;> rfl

/-- The table after a call. -/
def apply (t : Table M A E) : Call M A E → Table M A E
  | .offer c => t.offer c
  | .accept e => t.accept e

/-- The table after some calls in turn. -/
def run (t : Table M A E) (calls : List (Call M A E)) : Table M A E := calls.foldl apply t

@[simp] theorem run_nil (t : Table M A E) : t.run [] = t := rfl

@[simp] theorem run_cons (t : Table M A E) (x : Call M A E) (xs : List (Call M A E)) :
    t.run (x :: xs) = (t.apply x).run xs := rfl

theorem run_append (t : Table M A E) (xs ys : List (Call M A E)) : t.run (xs ++ ys) = (t.run xs).run ys :=
  List.foldl_append

theorem run_concat (t : Table M A E) (xs : List (Call M A E)) (x : Call M A E) :
    t.run (xs ++ [x]) = (t.run xs).apply x := by
  rw [run_append]
  rfl

theorem run_map_offer (t : Table M A E) (cs : List (Candidate M A E)) : t.run (cs.map .offer) = cs.foldl offer t :=
  List.foldl_map

@[simp] theorem points_apply (t : Table M A E) (x : Call M A E) : (t.apply x).points = t.points := by
  cases x with
  | offer c => rw [apply, offer_eq]; exact points_accept _ _
  | accept e => exact points_accept t e

@[simp] theorem size_buckets_apply (t : Table M A E) (x : Call M A E) :
    (t.apply x).buckets.size = t.buckets.size := by
  cases x with
  | offer c => rw [apply, offer_eq]; exact size_buckets_accept _ _
  | accept e => exact size_buckets_accept t e

@[simp] theorem points_run (t : Table M A E) (xs : List (Call M A E)) : (t.run xs).points = t.points := by
  induction xs generalizing t with
  | nil => rfl
  | cons x xs ih => rw [run_cons, ih, points_apply]

/-- The entry put forward is stored in its bucket and no other bucket changes, or it could not replace the one that is
there and no bucket changes. -/
theorem entry?_apply {t : Table M A E} {x : Call M A E} (h : x.bucket t.points < t.buckets.size) :
    ((∀ old, t.entry? (x.bucket t.points) = some old → Residual.widen x.error < old.error) ∧
      ∀ b, entry? (t.apply x) b = if b = x.bucket t.points then some (x.entry t) else t.entry? b) ∨
    (∃ old, t.entry? (x.bucket t.points) = some old ∧ ¬ Residual.widen x.error < old.error) ∧
      ∀ b, entry? (t.apply x) b = t.entry? b := by
  have haccept : ∀ b, entry? (t.apply x) b = entry? (t.accept (x.entry t)) b := by
    intro b
    cases x with
    | offer c => rw [apply, offer_eq]; rfl
    | accept e => rfl
  rw [← x.toNat_bucket_entry t] at h
  have hcases := entry?_accept h
  rw [x.toNat_bucket_entry, x.error_entry] at hcases
  simpa only [haccept] using hcases

end CliffordT.Table
