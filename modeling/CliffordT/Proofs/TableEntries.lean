import CliffordT.Table.Basic

/-!
# The entries of a table

A table has an entry for each bucket that was found.  Offering a candidate brings in at most the one entry that the
candidate makes, and it leaves or drops the others; so what holds of every entry that is made holds of every entry that
is kept (`forall_entries_offer`).
-/

namespace CliffordT.Table

variable {M A E : Type}

theorem mem_entries_iff {t : Table M A E} {e : Entry M A E} : e ∈ t.entries ↔ some e ∈ t.buckets.toList := by
  simp [entries]

theorem mem_entries_of_bucket {t : Table M A E} {b : Nat} {e : Entry M A E} (h : t.entry? b = some e) :
    e ∈ t.entries := by
  rw [mem_entries_iff, Array.mem_toList_iff]
  exact Array.mem_of_getElem? (Option.join_eq_some_iff.1 h)

theorem entries_empty (points : Nat) : (empty points : Table M A E).entries = [] := by
  simp [entries, empty]

theorem new_eq_ok {points : Int} {t : Table M A E} (h : Table.new points = .ok t) :
    0 < points ∧ points.tmod 8 = 0 ∧ t = empty points.toNat := by
  unfold Table.new at h
  split at h
  · cases h
  · split at h
    · cases h
    · rename_i hpos hmod
      refine ⟨by omega, by simpa using hmod, ?_⟩
      cases h
      rfl

theorem new_of_dvd {points : Int} (hpos : 0 < points) (hdvd : 8 ∣ points) :
    Table.new points = .ok (empty points.toNat : Table M A E) := by
  unfold Table.new
  rw [if_neg (by omega), if_neg (by simp [Int.tmod_eq_zero_of_dvd hdvd])]

/-- Accepting an entry brings in no other one. -/
theorem mem_entries_accept [Residual E] {t : Table M A E} {e e' : Entry M A E} (h : e ∈ (t.accept e').entries) :
    e ∈ t.entries ∨ e = e' := by
  have hset {i : Nat} (h : some e ∈ (t.buckets.setIfInBounds i (some e')).toList) : e ∈ t.entries ∨ e = e' := by
    rw [Array.toList_setIfInBounds] at h
    rcases List.mem_or_eq_of_mem_set h with h | h
    · exact Or.inl (mem_entries_iff.2 h)
    · exact Or.inr (Option.some.inj h)
  unfold accept at h
  dsimp only at h
  split at h
  · exact Or.inl h
  · exact hset (mem_entries_iff.1 h)
  · split at h
    · exact hset (mem_entries_iff.1 h)
    · exact Or.inl h

/-- What holds of all entries holds of them after an offer, if it holds of the entry that the candidate makes. -/
theorem forall_entries_offer [GateAlgebra M] [Angle A] [Residual E] {P : Entry M A E → Prop} {t : Table M A E}
    {c : Candidate M A E} (ht : ∀ e ∈ t.entries, P e) (hc : P (t.entryOf c)) : ∀ e ∈ (t.offer c).entries, P e := by
  intro e he
  rcases mem_entries_accept he with he | rfl
  · exact ht e he
  · exact hc

end CliffordT.Table
