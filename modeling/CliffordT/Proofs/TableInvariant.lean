import CliffordT.Double
import CliffordT.Proofs.TableSteps

/-!
# What holds of every table

A table keeps some facts twice: how many buckets are found besides the buckets themselves, the bucket of an entry
besides the place where it is stored, and counters of what became of the entries put forward.  In every table that is
made and filled through its own functions they agree (`WellFormed`, `outcomes_run`).

The buckets with an entry and the ones without are the two parts of one range, each in its order, so `entries` and
`missing` are complementary lists (`WellFormed.perm_range`), and a table is complete when the second is empty
(`WellFormed.complete_iff`).
-/

namespace CliffordT.Table

variable {M A E : Type}

/-! ### Well-formed tables -/

/-- The number of slots, the buckets, the number of found ones and the bucket of every entry agree. -/
structure WellFormed (t : Table M A E) : Prop where
  phaseCount_pos : 0 < t.phaseCount
  points_eq : t.points = 8 * t.phaseCount
  size_buckets : t.buckets.size = t.phaseCount
  found_eq : t.found = t.buckets.toList.countP Option.isSome
  bucket_eq (b : Nat) (e : Entry M A E) : t.entry? b = some e → e.bucket = b

theorem entry?_empty (points b : Nat) : entry? (empty points : Table M A E) b = none := by
  unfold entry? empty
  rw [Array.getElem?_replicate]
  split <;> rfl

theorem wellFormed_empty {points : Nat} (hpos : 0 < points) (hdvd : 8 ∣ points) :
    (empty points : Table M A E).WellFormed where
  phaseCount_pos := by
    show 0 < points / 8
    omega
  points_eq := by
    show points = 8 * (points / 8)
    omega
  size_buckets := Array.size_replicate
  found_eq := by simp [empty, List.countP_replicate]
  bucket_eq b e h := by simp [entry?_empty] at h

theorem getElem_toList_buckets {t : Table M A E} {b : Nat} (h : b < t.buckets.toList.length) :
    t.buckets.toList[b] = t.entry? b := by
  unfold entry?
  rw [← Array.getElem?_toList, List.getElem?_eq_getElem h]
  rfl

/-- Storing an entry makes one bucket more found if the bucket was empty. -/
private theorem countP_set_buckets {t : Table M A E} {b : Nat} (h : b < t.buckets.size) (e : Entry M A E) :
    (t.buckets.toList.set b (some e)).countP Option.isSome =
      t.buckets.toList.countP Option.isSome + if (t.entry? b).isSome then 0 else 1 := by
  have hlen : b < t.buckets.toList.length := by simpa using h
  have hcounted := List.boole_getElem_le_countP (p := Option.isSome) hlen
  rw [List.countP_set hlen]
  rw [getElem_toList_buckets hlen] at hcounted ⊢
  cases hb : (t.entry? b).isSome with
  | true =>
    rw [hb] at hcounted
    simp only [↓reduceIte, Option.isSome_some] at hcounted ⊢
    omega
  | false => simp

section

variable [Residual E] {t : Table M A E} {e : Entry M A E}

private theorem found_accept (hb : e.bucket.toNat < t.buckets.size)
    (hfound : t.found = t.buckets.toList.countP Option.isSome) :
    (t.accept e).found = (t.accept e).buckets.toList.countP Option.isSome := by
  have hcount := countP_set_buckets hb e
  rcases accept_cases hb with ⟨hnone, heq⟩ | ⟨old, hold, -, heq⟩ | ⟨old, hold, -, heq⟩
  · simp only [heq, Array.toList_setIfInBounds, hcount, hnone, hfound]
    rfl
  · simp only [heq, Array.toList_setIfInBounds, hcount, hold, hfound]
    rfl
  · rw [heq]
    exact hfound

/-- Whatever comes of an accepted entry is counted once. -/
theorem outcomes_accept (hb : e.bucket.toNat < t.buckets.size) :
    (t.accept e).found + (t.accept e).replacements + (t.accept e).rejected =
      t.found + t.replacements + t.rejected + 1 := by
  rcases accept_cases hb with ⟨-, heq⟩ | ⟨old, -, -, heq⟩ | ⟨old, -, -, heq⟩
  all_goals
    simp only [heq]
    omega

end

variable [GateAlgebra M] [Angle A]

theorem Call.bucket_entry (t : Table M A E) {x : Call M A E} (h : x.Fits t.points) :
    (x.entry t).bucket = x.bucket t.points := by
  cases x with
  | offer c => exact bucket_entryOf t c
  | accept e => exact (Int.toNat_of_nonneg h.1).symm

omit [GateAlgebra M] in
theorem WellFormed.bucket_lt {t : Table M A E} (h : t.WellFormed) {x : Call M A E} (hx : x.Fits t.points) :
    x.bucket t.points < t.buckets.size := by
  rw [h.size_buckets]
  exact Call.bucket_lt h.phaseCount_pos hx

variable [Residual E] {t : Table M A E}

/-- A call keeps a table well-formed. -/
theorem WellFormed.apply (h : t.WellFormed) {x : Call M A E} (hx : x.Fits t.points) : (t.apply x).WellFormed := by
  have hlt := h.bucket_lt hx
  have hpoints := points_apply t x
  have hcount : (t.apply x).phaseCount = t.phaseCount := by rw [phaseCount, hpoints, phaseCount]
  refine ⟨?_, ?_, ?_, ?_, ?_⟩
  · rw [hcount]
    exact h.phaseCount_pos
  · rw [hcount, hpoints]
    exact h.points_eq
  · rw [hcount, size_buckets_apply]
    exact h.size_buckets
  · rw [← x.toNat_bucket_entry t] at hlt
    cases x with
    | offer c => rw [Table.apply, offer_eq]; exact found_accept hlt h.found_eq
    | accept e => exact found_accept hlt h.found_eq
  · intro b e he
    rcases entry?_apply hlt with ⟨-, hstored⟩ | ⟨-, hkept⟩
    · rw [hstored] at he
      split at he
      · rename_i hb
        cases he
        rw [hb, x.bucket_entry t hx]
      · exact h.bucket_eq b e he
    · rw [hkept] at he
      exact h.bucket_eq b e he

theorem WellFormed.run (h : t.WellFormed) {calls : List (Call M A E)} (hcalls : ∀ x ∈ calls, x.Fits t.points) :
    (t.run calls).WellFormed := by
  induction calls generalizing t with
  | nil => exact h
  | cons x xs ih =>
    refine ih (h.apply (hcalls x (by simp))) fun y hy => ?_
    rw [points_apply]
    exact hcalls y (by simp [hy])

theorem outcomes_run (h : t.WellFormed) {calls : List (Call M A E)} (hcalls : ∀ x ∈ calls, x.Fits t.points) :
    (t.run calls).found + (t.run calls).replacements + (t.run calls).rejected =
      t.found + t.replacements + t.rejected + calls.length := by
  induction calls generalizing t with
  | nil => rfl
  | cons x xs ih =>
    have hx := hcalls x (by simp)
    have hlt := h.bucket_lt hx
    rw [← x.toNat_bucket_entry t] at hlt
    have hfirst : (t.apply x).found + (t.apply x).replacements + (t.apply x).rejected =
        t.found + t.replacements + t.rejected + 1 := by
      cases x with
      | offer c => rw [Table.apply, offer_eq]; exact outcomes_accept hlt
      | accept e => exact outcomes_accept hlt
    have hrest := ih (h.apply hx) fun y hy => by
      rw [points_apply]
      exact hcalls y (by simp [hy])
    rw [run_cons, hrest, hfirst, List.length_cons]
    omega

theorem candidates_run_accept (es : List (Entry M A E)) : (t.run (es.map .accept)).candidates = t.candidates := by
  induction es generalizing t with
  | nil => rfl
  | cons e es ih =>
    rw [List.map_cons, run_cons, ih]
    exact candidates_accept t e

theorem candidates_run_offer (cs : List (Candidate M A E)) :
    (t.run (cs.map .offer)).candidates = t.candidates + cs.length := by
  induction cs generalizing t with
  | nil => rfl
  | cons c cs ih =>
    have hfirst : (t.apply (.offer c)).candidates = t.candidates + 1 := by rw [Table.apply, offer_eq]
    rw [List.map_cons, run_cons, ih, hfirst, List.length_cons]
    omega

/-- A found bucket never becomes missing. -/
theorem WellFormed.entry?_run_ne_none (h : t.WellFormed) {calls : List (Call M A E)}
    (hcalls : ∀ x ∈ calls, x.Fits t.points) {b : Nat} (hb : t.entry? b ≠ none) :
    entry? (t.run calls) b ≠ none := by
  induction calls generalizing t with
  | nil => exact hb
  | cons x xs ih =>
    have hx := hcalls x (by simp)
    refine ih (h.apply hx) (fun y hy => ?_) ?_
    · rw [points_apply]
      exact hcalls y (by simp [hy])
    · rcases entry?_apply (h.bucket_lt hx) with ⟨-, hstored⟩ | ⟨-, hkept⟩
      · rw [hstored]
        split
        · simp
        · exact hb
      · rw [hkept]
        exact hb

/-- What a bucket holds after a run was there before, or some call put it forward for the bucket. -/
theorem WellFormed.entry?_run_cases (h : t.WellFormed) {calls : List (Call M A E)}
    (hcalls : ∀ x ∈ calls, x.Fits t.points) {b : Nat} {e : Entry M A E} (he : entry? (t.run calls) b = some e) :
    t.entry? b = some e ∨ ∃ x ∈ calls, x.bucket t.points = b ∧ x.entry t = e := by
  induction calls generalizing t with
  | nil => exact Or.inl he
  | cons x xs ih =>
    have hx := hcalls x (by simp)
    have hpoints := points_apply t x
    rcases ih (h.apply hx) (fun y hy => by rw [hpoints]; exact hcalls y (by simp [hy])) he with hfirst | hrest
    · rcases entry?_apply (h.bucket_lt hx) with ⟨-, hstored⟩ | ⟨-, hkept⟩
      · rw [hstored] at hfirst
        split at hfirst
        · exact Or.inr ⟨x, by simp, by simp [*], Option.some.inj hfirst⟩
        · exact Or.inl hfirst
      · rw [hkept] at hfirst
        exact Or.inl hfirst
    · obtain ⟨y, hy, hbucket, hentry⟩ := hrest
      rw [hpoints] at hbucket
      rw [y.entry_congr hpoints] at hentry
      exact Or.inr ⟨y, by simp [hy], hbucket, hentry⟩

/-! ### Found and missing buckets -/

omit [GateAlgebra M] [Angle A] [Residual E]

theorem entries_eq_filterMap (t : Table M A E) : t.entries = (List.range t.buckets.size).filterMap t.entry? := by
  have hlist : t.buckets.toList = (List.range t.buckets.size).map t.entry? := by
    refine List.ext_getElem (by simp) fun b hb _ => ?_
    rw [getElem_toList_buckets hb, List.getElem_map, List.getElem_range]
  rw [entries, hlist, List.filterMap_map]
  rfl

theorem mem_entries_iff_exists {e : Entry M A E} : e ∈ t.entries ↔ ∃ b, t.entry? b = some e := by
  refine ⟨fun he => ?_, fun ⟨b, hb⟩ => mem_entries_of_bucket hb⟩
  rw [entries_eq_filterMap, List.mem_filterMap] at he
  obtain ⟨b, -, hb⟩ := he
  exact ⟨b, hb⟩

/-- The buckets of the entries are the found buckets, in their order. -/
theorem WellFormed.map_bucket_entries (h : t.WellFormed) :
    t.entries.map Entry.bucket = ((List.range t.phaseCount).filter fun b => (t.entry? b).isSome).map Nat.cast := by
  rw [entries_eq_filterMap, h.size_buckets]
  induction List.range t.phaseCount with
  | nil => rfl
  | cons b bs ih =>
    cases hb : t.entry? b with
    | none => rw [List.filterMap_cons_none hb, ih, List.filter_cons_of_neg (by simp [hb])]
    | some e =>
      rw [List.filterMap_cons_some hb, List.map_cons, ih, List.filter_cons_of_pos (by simp [hb]), List.map_cons,
        h.bucket_eq b e hb]

theorem missing_eq_filter_not (t : Table M A E) :
    t.missing = (List.range t.phaseCount).filter fun b => !(t.entry? b).isSome := by
  simp [missing]

/-- The buckets of the entries and the missing ones together are all buckets, each once. -/
theorem WellFormed.perm_range (h : t.WellFormed) :
    (t.entries.map Entry.bucket ++ t.missing.map Nat.cast).Perm ((List.range t.phaseCount).map Nat.cast) := by
  rw [h.map_bucket_entries, missing_eq_filter_not, ← List.map_append]
  exact (List.filter_append_perm _ _).map _

theorem WellFormed.length_entries (h : t.WellFormed) : t.entries.length = t.found := by
  rw [entries, List.length_filterMap_eq_countP, h.found_eq]
  rfl

theorem WellFormed.found_eq_count (h : t.WellFormed) :
    t.found = (List.range t.phaseCount).countP fun b => (t.entry? b).isSome := by
  have hlength := congrArg List.length h.map_bucket_entries
  rw [List.length_map, List.length_map] at hlength
  rw [← h.length_entries, hlength, List.countP_eq_length_filter]

/-- Every bucket is found or missing. -/
theorem WellFormed.found_add_missing (h : t.WellFormed) : t.found + t.missing.length = t.phaseCount := by
  have hlength := h.perm_range.length_eq
  simp only [List.length_append, List.length_map, List.length_range] at hlength
  rw [← h.length_entries, hlength]

theorem mem_missing {b : Nat} : b ∈ t.missing ↔ b < t.phaseCount ∧ t.entry? b = none := by
  simp [missing]

theorem pairwise_missing (t : Table M A E) : t.missing.Pairwise (· < ·) :=
  List.pairwise_lt_range.filter _

theorem WellFormed.complete_iff_forall (h : t.WellFormed) :
    t.complete = true ↔ ∀ b < t.phaseCount, t.entry? b ≠ none := by
  have hall : t.found = t.phaseCount ↔ ∀ b ∈ List.range t.phaseCount, (t.entry? b).isSome = true := by
    rw [h.found_eq_count, ← List.countP_eq_length, List.length_range]
  rw [complete, decide_eq_true_iff, hall]
  simp only [List.mem_range, Option.isSome_iff_ne_none]

theorem WellFormed.complete_iff (h : t.WellFormed) : t.complete = true ↔ t.missing = [] := by
  rw [h.complete_iff_forall, List.eq_nil_iff_forall_not_mem]
  simp [mem_missing]

theorem WellFormed.complete_run [GateAlgebra M] [Angle A] [Residual E] (h : t.WellFormed) {calls : List (Call M A E)}
    (hcalls : ∀ x ∈ calls, x.Fits t.points) (hcomplete : t.complete = true) : (t.run calls).complete = true := by
  have hcount : (t.run calls).phaseCount = t.phaseCount := by rw [phaseCount, points_run, phaseCount]
  rw [(h.run hcalls).complete_iff_forall, hcount]
  intro b hb
  exact h.entry?_run_ne_none hcalls (h.complete_iff_forall.1 hcomplete b hb)

theorem WellFormed.pairwise_bucket_entries (h : t.WellFormed) : (t.entries.map Entry.bucket).Pairwise (· < ·) := by
  rw [h.map_bucket_entries, List.pairwise_map]
  exact (List.pairwise_lt_range.filter _).imp Int.ofNat_lt.2

/-! ### Tables with given entries -/

variable [GateAlgebra M] [Angle A] [Residual E]

private theorem acceptAll_eq_ok {es : List (Entry M A E)} {t' : Table M A E} (h : t.acceptAll es = .ok t') :
    (∀ e ∈ es, (Call.accept e : Call M A E).Fits t.points) ∧ t' = t.run (es.map .accept) := by
  induction es generalizing t with
  | nil =>
    cases h
    exact ⟨by simp, rfl⟩
  | cons e es ih =>
    rw [acceptAll] at h
    split at h
    · cases h
    · rename_i hrange
      obtain ⟨hfits, rfl⟩ := ih h
      refine ⟨fun e' he' => ?_, rfl⟩
      rcases List.mem_cons.1 he' with rfl | he'
      · show 0 ≤ e'.bucket ∧ e'.bucket < (t.phaseCount : Nat)
        omega
      · have := hfits e' he'
        rwa [points_accept] at this

/-- A table is made of given entries if the number of slots is right and every entry names one of the buckets. -/
theorem ofEntries_eq_ok {points : Int} {es : List (Entry M A E)} (h : ofEntries points es = .ok t) :
    0 < points ∧ 8 ∣ points ∧ (∀ e ∈ es, (Call.accept e : Call M A E).Fits points.toNat) ∧
      t = (empty points.toNat).run (es.map .accept) := by
  unfold ofEntries at h
  cases hnew : (Table.new points : Except TableError (Table M A E)) with
  | error err => rw [hnew] at h; cases h
  | ok t₀ =>
    rw [hnew] at h
    obtain ⟨hpos, hmod, rfl⟩ := new_eq_ok hnew
    exact ⟨hpos, Int.dvd_of_tmod_eq_zero hmod, acceptAll_eq_ok h⟩

omit [GateAlgebra M] [Angle A] in
/-- A new table is one made of no entries. -/
theorem ofEntries_nil (points : Int) : (ofEntries points [] : Except TableError (Table M A E)) = Table.new points := by
  unfold ofEntries
  cases (Table.new points : Except TableError (Table M A E)) <;> rfl

/-- However a table is made, it is an empty one that has accepted entries. -/
theorem eq_run_of_made {points : Int} {es : List (Entry M A E)}
    (h : es = [] ∧ Table.new points = .ok t ∨ ofEntries points es = .ok t) :
    0 < points ∧ 8 ∣ points ∧ (∀ e ∈ es, (Call.accept e : Call M A E).Fits points.toNat) ∧
      t = (empty points.toNat).run (es.map .accept) := by
  rcases h with ⟨rfl, hnew⟩ | h
  · exact ofEntries_eq_ok ((ofEntries_nil points).trans hnew)
  · exact ofEntries_eq_ok h

omit [GateAlgebra M] [Angle A] [Residual E] in
private theorem fits_of_mem_map_offer {cs : List (Candidate M A E)} {points : Nat} :
    ∀ x ∈ cs.map (Call.offer : Candidate M A E → Call M A E), x.Fits points := by
  intro x hx
  obtain ⟨c, -, rfl⟩ := List.mem_map.1 hx
  exact trivial

theorem points_foldl_offer (t : Table M A E) (cs : List (Candidate M A E)) : (cs.foldl offer t).points = t.points := by
  rw [← run_map_offer, points_run]

/-- A table stays well formed, however it is made and whatever is offered to it. -/
theorem wellFormed_of_made {points : Int} {es : List (Entry M A E)}
    (h : es = [] ∧ Table.new points = .ok t ∨ ofEntries points es = .ok t) (cs : List (Candidate M A E)) :
    (cs.foldl offer t).WellFormed := by
  obtain ⟨hpos, hdvd, hfits, rfl⟩ := eq_run_of_made h
  have hempty : (empty points.toNat : Table M A E).WellFormed := wellFormed_empty (by omega) (by omega)
  rw [← run_map_offer]
  refine (hempty.run fun x hx => ?_).run fits_of_mem_map_offer
  obtain ⟨e, he, rfl⟩ := List.mem_map.1 hx
  exact hfits e he

/-- A new table stays well formed whatever is offered to it. -/
theorem wellFormed_foldl_offer {points : Int} (hnew : Table.new points = .ok t) (cs : List (Candidate M A E)) :
    (cs.foldl offer t).WellFormed :=
  wellFormed_of_made (Or.inl ⟨rfl, hnew⟩) cs

/-- What a bucket of a new table holds after some offers is the entry of a candidate that was offered. -/
theorem exists_candidate_of_found {points : Int} (hnew : Table.new points = .ok t) {cs : List (Candidate M A E)}
    {b : Nat} {e : Entry M A E} (he : entry? (cs.foldl offer t) b = some e) :
    ∃ c ∈ cs, Angle.slot t.points c.phase % t.phaseCount = b ∧ t.entryOf c = e := by
  obtain ⟨hpos, hdvd, -, rfl⟩ := eq_run_of_made (Or.inl ⟨rfl, hnew⟩)
  have hempty : (empty points.toNat : Table M A E).WellFormed := wellFormed_empty (by omega) (by omega)
  rw [← run_map_offer] at he
  rcases hempty.entry?_run_cases fits_of_mem_map_offer he with hbefore | ⟨x, hx, hbucket, hentry⟩
  · rw [entry?_empty] at hbefore
    cases hbefore
  · obtain ⟨c, hc, rfl⟩ := List.mem_map.1 hx
    exact ⟨c, hc, hbucket, hentry⟩

/-- Whatever entries a table is made of and whatever candidates are offered to it then, its parts agree. -/
theorem parts_of_table_agree {points : Int} {es : List (Entry M A E)} {t₀ : Table M A E}
    (h₀ : es = [] ∧ Table.new points = .ok t₀ ∨ ofEntries points es = .ok t₀) (cs : List (Candidate M A E)) :
    let t := cs.foldl offer t₀
    t.points = points ∧ t.points = 8 * t.phaseCount ∧
    -- no index is out of range
    t.buckets.size = t.phaseCount ∧ (∀ e ∈ es, 0 ≤ e.bucket ∧ e.bucket < t.phaseCount) ∧
    (∀ c, 0 ≤ (t.entryOf c).bucket ∧ (t.entryOf c).bucket < t.phaseCount) ∧
    (∀ φ : A, Angle.slot t.points φ < t.points) ∧
    (∀ s < t.points, s % t.phaseCount < t.buckets.size ∧ s / t.phaseCount < 8) ∧
    -- found buckets, and the entries in them
    t.found = (List.range t.phaseCount).countP (fun b => (t.entry? b).isSome) ∧
    (∀ b e, t.entry? b = some e → e.bucket = b) ∧
    -- entries and missing buckets
    (∀ e, e ∈ t.entries ↔ ∃ b, t.entry? b = some e) ∧ (t.entries.map Entry.bucket).Pairwise (· < ·) ∧
    (∀ b, b ∈ t.missing ↔ b < t.phaseCount ∧ t.entry? b = none) ∧ t.missing.Pairwise (· < ·) ∧
    (t.entries.map Entry.bucket ++ t.missing.map Nat.cast).Perm ((List.range t.phaseCount).map Nat.cast) ∧
    -- counters
    t.candidates + es.length = t.found + t.replacements + t.rejected ∧
    -- an offer changes one bucket at most, and a found one stays found
    (∀ c (b : Nat), b ≠ (t.entryOf c).bucket → entry? (t.offer c) b = t.entry? b) ∧
    (∀ (ds : List (Candidate M A E)) b, t.entry? b ≠ none → entry? (ds.foldl offer t) b ≠ none) ∧
    (∀ ds : List (Candidate M A E), t.complete = true → (ds.foldl offer t).complete = true) ∧
    (t.complete = true ↔ t.missing = []) := by
  intro t
  obtain ⟨hpos, hdvd, hes, rfl⟩ := eq_run_of_made h₀
  have hempty : (empty points.toNat : Table M A E).WellFormed := wellFormed_empty (by omega) (by omega)
  have hcalls : ∀ x ∈ es.map Call.accept ++ cs.map Call.offer, x.Fits points.toNat := by
    intro x hx
    rcases List.mem_append.1 hx with hx | hx
    · obtain ⟨e, he, rfl⟩ := List.mem_map.1 hx
      exact hes e he
    · exact fits_of_mem_map_offer x hx
  have ht : t = (empty points.toNat).run (es.map Call.accept ++ cs.map Call.offer) := by
    rw [run_append, run_map_offer]
  have hwf : t.WellFormed := by
    rw [ht]
    exact hempty.run hcalls
  have hpoints : t.points = points.toNat := by
    rw [ht, points_run]
    rfl
  have hcount : t.candidates + es.length = t.found + t.replacements + t.rejected := by
    have houtcomes := outcomes_run hempty hcalls
    rw [← ht, List.length_append, List.length_map, List.length_map] at houtcomes
    have hoffered : t.candidates = cs.length := by
      rw [ht, run_append, candidates_run_offer, candidates_run_accept]
      exact Nat.zero_add _
    rw [houtcomes, hoffered]
    show cs.length + es.length = 0 + 0 + 0 + (es.length + cs.length)
    omega
  have hpc := hwf.phaseCount_pos
  have height := hwf.points_eq
  have hes' : ∀ e ∈ es, 0 ≤ e.bucket ∧ e.bucket < t.phaseCount := by
    intro e he
    rw [phaseCount, hpoints]
    exact hes e he
  have hentryOf (c : Candidate M A E) : 0 ≤ (t.entryOf c).bucket ∧ (t.entryOf c).bucket < t.phaseCount := by
    have := Nat.mod_lt (Angle.slot t.points c.phase) hpc
    rw [bucket_entryOf]
    unfold phaseCount at this ⊢
    omega
  have hslot (s : Nat) (hs : s < t.points) : s % t.phaseCount < t.buckets.size ∧ s / t.phaseCount < 8 := by
    rw [hwf.size_buckets]
    exact ⟨Nat.mod_lt s hpc, (Nat.div_lt_iff_lt_mul hpc).2 (by omega)⟩
  have hchange (c : Candidate M A E) (b : Nat) (hb : b ≠ (t.entryOf c).bucket) :
      entry? (t.offer c) b = t.entry? b := by
    have hne : b ≠ (Call.offer c : Call M A E).bucket t.points := by
      rintro rfl
      exact hb (Call.bucket_entry t (x := .offer c) trivial).symm
    rcases entry?_apply (hwf.bucket_lt (x := .offer c) trivial) with ⟨-, hstored⟩ | ⟨-, hkept⟩
    · exact (hstored b).trans (if_neg hne)
    · exact hkept b
  refine ⟨by omega, hwf.points_eq, hwf.size_buckets, hes', hentryOf, fun φ => Nat.mod_lt _ (by omega), hslot,
    hwf.found_eq_count, hwf.bucket_eq, fun e => mem_entries_iff_exists, hwf.pairwise_bucket_entries,
    fun b => mem_missing, t.pairwise_missing, hwf.perm_range, hcount, hchange, fun ds b hb => ?_, fun ds hds => ?_,
    hwf.complete_iff⟩
  · rw [← run_map_offer]
    exact hwf.entry?_run_ne_none fits_of_mem_map_offer hb
  · rw [← run_map_offer]
    exact hwf.complete_run fits_of_mem_map_offer hds

theorem parts_of_table_agree_doubles :
    let e : DoubleEntry := ⟨1, 0, [], 1, 0.5⟩
    ∃ t₀ : DoubleTable, ofEntries 16 [e] = .ok t₀ ∧ ∀ cs : List DoubleCandidate,
      let t := cs.foldl offer t₀
      t.candidates + 1 = t.found + t.replacements + t.rejected ∧ (t.complete = true ↔ t.missing = []) := by
  intro e
  have hmade : ofEntries 16 [e] = .ok ((empty 16).accept e) := rfl
  refine ⟨_, hmade, fun cs => ?_⟩
  obtain ⟨-, -, -, -, -, -, -, -, -, -, -, -, -, -, hcount, -, -, -, hcomplete⟩ :=
    parts_of_table_agree (Or.inr hmade) cs
  exact ⟨hcount, hcomplete⟩

end CliffordT.Table
