import CliffordT.Artifact.Store
import CliffordT.Proofs.CheckedSearch
import CliffordT.Proofs.SlotWrites

/-!
# Tables with every index checked

What is done with a table during a run, with every access checked: a candidate is offered, the table is expanded slot
by slot into a list of words, the slots are verified, and the diagnostic record is filled bucket by bucket.  On a
well-formed table no check fails.  A candidate's slot lies on the circle, so its sector is one of eight and its bucket
is there (`Checked.takes_tableOffer`); the eight slots of a bucket are on the circle, and no other bucket writes to them
(`Checked.expand_eq`); and an entry stands in the bucket that it names (`Checked.record_eq`).
-/

namespace CliffordT.Checked

/-! ### Offering -/

section

variable {M A E : Type} [GateAlgebra M] [Angle A]

/-- The bucket entry that a candidate makes. -/
def entryOf (t : Table M A E) (c : Candidate M A E) : Option (Entry M A E) := do
  let points ← divisor t.points
  let count ← divisor t.phaseCount
  let slot := Angle.nearest t.points (Angle.normalize c.phase) % points
  let bucket := slot % count
  let sector := slot / count
  if sector = 0 then return ⟨bucket, c.phase, c.gates, c.matrix, c.error⟩
  else
    -- the remainder has the sign of the difference, so a sector beyond the eighth would give a negative index
    let k ← index 8 (Int.tmod (8 - sector) 8)
    return ⟨bucket, Angle.advance c.phase k, Word.fold (c.gates ++ Word.phaseRun k), correction k * c.matrix, c.error⟩

/-- Keep an entry if its bucket is empty or holds a worse one. -/
def accept [Residual E] (t : Table M A E) (e : Entry M A E) : Option (Table M A E) := do
  let _ ← index t.buckets.size e.bucket
  return t.accept e

/-- Offer a candidate to a table. -/
def tableOffer [Residual E] (t : Table M A E) (c : Candidate M A E) : Option (Table M A E) := do
  let e ← entryOf t c
  accept { t with candidates := t.candidates + 1 } e

theorem entryOf_eq {t : Table M A E} (h : t.WellFormed) (c : Candidate M A E) : entryOf t c = some (t.entryOf c) := by
  have hpos := h.phaseCount_pos
  have hpoints := h.points_eq
  have hslot : Angle.nearest t.points (Angle.normalize c.phase) % t.points < t.points := Nat.mod_lt _ (by omega)
  simp only [entryOf, divisor_of_pos hpos, divisor_of_pos (show 0 < t.points by omega), Option.bind_eq_bind,
    Option.bind_some]
  unfold Table.entryOf Angle.slot
  dsimp only
  generalize Angle.nearest t.points (Angle.normalize c.phase) % t.points = slot at hslot
  by_cases hsector : slot / t.phaseCount = 0
  · rw [if_pos hsector, if_pos hsector]
    rfl
  · have height : slot / t.phaseCount < 8 := Nat.div_lt_of_lt_mul (by omega)
    have hindex : index 8 (Int.tmod (8 - (slot / t.phaseCount : Nat)) 8) = some ((8 - slot / t.phaseCount) % 8) := by
      generalize slot / t.phaseCount = sector at height
      have htmod : Int.tmod (8 - (sector : Int)) 8 = ((8 - sector) % 8 : Nat) := by
        rw [Int.tmod_eq_emod_of_nonneg (by omega)]
        omega
      rw [htmod, index_of_lt (Nat.mod_lt _ (by omega))]
    rw [if_neg hsector, if_neg hsector, hindex]
    rfl

theorem tableOffer_eq [Residual E] {t : Table M A E} (h : t.WellFormed) (c : Candidate M A E) :
    tableOffer t c = some (t.offer c) := by
  have hbucket : (t.entryOf c).bucket = (Angle.slot t.points c.phase % t.phaseCount : Nat) := Table.bucket_entryOf t c
  have hindex : index t.buckets.size (t.entryOf c).bucket = some (Angle.slot t.points c.phase % t.phaseCount) := by
    rw [hbucket, h.size_buckets, index_of_lt (Nat.mod_lt _ h.phaseCount_pos)]
  simp only [tableOffer, entryOf_eq h, accept, hindex, Option.bind_eq_bind, Option.bind_some]
  rfl

/-- Offering to well-formed tables. -/
theorem takes_tableOffer [Residual E] {ε : Type} {x : Search.Setup M A E (Table M A E) ε} (hx : x.sink = Table.sink) :
    Takes x tableOffer Table.WellFormed := by
  intro t c h
  rw [hx]
  exact ⟨tableOffer_eq h c, h.apply (x := .offer c) trivial⟩

end

/-! ### Writing into a list -/

/-- Write one element of a list. -/
def put {α : Type} (as : List α) (i : Int) (a : α) : Option (List α) := do
  let i ← index as.length i
  return as.set i a

theorem put_of_lt {α : Type} {as : List α} {i : Nat} (h : i < as.length) (a : α) : put as i a = some (as.set i a) := by
  rw [put, index_of_lt h]
  rfl

/-- Elements that are written one by one, where each is written as the list requires it. -/
theorem foldlM_eq_foldl_set {α β : Type} {write : List α → β → Option (List α)} (place : β → Nat) (value : β → α)
    {n : Nat} {bs : List β}
    (hwrite : ∀ as, as.length = n → ∀ b ∈ bs, write as b = some (as.set (place b) (value b))) {as : List α}
    (h : as.length = n) :
    bs.foldlM write as = some ((bs.map fun b => (place b, value b)).foldl (fun as x => as.set x.1 x.2) as) := by
  induction bs generalizing as with
  | nil => rfl
  | cons b bs ih =>
    rw [List.foldlM_cons, hwrite as h b List.mem_cons_self, Option.bind_eq_bind, Option.bind_some]
    exact ih (fun as has b hb => hwrite as has b (List.mem_cons_of_mem _ hb)) (List.length_set.trans h)

/-! ### Expanding -/

section

variable {M A E : Type}

/-- Write the word of the slot in sector `k` that is made from an entry. -/
def writeSlot (t : Table M A E) (b : Nat) (e : Entry M A E) (full : List Word) (k : Nat) : Option (List Word) := do
  let points ← divisor t.points
  let i ← index 8 k
  put full ((b + k * t.phaseCount) % points : Nat) (Word.fold (e.gates ++ Word.phaseRun i))

/-- Write the words that are made from a bucket. -/
def writeBucket (t : Table M A E) (full : List Word) (b : Nat) : Option (List Word) :=
  match t.entry? b with
  | none => some full
  | some e => do
    let full ← put full b e.gates
    (List.range' 1 7).foldlM (writeSlot t b e) full

/-- The words of all slots, bucket by bucket. -/
def expand (t : Table M A E) : Option (List Word) :=
  (List.range t.buckets.size).foldlM (writeBucket t) (List.replicate t.points Table.notFound)

variable {t : Table M A E} {b : Nat}

theorem writeSlot_eq (h : t.WellFormed) (hb : b < t.phaseCount) (e : Entry M A E) {full : List Word}
    (hfull : full.length = t.points) {k : Nat} (hk : k ∈ List.range' 1 7) :
    writeSlot t b e full k =
      some (full.set ((b + k * t.phaseCount) % t.points) (Table.sectorWord e.gates k)) := by
  rw [List.mem_range'_1] at hk
  have hslot := h.slot_lt hb (show k < 8 by omega)
  have hword : Table.sectorWord e.gates k = Word.fold (e.gates ++ Word.phaseRun k) := if_neg (by omega)
  simp only [writeSlot, divisor_of_pos (show 0 < t.points by omega), index_of_lt (show k < 8 by omega),
    Option.bind_eq_bind, Option.bind_some]
  rw [Nat.mod_eq_of_lt hslot, put_of_lt (by omega), hword]

theorem writeBucket_eq (h : t.WellFormed) (hb : b < t.phaseCount) {full : List Word} (hfull : full.length = t.points) :
    writeBucket t full b = some ((t.writesOf b).foldl (fun full x => full.set x.1 x.2) full) := by
  cases he : t.entry? b with
  | none => simp [writeBucket, Table.writesOf, he]
  | some e =>
    have hslot := h.slot_lt hb (show 0 < 8 by omega)
    have hsectors := foldlM_eq_foldl_set (fun k => (b + k * t.phaseCount) % t.points) (Table.sectorWord e.gates)
      (fun as has k hk => writeSlot_eq h hb e has hk) ((List.length_set (i := b) (a := e.gates)).trans hfull)
    have hfirst : (b + 0 * t.phaseCount) % t.points = b := by
      rw [Nat.mod_eq_of_lt hslot]
      omega
    simp only [writeBucket, he, put_of_lt (show b < full.length by omega), Option.bind_eq_bind, Option.bind_some]
    rw [hsectors, Table.writesOf, he, Option.toList_some, List.flatMap_singleton,
      show List.range 8 = 0 :: List.range' 1 7 from rfl, List.map_cons, List.foldl_cons, hfirst]
    rfl

/-- The expansion indexes nothing out of range. -/
theorem expand_eq (h : t.WellFormed) : expand t = some t.expand := by
  have hbuckets : ∀ (bs : List Nat) (full : List Word), (∀ b ∈ bs, b < t.phaseCount) → full.length = t.points →
      bs.foldlM (writeBucket t) full =
        some ((bs.flatMap t.writesOf).foldl (fun full x => full.set x.1 x.2) full) := by
    intro bs
    induction bs with
    | nil => intro full _ _; rfl
    | cons b bs ih =>
      intro full hbs hfull
      rw [List.foldlM_cons, writeBucket_eq h (hbs b (by simp)) hfull, Option.bind_eq_bind, Option.bind_some,
        ih _ (fun b hb => hbs b (by simp [hb])) ((length_foldl_set _ _).trans hfull), List.flatMap_cons,
        List.foldl_append]
  rw [expand, h.size_buckets, hbuckets _ _ (fun b hb => List.mem_range.1 hb) List.length_replicate,
    h.expand_eq_foldl_writes]
  rfl

end

/-! ### Verifying and recording -/

section

variable {M A E : Type} [GateAlgebra M] [Angle A] [Zero E]

/-- Check the words of all slots. -/
def expanded (c : Verify.Check M A E) (t : Table M A E) (full : List Word) : Option (Verify.Report A E) := do
  let found ← full.zipIdx.mapM fun (gates, s) => do
    let count ← divisor t.phaseCount
    let _ ← index t.buckets.size (s % count : Nat)
    return Verify.checkSlot c t s gates
  return ⟨full.length, found.filterMap id⟩

theorem expanded_eq {t : Table M A E} (h : t.WellFormed) (c : Verify.Check M A E) (full : List Word) :
    expanded c t full = some (Verify.expanded c t full) := by
  have hindex (s : Nat) : index t.buckets.size (s % t.phaseCount : Nat) = some (s % t.phaseCount) := by
    rw [h.size_buckets, index_of_lt (Nat.mod_lt _ h.phaseCount_pos)]
  have hslots : (full.zipIdx.mapM fun (x : Word × Nat) => (do
      let count ← divisor t.phaseCount
      let _ ← index t.buckets.size (x.2 % count : Nat)
      return Verify.checkSlot c t x.2 x.1 : Option (Option (Verify.Mismatch A E)))) =
      some (full.zipIdx.map fun x => Verify.checkSlot c t x.2 x.1) := by
    simp only [divisor_of_pos h.phaseCount_pos, hindex, Option.bind_eq_bind, Option.bind_some]
    exact List.mapM_pure
  unfold expanded Verify.expanded
  rw [Option.bind_eq_bind, hslots, Option.bind_some, List.filterMap_map]
  rfl

end

/-- The diagnostic record of a table, bucket by bucket. -/
def record (t : DoubleTable) : Option Diagnostics :=
  t.entries.foldlM (fun (record : Diagnostics) e => put record e.bucket (some (Diagnostic.ofEntry e)))
    (List.replicate t.phaseCount none)

/-- The record indexes nothing out of range. -/
theorem record_eq {t : DoubleTable} (h : t.WellFormed) : record t = some (Diagnostics.ofTable t) := by
  -- an entry names the bucket in which it stands
  have hplace : ∀ e ∈ t.entries, ∃ b < t.phaseCount, e.bucket = b ∧ t.entry? b = some e := by
    intro e he
    obtain ⟨b, hb⟩ := Table.mem_entries_iff_exists.1 he
    refine ⟨b, ?_, h.bucket_eq b e hb, hb⟩
    rw [← h.size_buckets]
    by_contra hout
    rw [ Table.entry?, Array.getElem?_eq_none (Nat.le_of_not_lt hout)] at hb
    cases hb
  have hwrite : record t = some (written (fun b => (t.entry? b).map Diagnostic.ofEntry)
      (List.replicate t.phaseCount none) (t.entries.map fun e => e.bucket.toNat)) := by
    have hput : ∀ record : Diagnostics, record.length = t.phaseCount → ∀ e ∈ t.entries,
        put record e.bucket (some (Diagnostic.ofEntry e)) =
          some (record.set e.bucket.toNat (some (Diagnostic.ofEntry e))) := by
      intro record hrecord e he
      obtain ⟨b, hb, hbucket, -⟩ := hplace e he
      rw [hbucket, put_of_lt (by omega), Int.toNat_natCast]
    rw [record, foldlM_eq_foldl_set _ _ hput List.length_replicate,
      foldl_set_eq_written fun b => (t.entry? b).map Diagnostic.ofEntry, List.map_map]
    · rfl
    · intro x hx
      obtain ⟨e, he, rfl⟩ := List.mem_map.1 hx
      obtain ⟨b, -, hbucket, hentry⟩ := hplace e he
      simp only [hbucket, Int.toNat_natCast, hentry, Option.map_some]
  rw [hwrite]
  congr 1
  apply List.ext_getElem?
  intro j
  have hlength : (Diagnostics.ofTable t).length = t.phaseCount := by
    rw [Diagnostics.ofTable, List.length_map, Array.length_toList, h.size_buckets]
  by_cases hj : j < t.phaseCount
  · have hcell : (Diagnostics.ofTable t)[j]? = some ((t.entry? j).map Diagnostic.ofEntry) := by
      have hsize : j < t.buckets.toList.length := by rwa [Array.length_toList, h.size_buckets]
      rw [Diagnostics.ofTable, List.getElem?_map, List.getElem?_eq_getElem hsize, Table.getElem_toList_buckets hsize]
      rfl
    rw [getElem?_written _ (by rwa [List.length_replicate]), hcell]
    split
    · rfl
    · rename_i hnot
      have hnone : t.entry? j = none := by
        by_contra hsome
        obtain ⟨e, he⟩ := Option.ne_none_iff_exists'.1 hsome
        refine hnot (List.mem_map.2 ⟨e, Table.mem_entries_iff_exists.2 ⟨j, he⟩, ?_⟩)
        rw [h.bucket_eq j e he, Int.toNat_natCast]
      rw [List.getElem?_replicate, if_pos hj, hnone]
      rfl
  · rw [List.getElem?_eq_none (by rw [length_written, List.length_replicate]; omega),
      List.getElem?_eq_none (by omega)]

end CliffordT.Checked
