import CliffordT.Proofs.ExpandedWords

/-!
# Filling the circle

The words of the whole circle can be written bucket by bucket, and for each bucket sector by sector, into a list that
holds no word at first (`Table.writes`).  The word of bucket `b` for sector `k` goes to slot `b + k * phaseCount`, and
division with remainder finds `b` and `k` again, so no two of these words go to the same slot (`nodup_writes`).  A
slot is written if its bucket is found (`mem_slots_writes`), and it is written with its own word
(`word_of_mem_writes`); hence the list becomes the expansion of the table (`expand_eq_foldl_writes`).

Under every interpretation of the gates, the word of a slot is worth the word of its bucket followed by as many
eighths of a turn as its sector says (`product_sectorWord`).
-/

namespace CliffordT

universe u

/-! ### Writing into a list -/

section

variable {α : Type} (f : Nat → α)

/-- Values written at some places of a list, one after the other. -/
def written (as : List α) (is : List Nat) : List α := is.foldl (fun as i => as.set i (f i)) as

@[simp] theorem length_written (as : List α) (is : List Nat) : (written f as is).length = as.length := by
  induction is generalizing as with
  | nil => rfl
  | cons i is ih => exact (ih _).trans List.length_set

theorem getElem?_written {as : List α} {is : List Nat} {j : Nat} (hj : j < as.length) :
    (written f as is)[j]? = if j ∈ is then some (f j) else as[j]? := by
  induction is generalizing as with
  | nil => rw [if_neg (List.not_mem_nil)]; rfl
  | cons i is ih =>
    have hrest : (written f as (i :: is))[j]? = _ := ih (show j < (as.set i (f i)).length by rwa [List.length_set])
    rw [hrest, List.getElem?_set]
    by_cases hmem : j ∈ is
    · rw [if_pos hmem, if_pos (List.mem_cons_of_mem i hmem)]
    · by_cases hi : i = j
      · rw [if_neg hmem, if_pos hi, if_pos (by rwa [hi]), if_pos (by rw [hi]; exact List.mem_cons_self), hi]
      · rw [if_neg hmem, if_neg hi, if_neg]
        exact List.not_mem_cons_of_ne_of_not_mem (Ne.symm hi) hmem

theorem length_foldl_set (ws : List (Nat × α)) (as : List α) :
    (ws.foldl (fun as x => as.set x.1 x.2) as).length = as.length := by
  induction ws generalizing as with
  | nil => rfl
  | cons x ws ih => exact (ih _).trans List.length_set

theorem foldl_set_eq_written {ws : List (Nat × α)} (h : ∀ x ∈ ws, x.2 = f x.1) (as : List α) :
    ws.foldl (fun as x => as.set x.1 x.2) as = written f as (ws.map Prod.fst) := by
  induction ws generalizing as with
  | nil => rfl
  | cons x ws ih =>
    have hx := h x (by simp)
    simp only [List.foldl_cons, List.map_cons, hx]
    exact ih (fun y hy => h y (by simp [hy])) _

end

namespace Table

variable {M A E : Type}

/-! ### Slots and sectors -/

section

variable {t : Table M A E} {b k : Nat}

theorem WellFormed.slot_lt (h : t.WellFormed) (hb : b < t.phaseCount) (hk : k < 8) :
    b + k * t.phaseCount < t.points := by
  have hpoints := h.points_eq
  have hsector : k * t.phaseCount ≤ 7 * t.phaseCount := Nat.mul_le_mul_right _ (by omega)
  omega

theorem slot_mod (hb : b < t.phaseCount) : (b + k * t.phaseCount) % t.phaseCount = b := by
  rw [Nat.add_mul_mod_self_right, Nat.mod_eq_of_lt hb]

theorem slot_div (hb : b < t.phaseCount) : (b + k * t.phaseCount) / t.phaseCount = k := by
  rw [Nat.add_mul_div_right _ _ (by omega), Nat.div_eq_of_lt hb, Nat.zero_add]

/-- Every slot is that of one bucket and one sector. -/
theorem WellFormed.sector_lt (h : t.WellFormed) {s : Nat} (hs : s < t.points) :
    s % t.phaseCount < t.phaseCount ∧ s / t.phaseCount < 8 ∧
      s = s % t.phaseCount + s / t.phaseCount * t.phaseCount := by
  have hpos := h.phaseCount_pos
  have hpoints := h.points_eq
  refine ⟨Nat.mod_lt s hpos, Nat.div_lt_of_lt_mul (by omega), ?_⟩
  rw [Nat.mul_comm]
  exact (Nat.mod_add_div s t.phaseCount).symm

end

/-! ### The words that are written -/

/-- The word that is made from the word of a bucket for sector `k`. -/
def sectorWord (w : Word) (k : Nat) : Word := if k = 0 then w else Word.fold (w ++ Word.phaseRun k)

/-- The slots of a bucket with the words that are written to them, if the bucket is found. -/
def writesOf (t : Table M A E) (b : Nat) : List (Nat × Word) :=
  (t.entry? b).toList.flatMap fun e =>
    (List.range 8).map fun k => ((b + k * t.phaseCount) % t.points, sectorWord e.gates k)

/-- All words that are written, bucket by bucket. -/
def writes (t : Table M A E) : List (Nat × Word) := (List.range t.phaseCount).flatMap t.writesOf

variable {t : Table M A E}

theorem mem_writesOf {b : Nat} {x : Nat × Word} : x ∈ t.writesOf b ↔ ∃ e, t.entry? b = some e ∧
    ∃ k < 8, ((b + k * t.phaseCount) % t.points, sectorWord e.gates k) = x := by
  simp [writesOf]

theorem slotWord_slot {b k : Nat} {e : Entry M A E} (hb : b < t.phaseCount) (he : t.entry? b = some e) :
    t.slotWord (b + k * t.phaseCount) = sectorWord e.gates k := by
  rw [slotWord_of_found (by rw [slot_mod hb, he]), slot_div hb]
  rfl

/-- What a bucket writes to a slot is the word of that slot. -/
theorem WellFormed.of_mem_writesOf (h : t.WellFormed) {b : Nat} (hb : b < t.phaseCount) {x : Nat × Word}
    (hx : x ∈ t.writesOf b) : x.1 < t.points ∧ x.1 % t.phaseCount = b ∧ x.2 = t.slotWord x.1 := by
  obtain ⟨e, he, k, hk, rfl⟩ := mem_writesOf.1 hx
  have hslot : (b + k * t.phaseCount) % t.points = b + k * t.phaseCount := Nat.mod_eq_of_lt (h.slot_lt hb hk)
  simp only [hslot]
  exact ⟨h.slot_lt hb hk, slot_mod hb, (slotWord_slot hb he).symm⟩

theorem WellFormed.word_of_mem_writes (h : t.WellFormed) {x : Nat × Word} (hx : x ∈ t.writes) :
    x.2 = t.slotWord x.1 := by
  obtain ⟨b, hb, hx⟩ := List.mem_flatMap.1 hx
  exact (h.of_mem_writesOf (List.mem_range.1 hb) hx).2.2

theorem WellFormed.mem_slots_writes (h : t.WellFormed) {s : Nat} :
    s ∈ t.writes.map Prod.fst ↔ s < t.points ∧ (t.entry? (s % t.phaseCount)).isSome = true := by
  simp only [List.mem_map, writes, List.mem_flatMap, List.mem_range]
  constructor
  · rintro ⟨x, ⟨b, hb, hx⟩, rfl⟩
    obtain ⟨hlt, hmod, -⟩ := h.of_mem_writesOf hb hx
    obtain ⟨e, he, -⟩ := mem_writesOf.1 hx
    rw [hmod, he]
    exact ⟨hlt, rfl⟩
  · rintro ⟨hs, hfound⟩
    obtain ⟨e, he⟩ := Option.isSome_iff_exists.1 hfound
    obtain ⟨hb, hk, hslot⟩ := h.sector_lt hs
    refine ⟨_, ⟨_, hb, mem_writesOf.2 ⟨e, he, _, hk, rfl⟩⟩, ?_⟩
    rw [← hslot]
    exact Nat.mod_eq_of_lt hs

/-- No slot is written twice. -/
theorem WellFormed.nodup_writes (h : t.WellFormed) : (t.writes.map Prod.fst).Nodup := by
  rw [writes, List.map_flatMap, List.nodup_flatMap]
  constructor
  · intro b hb
    rw [List.mem_range] at hb
    cases he : t.entry? b with
    | none => simp [writesOf, he]
    | some e =>
      have hslots : (t.writesOf b).map Prod.fst = (List.range 8).map (b + · * t.phaseCount) := by
        simp only [writesOf, he, Option.toList_some, List.flatMap_singleton, List.map_map]
        refine List.map_congr_left fun k hk => ?_
        exact Nat.mod_eq_of_lt (h.slot_lt hb (List.mem_range.1 hk))
      rw [hslots]
      refine List.nodup_range.map fun k k' hsame => ?_
      have hdiv := congrArg (· / t.phaseCount) hsame
      simpa only [slot_div hb] using hdiv
  · refine List.nodup_range.imp_of_mem fun {b b'} hb hb' hne => ?_
    -- the remainder of a slot tells the bucket that it was written from
    intro s hs hs'
    obtain ⟨x, hx, rfl⟩ := List.mem_map.1 hs
    obtain ⟨x', hx', hsame⟩ := List.mem_map.1 hs'
    have hmod := (h.of_mem_writesOf (List.mem_range.1 hb) hx).2.1
    have hmod' := (h.of_mem_writesOf (List.mem_range.1 hb') hx').2.1
    rw [hsame, hmod] at hmod'
    exact hne hmod'

theorem WellFormed.expand_eq_foldl_writes (h : t.WellFormed) :
    t.expand = t.writes.foldl (fun full x => full.set x.1 x.2) (List.replicate t.points notFound) := by
  rw [foldl_set_eq_written t.slotWord fun x hx => h.word_of_mem_writes hx]
  apply List.ext_getElem?
  intro s
  by_cases hs : s < t.points
  · rw [getElem?_expand hs, getElem?_written _ (by simpa using hs)]
    simp only [h.mem_slots_writes, hs, true_and]
    cases he : t.entry? (s % t.phaseCount) with
    | none => simp [slotWord, he, hs]
    | some e => simp
  · have hlength : t.expand.length = t.points := by simp [expand]
    rw [List.getElem?_eq_none (by omega), List.getElem?_eq_none (by simp; omega)]

/-! ### What the words are worth -/

theorem product_sectorWord {G : Type u} [Monoid G] (ρ : Word.Interpretation G) (w : Word) (k : Nat) :
    ρ.product (sectorWord w k) = ρ.product w * ρ.turn ^ k := by
  unfold sectorWord
  split
  · rename_i hk
    rw [hk, pow_zero, mul_one]
  · rw [ρ.product_fold, ρ.product_append, ρ.product_phaseRun]

variable [GateAlgebra M] [Angle A] [Residual E]

/-- However a table is made and whatever is offered to it, expanding it writes each slot of a found bucket once and no
other slot, and each slot comes from the bucket and the sector that it lies in: a slot of a missing bucket is not found,
and the word of any other one is worth that of its bucket followed by the eighths of its sector. -/
theorem expand_derives_each_slot_once {points : Int} {es : List (Entry M A E)} {t₀ : Table M A E}
    (h₀ : es = [] ∧ Table.new points = .ok t₀ ∨ ofEntries points es = .ok t₀) (cs : List (Candidate M A E)) :
    let t := cs.foldl offer t₀
    t.expand.length = t.points ∧
    t.expand = t.writes.foldl (fun full x => full.set x.1 x.2) (List.replicate t.points notFound) ∧
    (t.writes.map Prod.fst).Nodup ∧
    (∀ s, s ∈ t.writes.map Prod.fst ↔ s < t.points ∧ (t.entry? (s % t.phaseCount)).isSome = true) ∧
    ∀ s < t.points, ∃ b k : Nat,
      t.correctionOf s = ((b : Int), (k : Int)) ∧ b < t.phaseCount ∧ k < 8 ∧ s = b + k * t.phaseCount ∧
      (∀ b' k', b' < t.phaseCount → k' < 8 → (b' + k' * t.phaseCount) % t.points = s → b' = b ∧ k' = k) ∧
      (t.entry? b = none → t.expand[s]? = some notFound) ∧
      ∀ e, t.entry? b = some e → ∃ w, t.expand[s]? = some w ∧
        ∀ (G : Type u) [Monoid G] (ρ : Word.Interpretation G), ρ.product w = ρ.product e.gates * ρ.turn ^ k := by
  intro t
  have hwf : t.WellFormed := wellFormed_of_made h₀ cs
  refine ⟨by simp [expand], hwf.expand_eq_foldl_writes, hwf.nodup_writes, fun s => hwf.mem_slots_writes, ?_⟩
  intro s hs
  obtain ⟨hb, hk, hslot⟩ := hwf.sector_lt hs
  refine ⟨s % t.phaseCount, s / t.phaseCount, t.correctionOf_natCast s, hb, hk, hslot, ?_, ?_, ?_⟩
  · intro b' k' hb' hk' hsame
    rw [Nat.mod_eq_of_lt (hwf.slot_lt hb' hk')] at hsame
    rw [← hsame, slot_mod hb', slot_div hb']
    exact ⟨rfl, rfl⟩
  · intro hmissing
    rw [getElem?_expand hs, slotWord, hmissing]
  · intro e he
    refine ⟨_, getElem?_expand hs, fun G _ ρ => ?_⟩
    rw [slotWord_of_found he]
    exact product_sectorWord ρ e.gates _

/-- Bucket 1 of two is found with the word `HTHT`, and slot 7 lies in its sector 3. -/
theorem expand_derives_each_slot_once_two_buckets :
    let t : DoubleTable := (empty 16).accept ⟨1, 0.4, Word.ofText "HTHT", 1, 0⟩
    ofEntries 16 [⟨1, 0.4, Word.ofText "HTHT", 1, 0⟩] = .ok t ∧
    t.writes.map Prod.fst = [1, 3, 5, 7, 9, 11, 13, 15] ∧ (t.writes.map Prod.fst).Nodup ∧
    t.expand[6]? = some notFound ∧ t.expand[7]? = some (Word.ofText "HTHZ") ∧
    ∀ (G : Type u) [Monoid G] (ρ : Word.Interpretation G),
      ρ.product (Word.ofText "HTHZ") = ρ.product (Word.ofText "HTHT") * ρ.turn ^ 3 := by
  intro t
  have hmade : ofEntries 16 [⟨1, 0.4, Word.ofText "HTHT", 1, 0⟩] = .ok t := rfl
  obtain ⟨-, -, hnodup, -, hslots⟩ := expand_derives_each_slot_once (Or.inr hmade) []
  have hword : t.expand[7]? = some (Word.ofText "HTHZ") := by decide +kernel
  have hmissing : t.expand[6]? = some notFound := by
    obtain ⟨b, k, hcorrection, -, -, -, -, hmissing, -⟩ := hslots 6 (by decide +kernel)
    have hb : ((0 : Int), (3 : Int)) = ((b : Int), (k : Int)) := by
      rw [← hcorrection]
      decide +kernel
    simp only [Prod.mk.injEq] at hb
    obtain rfl : b = 0 := by omega
    exact hmissing rfl
  refine ⟨hmade, by decide +kernel, hnodup, hmissing, hword, fun G _ ρ => ?_⟩
  obtain ⟨b, k, hcorrection, -, -, -, -, -, hfound⟩ := hslots 7 (by decide +kernel)
  have hb : ((1 : Int), (3 : Int)) = ((b : Int), (k : Int)) := by
    rw [← hcorrection]
    decide +kernel
  simp only [Prod.mk.injEq] at hb
  obtain rfl : b = 1 := by omega
  obtain rfl : k = 3 := by omega
  obtain ⟨w, hw, hproduct⟩ := hfound _ rfl
  obtain rfl : Word.ofText "HTHZ" = w := Option.some.inj (hword.symm.trans hw)
  exact hproduct G ρ

end Table

end CliffordT
