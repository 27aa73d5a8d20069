import Mathlib
import CliffordT.Files.Path

/-!
# Names of a path

A path is its names with slashes between them (`Path.names_intercalate`), and those that are neither empty nor a single
dot lead from a place to another (`Path.plain`).  The directory that holds the last name is named by another path, in its
shortest form.  For a path that does not go up, it has the same plain names but the last
(`Path.plain_names_directory`).
-/

namespace CliffordT.Path

variable {path : RawText} {ns : List RawText}

/-! ### Names between slashes -/

private theorem bytes_slash : ("/" : RawText).bytes = [47] := by decide +kernel

private theorem slash_not_mem_splitOn {bs : List UInt8} : ∀ l ∈ bs.splitOn 47, 47 ∉ l := by
  induction bs with
  | nil => simp [List.splitOn_nil]
  | cons b bs ih =>
    rw [List.splitOn_cons_eq_if_modifyHead]
    split
    · exact List.forall_mem_cons.2 ⟨by simp, ih⟩
    · rename_i hb
      cases hsplit : bs.splitOn 47 with
      | nil => simp
      | cons l ls =>
        rw [hsplit] at ih
        obtain ⟨hl, hls⟩ := List.forall_mem_cons.1 ih
        refine List.forall_mem_cons.2 ⟨fun hmem => ?_, hls⟩
        rcases List.mem_cons.1 hmem with rfl | hmem
        · exact hb (by simp)
        · exact hl hmem

private theorem slash_not_mem (h : ns ⊆ names path) : ∀ name ∈ ns, 47 ∉ name.bytes := by
  intro name hname
  obtain ⟨l, hl, rfl⟩ := List.mem_map.1 (h hname)
  exact slash_not_mem_splitOn l hl

private theorem names_empty : names "" = [("" : RawText)] := by decide +kernel

private theorem names_ne_nil (path : RawText) : names path ≠ [] := by
  simp [names, RawText.split]

theorem exists_names_concat (path : RawText) : ∃ ns last, names path = ns ++ [last] :=
  ⟨_, _, (List.dropLast_concat_getLast (names_ne_nil path)).symm⟩

private theorem intercalate_names (path : RawText) : RawText.intercalate "/" (names path) = path := by
  have hbytes : (names path).map RawText.bytes = path.bytes.splitOn 47 := by
    simp [names, RawText.split, Function.comp_def]
  rw [RawText.intercalate, hbytes, bytes_slash, List.intercalate_splitOn]

theorem names_intercalate (h : ∀ name ∈ ns, 47 ∉ name.bytes) (hne : ns ≠ []) :
    names (RawText.intercalate "/" ns) = ns := by
  have hsplit : (([47] : List UInt8).intercalate (ns.map RawText.bytes)).splitOn 47 = ns.map RawText.bytes :=
    List.splitOn_intercalate 47 (by simpa using h) (by simpa using hne)
  show (List.splitOn 47 (("/" : RawText).bytes.intercalate (ns.map RawText.bytes))).map RawText.mk = ns
  rw [bytes_slash, hsplit, List.map_map]
  exact List.map_id ns

private theorem names_slash_append (path : RawText) : names ("/" ++ path) = ("" : RawText) :: names path := by
  have hempty : ("" : RawText) = ⟨[]⟩ := by decide +kernel
  show (List.splitOn 47 (("/" : RawText).bytes ++ path.bytes)).map RawText.mk = _
  rw [bytes_slash, hempty, List.singleton_append, List.splitOn_cons_eq_if_modifyHead]
  rfl

theorem eq_empty_of_size {name : RawText} (h : name.size = 0) : name = "" := by
  obtain ⟨bytes⟩ := name
  obtain rfl := List.eq_nil_of_length_eq_zero h
  decide +kernel

private theorem size_intercalate (hne : ns ≠ []) :
    (RawText.intercalate "/" ns).size + 1 = (ns.map fun name => name.size + 1).sum := by
  show (("/" : RawText).bytes.intercalate (ns.map RawText.bytes)).length + 1 = _
  rw [bytes_slash]
  induction ns with
  | nil => exact absurd rfl hne
  | cons name ns ih =>
    cases ns with
    | nil => simp [RawText.size]
    | cons name' ns =>
      have := ih (by simp)
      rw [List.map_cons] at this
      rw [List.map_cons, List.map_cons, List.intercalate_cons_cons, List.map_cons, List.sum_cons, ← this, RawText.size,
        List.length_append, List.length_append, List.length_singleton]
      omega

theorem mem_bytes_of_mem_names {name : RawText} (h : name ∈ names path) {b : UInt8} (hb : b ∈ name.bytes) :
    b ∈ path.bytes := by
  have hmem : ∀ ns : List RawText, name ∈ ns → b ∈ ([47] : List UInt8).intercalate (ns.map RawText.bytes) := by
    intro ns
    induction ns with
    | nil => simp
    | cons first ns ih =>
      cases ns with
      | nil =>
        rintro hfirst
        rw [List.mem_singleton.1 hfirst] at hb
        simpa using hb
      | cons second ns =>
        intro hmem
        rw [List.map_cons, List.map_cons, List.intercalate_cons_cons, ← List.map_cons]
        rcases List.mem_cons.1 hmem with rfl | hmem
        · exact List.mem_append_left _ (List.mem_append_left _ hb)
        · exact List.mem_append_right _ (ih hmem)
  have hbytes := hmem _ h
  rw [← bytes_slash] at hbytes
  rw [← intercalate_names path]
  exact hbytes

private theorem isRooted_iff : isRooted path = true ↔ ∃ name rest, names path = ("" : RawText) :: name :: rest := by
  obtain ⟨bytes⟩ := path
  cases bytes with
  | nil => simp [isRooted, names, RawText.split]
  | cons b bs =>
    have hempty : ("" : RawText) = ⟨[]⟩ := by decide +kernel
    show decide (some b = some 47) = true ↔ ∃ name rest, (List.splitOn 47 (b :: bs)).map RawText.mk = _
    rw [decide_eq_true_iff, List.splitOn_cons_eq_if_modifyHead, hempty]
    cases hsplit : bs.splitOn 47 with
    | nil => exact absurd hsplit (List.splitOn_ne_nil 47 bs)
    | cons l ls =>
      by_cases hb : b = 47
      · simp [hb]
      · simp [hb]

/-! ### The shortest form -/

/-- The names that lead from a place to another. -/
def plain (ns : List RawText) : List RawText := ns.filter fun (name : RawText) => name ≠ "" ∧ name ≠ "."

theorem plain_subset (ns : List RawText) : plain ns ⊆ ns := fun _ h => (List.mem_filter.1 h).1

theorem empty_not_mem_plain (ns : List RawText) : ("" : RawText) ∉ plain ns := by simp [plain]

theorem plain_cons_of_skip {name : RawText} (h : name = "" ∨ name = ".") (ns : List RawText) :
    plain (name :: ns) = plain ns :=
  List.filter_cons_of_neg (by simpa [Decidable.or_iff_not_imp_left] using h)

theorem plain_cons_of_not_skip {name : RawText} (h : ¬ (name = "" ∨ name = ".")) (ns : List RawText) :
    plain (name :: ns) = name :: plain ns :=
  List.filter_cons_of_pos (by simpa [not_or] using h)

private theorem plain_plain (ns : List RawText) : plain (plain ns) = plain ns := by simp [plain]

private theorem cleanNames_eq (h : (".." : RawText) ∉ ns) (rooted : Bool) (done : List RawText) :
    cleanNames rooted done ns = (plain ns).reverse ++ done := by
  induction ns generalizing done with
  | nil => rfl
  | cons name ns ih =>
    obtain ⟨hup, hrest⟩ := not_or.1 fun hmem => h (List.mem_cons.2 hmem)
    rw [cleanNames.eq_def]
    dsimp only
    by_cases hskip : name = "" ∨ name = "."
    · rw [if_pos hskip, ih hrest, plain_cons_of_skip hskip]
    · rw [if_neg hskip, if_neg (Ne.symm hup), ih hrest, plain_cons_of_not_skip hskip, List.reverse_cons,
        List.append_assoc]
      rfl

private theorem sum_size_plain_le (ns : List RawText) :
    ((plain ns).map fun name => name.size + 1).sum ≤ (ns.map fun name => name.size + 1).sum := by
  induction ns with
  | nil => exact Nat.le_refl 0
  | cons name ns ih =>
    rw [List.map_cons, List.sum_cons]
    by_cases hskip : name = "" ∨ name = "."
    · rw [plain_cons_of_skip hskip]
      exact Nat.le_add_left_of_le ih
    · rw [plain_cons_of_not_skip hskip, List.map_cons, List.sum_cons]
      exact Nat.add_le_add_left ih _

private theorem plain_names_rooted {kept : List RawText} (hplain : plain kept = kept)
    (hslash : ∀ name ∈ kept, 47 ∉ name.bytes) :
    plain (names ("/" ++ RawText.intercalate "/" kept)) = kept ∧
      isRooted ("/" ++ RawText.intercalate "/" kept) = true := by
  rw [isRooted_iff, names_slash_append, plain_cons_of_skip (Or.inl rfl)]
  constructor
  · by_cases hne : kept = []
    · subst hne
      decide +kernel
    · rw [names_intercalate hslash hne, hplain]
  · obtain ⟨name, rest, hcons⟩ := List.exists_cons_of_ne_nil (names_ne_nil (RawText.intercalate "/" kept))
    exact ⟨name, rest, by rw [hcons]⟩

private theorem plain_names_unrooted {kept : List RawText} (hplain : plain kept = kept)
    (hslash : ∀ name ∈ kept, 47 ∉ name.bytes) (hne : kept ≠ []) :
    RawText.intercalate "/" kept ≠ "" ∧ plain (names (RawText.intercalate "/" kept)) = kept ∧
      isRooted (RawText.intercalate "/" kept) = false := by
  have hnot : ("" : RawText) ∉ kept := hplain ▸ empty_not_mem_plain _
  have hnames := names_intercalate hslash hne
  refine ⟨fun hnone => ?_, by rw [hnames, hplain], Bool.eq_false_iff.2 fun hroot => ?_⟩
  · rw [hnone, names_empty] at hnames
    exact hnot (hnames ▸ List.mem_singleton_self _)
  · -- a rooted path begins with the empty name
    obtain ⟨name, rest, hcons⟩ := isRooted_iff.1 hroot
    rw [hnames] at hcons
    exact hnot (hcons ▸ List.mem_cons_self)

/-- The shortest form of a path that does not go up has its plain names. -/
private theorem plain_names_clean (h : (".." : RawText) ∉ names path) :
    plain (names (clean path)) = plain (names path) ∧ isRooted (clean path) = isRooted path := by
  have hkept : (cleanNames (isRooted path) [] (names path)).reverse = plain (names path) := by
    rw [cleanNames_eq h, List.append_nil, List.reverse_reverse]
  have hslash : ∀ name ∈ plain (names path), 47 ∉ name.bytes := slash_not_mem (plain_subset _)
  have hplain := plain_plain (names path)
  unfold clean
  dsimp only
  rw [hkept]
  generalize plain (names path) = kept at hslash hplain ⊢
  cases isRooted path with
  | true =>
    rw [if_pos rfl]
    exact plain_names_rooted hplain hslash
  | false =>
    rw [if_neg (by simp)]
    by_cases hne : kept = []
    · subst hne
      refine ⟨?_, ?_⟩ <;> decide +kernel
    · obtain ⟨hsome, hnames⟩ := plain_names_unrooted hplain hslash hne
      rw [if_neg hsome]
      exact hnames

/-- The text in front of the last name, as it is before it is brought into its shortest form. -/
private theorem names_before_last {last : RawText} (hnames : names path = ns ++ [last]) {text : RawText}
    (htext : text = RawText.intercalate "/" ns) :
    plain (names (if text = "" ∧ isRooted path then "/" else text)) = plain ns ∧
      names (if text = "" ∧ isRooted path then "/" else text) ⊆ ("" : RawText) :: ns ∧
      isRooted (if text = "" ∧ isRooted path then "/" else text) = isRooted path := by
  have hstart (hne : ns ≠ []) : names text = ns :=
    htext ▸ names_intercalate (slash_not_mem (by rw [hnames]; exact List.subset_append_left ..)) hne
  have hslash : names "/" = [("" : RawText), ("" : RawText)] := by decide +kernel
  by_cases hne : ns = []
  · subst hne
    have hunrooted : isRooted path = false := by
      refine Bool.eq_false_iff.2 fun hroot => ?_
      obtain ⟨name, rest, hcons⟩ := isRooted_iff.1 hroot
      rw [hnames] at hcons
      cases hcons
    rw [hunrooted, if_neg (by simp), htext]
    decide +kernel
  · split
    · rename_i hroot
      have hns := hstart hne
      rw [hroot.1, names_empty] at hns
      rw [hslash, ← hns, hroot.2]
      decide +kernel
    · rename_i hroot
      rw [hstart hne]
      refine ⟨rfl, List.subset_cons_self .., Bool.eq_iff_iff.2 ?_⟩
      rw [isRooted_iff, isRooted_iff, hstart hne, hnames]
      constructor
      · rintro ⟨name, rest, rfl⟩
        exact ⟨name, rest ++ [last], rfl⟩
      · rintro ⟨name, rest, hcons⟩
        obtain ⟨first, ns, rfl⟩ := List.exists_cons_of_ne_nil hne
        obtain ⟨rfl, hrest⟩ := List.cons.inj hcons
        cases ns with
        | nil => exact absurd ⟨htext.trans (by decide +kernel), isRooted_iff.2 ⟨_, _, hnames⟩⟩ hroot
        | cons second ns => exact ⟨second, ns, rfl⟩

/-- The directory that holds the last name of a path that does not go up has the plain names before it. -/
theorem plain_names_directory (h : (".." : RawText) ∉ names path) :
    plain (names (directory path)) = plain (names path).dropLast ∧ isRooted (directory path) = isRooted path := by
  obtain ⟨ns, last, hnames⟩ := exists_names_concat path
  unfold directory
  rw [hnames, List.dropLast_concat]
  dsimp only
  obtain ⟨hplain, hsub, hrooted⟩ := names_before_last hnames rfl
  obtain ⟨hplain', hrooted'⟩ := plain_names_clean fun hmem => by
    rcases List.mem_cons.1 (hsub hmem) with hempty | hmem
    · exact absurd hempty (by decide +kernel)
    · exact h (by rw [hnames]; exact List.mem_append_left _ hmem)
  exact ⟨hplain'.trans hplain, hrooted'.trans hrooted⟩

/-- The directories on the way along a path are not longer than the path.  A slash in front stands for the empty name that
a rooted path begins with. -/
theorem size_directories_le (path : RawText) :
    (if isRooted path then ("/" : RawText) else "").size +
      ((plain (names path).dropLast).map fun name => name.size + 1).sum ≤ path.size + 1 := by
  have hall := size_intercalate (names_ne_nil path)
  rw [intercalate_names] at hall
  obtain ⟨ns, last, hnames⟩ := exists_names_concat path
  rw [hnames, List.map_append, List.sum_append] at hall
  rw [hnames, List.dropLast_concat]
  cases hroot : isRooted path with
  | false =>
    have hle := sum_size_plain_le ns
    have hempty : ("" : RawText).size = 0 := by decide +kernel
    rw [if_neg (by simp), hempty]
    omega
  | true =>
    obtain ⟨name, rest, hcons⟩ := isRooted_iff.1 hroot
    have hslash : ("/" : RawText).size = 1 := by decide +kernel
    rw [if_pos rfl, hslash]
    rw [hnames] at hcons
    cases ns with
    | nil => cases hcons
    | cons first ns =>
      obtain ⟨rfl, -⟩ := List.cons.inj hcons
      have hle := sum_size_plain_le ns
      rw [plain_cons_of_skip (Or.inl rfl)]
      rw [List.map_cons, List.sum_cons] at hall
      omega

end CliffordT.Path
