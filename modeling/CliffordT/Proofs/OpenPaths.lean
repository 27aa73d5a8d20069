import CliffordT.Proofs.PathNames
import CliffordT.Proofs.WrittenFiles

/-!
# Paths to which a file can be written

Nothing is in the way to the place of a path (`Files.Clear`) if the path does not go up, neither it nor any of its names
is too long, and no file stands where a directory has to be.  Then the directories on the way can be made
(`exists_makeAlong`) and the path leads to its place (`Clear.exists_made`).  Nothing was in the way of a path that leads
somewhere (`clear_of_find`).  If moreover no directory stands at the place itself (`Files.Admits`), then a text can be put
there (`Artifact.exists_place`).
-/

namespace CliffordT.Files

open CliffordT.Path (plain)

variable {fs fs' : Files} {here : Place} {path : RawText} {names : List RawText}

/-! ### Paths that do not go up -/

private theorem foldl_enter (h : (".." : RawText) ∉ names) (here : Place) : names.foldl enter here = here ++ names := by
  induction names generalizing here with
  | nil => rw [List.foldl_nil, List.append_nil]
  | cons name names ih =>
    obtain ⟨hup, hrest⟩ := not_or.1 fun hmem => h (List.mem_cons.2 hmem)
    rw [List.foldl_cons, enter, if_neg (Ne.symm hup), ih hrest, List.append_assoc]
    rfl

private theorem foldl_onward (h : (".." : RawText) ∉ names) (here : Place) :
    names.foldl onward here = here ++ plain names := by
  rw [← foldl_enter_filter]
  exact foldl_enter (fun hmem => h (Path.plain_subset names hmem)) here

/-- The place of a path that does not go up. -/
theorem placeOf_eq (h : (".." : RawText) ∉ Path.names path) :
    fs.placeOf path = fs.origin path ++ plain (Path.names path) :=
  foldl_onward h _

private theorem onWay_iff {p : Place} (h : (".." : RawText) ∉ Path.names path) :
    fs.OnWay path p ↔ ∃ ns, ns <+: plain (Path.names path) ∧ fs.origin path ++ ns = p := by
  have hfirst {ns : List RawText} (hns : ns <+: Path.names path) :
      ns.foldl onward (fs.origin path) = fs.origin path ++ plain ns :=
    foldl_onward (fun hmem => h (hns.subset hmem)) _
  constructor
  · rintro ⟨ns, hns, rfl⟩
    exact ⟨plain ns, hns.filter _, (hfirst hns).symm⟩
  · rintro ⟨ns, hns, rfl⟩
    obtain ⟨names, hnames, rfl⟩ := List.prefix_filter_iff.1 hns
    exact ⟨names, hnames, hfirst hnames⟩

/-! ### Making the directories -/

private theorem ofText?_eq_none (hzero : (0 : UInt8) ∉ path.bytes) (hsome : 0 < path.size)
    (hsize : path.size ≤ maxPathBytes) :
    FileFault.ofText? path = none := by
  have hempty : path.isEmpty = false := by
    rw [RawText.isEmpty, List.isEmpty_eq_false_iff, ← List.length_pos_iff]
    exact hsome
  rw [FileFault.ofText?, if_neg (by simpa using hzero), if_neg (by simp [hempty]), if_neg (Nat.not_lt.2 hsize)]

private theorem bounded_of_ofText? (h : FileFault.ofText? path = none) :
    (0 : UInt8) ∉ path.bytes ∧ path.size ≤ maxPathBytes := by
  unfold FileFault.ofText? at h
  split at h
  · cases h
  · rename_i hzero
    split at h
    · cases h
    · split at h
      · cases h
      · rename_i hsize
        exact ⟨by simpa using hzero, Nat.not_lt.1 hsize⟩

/-- Names along which directories can be made: none of them is too long, and all of them together are not. -/
structure Passable (text : RawText) (names : List RawText) : Prop where
  up : (".." : RawText) ∉ names
  zero : (0 : UInt8) ∉ text.bytes ∧ ∀ name ∈ names, (0 : UInt8) ∉ name.bytes
  short : ∀ name ∈ names, 0 < name.size ∧ name.size ≤ maxNameBytes
  size : text.size + (names.map fun name => name.size + 1).sum ≤ maxPathBytes + 1

private theorem bytes_append (s t : RawText) : (s ++ t).bytes = s.bytes ++ t.bytes := rfl

theorem size_append (s t : RawText) : (s ++ t).size = s.size + t.size := List.length_append

private theorem length_le_sum_size (names : List RawText) :
    names.length ≤ (names.map fun name => name.size + 1).sum := by
  induction names with
  | nil => exact Nat.le_refl 0
  | cons name names ih =>
    rw [List.length_cons, List.map_cons, List.sum_cons]
    omega

/-- The text of the path behind the first name can be followed by the others. -/
theorem Passable.next {text name : RawText} (h : Passable text (name :: names)) {text' : RawText}
    (htext : text' = text ++ name ++ (if names.isEmpty then "" else "/")) :
    FileFault.ofText? text' = none ∧ Passable text' names := by
  obtain ⟨⟨hpos, -⟩, hshort⟩ := List.forall_mem_cons.1 h.short
  obtain ⟨hname, hnames⟩ := List.forall_mem_cons.1 h.zero.2
  have hsize := h.size
  rw [List.map_cons, List.sum_cons] at hsize
  -- the slash counts only if a name follows
  obtain ⟨hzero, hle⟩ : (0 : UInt8) ∉ text'.bytes ∧ text'.size = text.size + name.size + min 1 names.length := by
    have hempty : ("" : RawText).bytes = [] := by decide +kernel
    have hslash : ("/" : RawText).bytes = [47] := by decide +kernel
    rw [htext, bytes_append, bytes_append, size_append, size_append]
    cases names with
    | nil => simp [h.zero.1, hname, hempty, RawText.size]
    | cons name' names =>
      refine ⟨by simp [h.zero.1, hname, hslash], ?_⟩
      simp only [List.isEmpty_cons, Bool.false_eq_true, if_false, List.length_cons]
      rw [show ("/" : RawText).size = 1 from congrArg List.length hslash]
      omega
  have hrest : names.length ≤ (names.map fun name => name.size + 1).sum := length_le_sum_size names
  refine ⟨ofText?_eq_none hzero (by omega) (by omega), fun hmem => h.up (List.mem_cons_of_mem _ hmem), ⟨hzero, hnames⟩,
    hshort, by omega⟩

/-- Directories can be made if no file stands on the way. -/
theorem exists_makeAlong {text : RawText} (h : Passable text names)
    (hfree : ∀ ns s, ns <+: names → fs.node? (here ++ ns) ≠ some (.file s)) :
    ∃ fs', fs.makeAlong here text names = .ok fs' ∧
      ∀ ns, ns <+: names → ns ≠ [] → fs'.node? (here ++ ns) = some .directory := by
  induction names generalizing fs here text with
  | nil => exact ⟨fs, rfl, fun ns hns hne => absurd (List.prefix_nil.1 hns) hne⟩
  | cons name rest ih =>
    obtain ⟨htext, hrest⟩ := h.next rfl
    have hup : name ≠ ".." := fun hname => h.up (hname ▸ List.mem_cons_self)
    have hshort : ¬ maxNameBytes < name.size := Nat.not_lt.2 (h.short name List.mem_cons_self).2
    -- the first directory is there, or it is made; either way the others follow
    have hnext (fs₁ : Files) (hfirst : fs₁.node? (here ++ [name]) = some .directory)
        (hfree₁ : ∀ ns s, ns <+: rest → fs₁.node? (here ++ [name] ++ ns) ≠ some (.file s)) :
        ∃ fs', fs₁.makeAlong (here ++ [name]) (text ++ name ++ (if rest.isEmpty then "" else "/")) rest = .ok fs' ∧
          ∀ ns, ns <+: name :: rest → ns ≠ [] → fs'.node? (here ++ ns) = some .directory := by
      obtain ⟨fs', hmake, hdirs⟩ := ih hrest hfree₁
      refine ⟨fs', hmake, fun ns hns hne => ?_⟩
      obtain ⟨first, ms, rfl⟩ := List.exists_cons_of_ne_nil hne
      obtain ⟨rfl, hms⟩ := List.cons_prefix_cons.1 hns
      by_cases hnil : ms = []
      · subst hnil
        have hkept := extends_makeAlong fs₁ (here ++ [first]) (text ++ first ++ (if rest.isEmpty then "" else "/")) rest
        rw [hmake] at hkept
        exact hkept.keeps hfirst
      · rw [← hdirs ms hms hnil, List.append_assoc]
        rfl
    have hbehind (ns : List RawText) (s : String) (hns : ns <+: rest) :
        fs.node? (here ++ [name] ++ ns) ≠ some (.file s) := by
      rw [List.append_assoc]
      exact hfree (name :: ns) s ((List.prefix_cons_inj name).2 hns)
    rw [makeAlong, if_neg hup, htext]
    cases hnode : fs.node? (here ++ [name]) with
    | some n =>
      cases n with
      | directory => exact hnext fs hnode hbehind
      | file s => exact absurd hnode (hfree [name] s ((List.prefix_cons_inj name).2 List.nil_prefix))
    | none =>
      dsimp only
      rw [if_neg hshort]
      refine hnext _ ?_ fun ns s hns => ?_
      · rw [node?_insert (by simp [hnode]), if_pos rfl]
      · rw [node?_insert (by simp [hnode])]
        split
        · simp
        · exact hbehind ns s hns

/-! ### Following the path -/

/-- A path whose last name is a plain one leads there if all places before it are directories. -/
private theorem follow_of_directories_above {last : RawText} (hup : (".." : RawText) ∉ names)
    (hshort : ∀ name ∈ names, name.size ≤ maxNameBytes)
    (hlast : last ≠ "" ∧ last ≠ "." ∧ last ≠ ".." ∧ last.size ≤ maxNameBytes)
    (hdirs : ∀ ns, ns <+: plain names → ns ≠ [] → fs.node? (here ++ ns) = some .directory) :
    fs.follow here (names ++ [last]) =
      .ok (here ++ plain names ++ [last], fs.node? (here ++ plain names ++ [last])) := by
  induction names generalizing here with
  | nil =>
    obtain ⟨hempty, hdot, hdots, hsize⟩ := hlast
    have hplain : here ++ plain [] = here := List.append_nil here
    rw [hplain, List.nil_append, follow, if_neg (not_or.2 ⟨hempty, hdot⟩), if_neg hdots, if_neg (Nat.not_lt.2 hsize)]
    dsimp only
    cases hnode : fs.node? (here ++ [last]) with
    | none => rfl
    | some n => cases n <;> rfl
  | cons name rest ih =>
    obtain ⟨hname, hrest⟩ := not_or.1 fun hmem => hup (List.mem_cons.2 hmem)
    obtain ⟨hsize, hshort⟩ := List.forall_mem_cons.1 hshort
    rw [List.cons_append, follow]
    by_cases hskip : name = "" ∨ name = "."
    · have hplain := Path.plain_cons_of_skip hskip rest
      rw [hplain] at hdirs ⊢
      rw [if_pos hskip]
      exact ih hrest hshort hdirs
    · have hplain := Path.plain_cons_of_not_skip hskip rest
      have hassoc (ns : List RawText) : here ++ name :: ns = here ++ [name] ++ ns := by rw [List.append_assoc]; rfl
      rw [hplain] at hdirs
      rw [hplain, hassoc (plain rest), if_neg hskip, if_neg (Ne.symm hname), if_neg (Nat.not_lt.2 hsize)]
      dsimp only
      rw [hdirs [name] ((List.prefix_cons_inj name).2 List.nil_prefix) (by simp)]
      refine ih hrest hshort fun ns hns _ => ?_
      rw [← hassoc]
      exact hdirs (name :: ns) ((List.prefix_cons_inj name).2 hns) (by simp)

/-! ### The way to a place -/

/-- Nothing is in the way to the place that a path names. -/
structure Clear (fs : Files) (path : RawText) : Prop where
  zero : (0 : UInt8) ∉ path.bytes
  size : path.size ≤ maxPathBytes
  up : (".." : RawText) ∉ Path.names path
  short : ∀ name ∈ Path.names path, name.size ≤ maxNameBytes
  last : (Path.names path).getLast? ≠ some ("" : RawText) ∧ (Path.names path).getLast? ≠ some ("." : RawText)
  above (p : Place) (text : String) : fs.OnWay (Path.directory path) p → fs.node? p ≠ some (.file text)

/-- Nothing is in the way of a file at a path. -/
structure Admits (fs : Files) (path : RawText) : Prop extends fs.Clear path where
  free : fs.node? (fs.placeOf path) ≠ some .directory

private theorem up_directory (h : (".." : RawText) ∉ Path.names path) :
    (".." : RawText) ∉ Path.names (Path.directory path) := by
  intro hmem
  have hplain : (".." : RawText) ∈ plain (Path.names (Path.directory path)) :=
    List.mem_filter.2 ⟨hmem, by decide +kernel⟩
  rw [(Path.plain_names_directory h).1] at hplain
  exact h (List.dropLast_subset _ (Path.plain_subset _ hplain))

/-- The places on the way to the directory of a path are those that its plain names but the last lead to. -/
private theorem onWay_directory_iff {p : Place} (h : (".." : RawText) ∉ Path.names path) :
    fs.OnWay (Path.directory path) p ↔ ∃ ns, ns <+: plain (Path.names path).dropLast ∧ fs.origin path ++ ns = p := by
  obtain ⟨hplain, hrooted⟩ := Path.plain_names_directory h
  have horigin : fs.origin (Path.directory path) = fs.origin path := by rw [origin, origin, hrooted]
  rw [onWay_iff (up_directory h), hplain, horigin]

private theorem placeOf_concat {ns : List RawText} {last : RawText} (h : (".." : RawText) ∉ Path.names path)
    (hnames : Path.names path = ns ++ [last]) (hlast : ¬ (last = "" ∨ last = ".")) :
    fs.placeOf path = fs.origin path ++ plain ns ++ [last] := by
  have happend : plain (ns ++ [last]) = plain ns ++ plain [last] := List.filter_append ..
  rw [placeOf_eq h, hnames, happend, Path.plain_cons_of_not_skip hlast, List.append_assoc]
  rfl

namespace Clear

private theorem size_pos (h : fs.Clear path) : 0 < path.size := by
  refine Nat.pos_of_ne_zero fun hsize => h.last.1 ?_
  rw [Path.eq_empty_of_size hsize]
  decide +kernel

/-- The directories on the way are not too many for a path. -/
private theorem passable (h : fs.Clear path) :
    Passable (if Path.isRooted path then "/" else "") (plain (Path.names path).dropLast) := by
  have hsub : plain (Path.names path).dropLast ⊆ Path.names path :=
    fun name hname => List.dropLast_subset _ (Path.plain_subset _ hname)
  refine ⟨fun hmem => h.up (hsub hmem), ⟨?_, fun name hname hmem => h.zero ?_⟩, fun name hname => ⟨?_, ?_⟩, ?_⟩
  · split <;> decide +kernel
  · exact Path.mem_bytes_of_mem_names (hsub hname) hmem
  · exact Nat.pos_of_ne_zero fun hsize => Path.empty_not_mem_plain _ (Path.eq_empty_of_size hsize ▸ hname)
  · exact h.short name (hsub hname)
  · exact Nat.le_trans (Path.size_directories_le path) (Nat.add_le_add_right h.size 1)

/-- The directories on the way can be made, and then the path leads to its place. -/
theorem exists_made (h : fs.Clear path) :
    ∃ fs₁, fs.makeDirectories (Path.directory path) = .ok fs₁ ∧
      fs₁.find path = .ok (fs.placeOf path, fs.node? (fs.placeOf path)) := by
  obtain ⟨hplain, hrooted⟩ := Path.plain_names_directory h.up
  have hfree (ns : List RawText) (s : String) (hns : ns <+: plain (Path.names path).dropLast) :
      fs.node? (fs.origin path ++ ns) ≠ some (.file s) :=
    h.above _ s ((onWay_directory_iff h.up).2 ⟨ns, hns, rfl⟩)
  obtain ⟨fs₁, hmake, hdirs⟩ := exists_makeAlong h.passable hfree
  have hmake : fs.makeDirectories (Path.directory path) = .ok fs₁ := by
    unfold makeDirectories
    rw [origin, hrooted]
    rw [← hplain] at hmake
    exact hmake
  have hextends := extends_of_makeDirectories hmake
  obtain ⟨ns, last, hnames⟩ := Path.exists_names_concat path
  obtain ⟨hempty, hdot⟩ := h.last
  have hup := h.up
  rw [hnames, List.getLast?_concat, Ne, Option.some.injEq] at hempty hdot
  rw [hnames, List.mem_append, List.mem_singleton, not_or] at hup
  have hplace : fs.placeOf path = fs.origin path ++ plain ns ++ [last] :=
    placeOf_concat h.up hnames (not_or.2 ⟨hempty, hdot⟩)
  have hshort : ∀ name ∈ ns ++ [last], name.size ≤ maxNameBytes := hnames ▸ h.short
  have hsame : fs₁.node? (fs.placeOf path) = fs.node? (fs.placeOf path) := by
    rcases hextends.node (fs.placeOf path) with hsame | ⟨hway, -⟩
    · exact hsame
    · -- the places on the way have fewer names
      obtain ⟨ms, hms, heq⟩ := (onWay_directory_iff h.up).1 hway
      rw [hnames, List.dropLast_concat] at hms
      have hle := hms.length_le
      have hlength := congrArg List.length (heq.trans hplace)
      simp only [List.length_append, List.length_singleton] at hlength
      omega
  refine ⟨fs₁, hmake, find_of_follow (ofText?_eq_none h.zero h.size_pos h.size) ?_⟩
  rw [hnames, List.dropLast_concat] at hdirs
  rw [← hsame, origin_congr hextends.start_eq, hnames, hplace]
  exact follow_of_directories_above hup.1 (fun name hname => hshort name (List.mem_append_left _ hname))
    ⟨hempty, hdot, Ne.symm hup.2, hshort last (by simp)⟩ hdirs

end Clear

/-! ### Where a path leads -/

/-- What a way has passed: names that are not too long, and directories before the last place. -/
private theorem directories_of_follow {q : Place} {n? : Option FileNode} (hup : (".." : RawText) ∉ names)
    (h : fs.follow here names = .ok (q, n?)) :
    (∀ name ∈ names, name.size ≤ maxNameBytes) ∧
      ∀ ns, ns <+: plain names → ns ≠ [] → ns ≠ plain names → fs.node? (here ++ ns) = some .directory := by
  induction names generalizing here with
  | nil => exact ⟨by simp, fun ns hns hne => absurd (List.prefix_nil.1 hns) hne⟩
  | cons name rest ih =>
    obtain ⟨hname, hrest⟩ := not_or.1 fun hmem => hup (List.mem_cons.2 hmem)
    rw [follow] at h
    by_cases hskip : name = "" ∨ name = "."
    · have hsize : name.size ≤ maxNameBytes := by
        rcases hskip with rfl | rfl <;> decide +kernel
      rw [if_pos hskip] at h
      rw [Path.plain_cons_of_skip hskip]
      obtain ⟨hshort, hdirs⟩ := ih hrest h
      exact ⟨List.forall_mem_cons.2 ⟨hsize, hshort⟩, hdirs⟩
    · rw [if_neg hskip, if_neg (Ne.symm hname)] at h
      rw [Path.plain_cons_of_not_skip hskip]
      split at h
      · cases h
      · rename_i hlong
        dsimp only at h
        split at h
        · rename_i hdir
          obtain ⟨hshort, hdirs⟩ := ih hrest h
          refine ⟨List.forall_mem_cons.2 ⟨Nat.not_lt.1 hlong, hshort⟩, fun ns hns hne hall => ?_⟩
          obtain ⟨first, ms, rfl⟩ := List.exists_cons_of_ne_nil hne
          obtain ⟨rfl, hms⟩ := List.cons_prefix_cons.1 hns
          by_cases hnil : ms = []
          · rw [hnil]
            exact hdir
          · rw [← hdirs ms hms hnil fun hsame => hall (by rw [hsame]), List.append_assoc]
            rfl
        all_goals
          -- the way ends at the first place that is no directory
          split at h <;> cases h
          rename_i hend
          obtain rfl := List.isEmpty_iff.1 hend
          refine ⟨by simpa using Nat.not_lt.1 hlong, fun ns hns hne hall => ?_⟩
          obtain ⟨first, ms, rfl⟩ := List.exists_cons_of_ne_nil hne
          obtain ⟨rfl, hms⟩ := List.cons_prefix_cons.1 hns
          exact absurd (by rw [List.prefix_nil.1 hms]; rfl) hall

/-- A way that ends beside a directory ends with a plain name. -/
private theorem last_of_follow {q : Place} {n? : Option FileNode} (h : fs.follow here names = .ok (q, n?))
    (hn : n? ≠ some .directory) :
    names.getLast? ≠ some ("" : RawText) ∧ names.getLast? ≠ some ("." : RawText) := by
  induction names generalizing here with
  | nil =>
    cases h
    exact absurd rfl hn
  | cons name rest ih =>
    have hlater {next : Place} (h : fs.follow next rest = .ok (q, n?)) :
        (name :: rest).getLast? ≠ some ("" : RawText) ∧ (name :: rest).getLast? ≠ some ("." : RawText) := by
      cases rest with
      | nil =>
        cases h
        exact absurd rfl hn
      | cons second rest =>
        rw [List.getLast?_cons_cons]
        exact ih h
    rw [follow] at h
    split at h
    · exact hlater h
    · rename_i hskip
      split at h
      · exact hlater h
      · split at h
        · cases h
        · dsimp only at h
          split at h
          · exact hlater h
          all_goals
            split at h <;> cases h
            rename_i hend
            obtain rfl := List.isEmpty_iff.1 hend
            simpa [not_or] using hskip

/-- Nothing was in the way of a path that leads somewhere. -/
theorem clear_of_find {q : Place} {n? : Option FileNode} (h : fs.find path = .ok (q, n?))
    (hup : (".." : RawText) ∉ Path.names path)
    (hlast : n? = some .directory →
      (Path.names path).getLast? ≠ some ("" : RawText) ∧ (Path.names path).getLast? ≠ some ("." : RawText)) :
    fs.Clear path := by
  obtain ⟨htext, hfollow⟩ := find_eq_ok h
  have hlast : (Path.names path).getLast? ≠ some ("" : RawText) ∧ (Path.names path).getLast? ≠ some ("." : RawText) := by
    by_cases hn : n? = some .directory
    · exact hlast hn
    · exact last_of_follow hfollow hn
  obtain ⟨hshort, hdirs⟩ := directories_of_follow hup hfollow
  obtain ⟨hzero, hsize⟩ := bounded_of_ofText? htext
  refine ⟨hzero, hsize, hup, hshort, hlast, fun p text hway hfile => ?_⟩
  obtain ⟨ns, hns, rfl⟩ := (onWay_directory_iff hup).1 hway
  have hdir : fs.node? (fs.origin path ++ ns) = some .directory := by
    by_cases hnil : ns = []
    · rw [hnil, List.append_nil]
      exact node?_origin fs path
    · obtain ⟨ms, last, hnames⟩ := Path.exists_names_concat path
      have happend : plain (ms ++ [last]) = plain ms ++ plain [last] := List.filter_append ..
      rw [hnames, List.getLast?_concat, Ne, Option.some.injEq, Ne, Option.some.injEq, ← not_or] at hlast
      rw [hnames, List.dropLast_concat] at hns
      rw [hnames, happend, Path.plain_cons_of_not_skip hlast] at hdirs
      refine hdirs ns (hns.trans (List.prefix_append ..)) hnil fun hsame => ?_
      have hlength := hns.length_le
      rw [hsame, List.length_append, List.length_cons] at hlength
      omega
  rw [hdir] at hfile
  cases hfile

/-- A path leads to its place, or a directory on the way is missing. -/
private theorem follow_of_clear {last : RawText} (hup : (".." : RawText) ∉ names)
    (hshort : ∀ name ∈ names, name.size ≤ maxNameBytes)
    (hlast : last ≠ "" ∧ last ≠ "." ∧ last ≠ ".." ∧ last.size ≤ maxNameBytes)
    (hfree : ∀ ns s, ns <+: plain names → ns ≠ [] → fs.node? (here ++ ns) ≠ some (.file s)) :
    (∃ x, fs.follow here (names ++ [last]) = .ok x) ∨ fs.follow here (names ++ [last]) = .error .notFound := by
  induction names generalizing here with
  | nil =>
    obtain ⟨hempty, hdot, hdots, hsize⟩ := hlast
    rw [List.nil_append, follow, if_neg (not_or.2 ⟨hempty, hdot⟩), if_neg hdots, if_neg (Nat.not_lt.2 hsize)]
    dsimp only
    cases fs.node? (here ++ [last]) with
    | none => exact Or.inl ⟨_, rfl⟩
    | some n => cases n <;> exact Or.inl ⟨_, rfl⟩
  | cons name rest ih =>
    obtain ⟨hname, hrest⟩ := not_or.1 fun hmem => hup (List.mem_cons.2 hmem)
    obtain ⟨hsize, hshort⟩ := List.forall_mem_cons.1 hshort
    rw [List.cons_append, follow]
    by_cases hskip : name = "" ∨ name = "."
    · rw [Path.plain_cons_of_skip hskip] at hfree
      rw [if_pos hskip]
      exact ih hrest hshort hfree
    · rw [Path.plain_cons_of_not_skip hskip] at hfree
      rw [if_neg hskip, if_neg (Ne.symm hname), if_neg (Nat.not_lt.2 hsize)]
      dsimp only
      cases hnode : fs.node? (here ++ [name]) with
      | none => exact Or.inr (if_neg (by simp))
      | some n =>
        cases n with
        | file s => exact absurd hnode (hfree [name] s ((List.prefix_cons_inj name).2 List.nil_prefix) (by simp))
        | directory =>
          refine ih hrest hshort fun ns s hns _ => ?_
          rw [List.append_assoc]
          exact hfree (name :: ns) s ((List.prefix_cons_inj name).2 hns) (by simp)

namespace Clear

theorem find_cases (h : fs.Clear path) :
    (∃ n?, fs.find path = .ok (fs.placeOf path, n?)) ∨ fs.find path = .error .notFound := by
  obtain ⟨ns, last, hnames⟩ := Path.exists_names_concat path
  obtain ⟨hempty, hdot⟩ := h.last
  have hup := h.up
  rw [hnames, List.getLast?_concat, Ne, Option.some.injEq] at hempty hdot
  rw [hnames, List.mem_append, List.mem_singleton, not_or] at hup
  have hshort : ∀ name ∈ ns ++ [last], name.size ≤ maxNameBytes := hnames ▸ h.short
  have hfree (ms : List RawText) (s : String) (hms : ms <+: plain ns) (_ : ms ≠ []) :
      fs.node? (fs.origin path ++ ms) ≠ some (.file s) :=
    h.above _ s ((onWay_directory_iff h.up).2 ⟨ms, by rw [hnames, List.dropLast_concat]; exact hms, rfl⟩)
  have hfollow := follow_of_clear hup.1 (fun name hname => hshort name (List.mem_append_left _ hname))
    ⟨hempty, hdot, Ne.symm hup.2, hshort last (by simp)⟩ hfree
  rw [← hnames] at hfollow
  have htext := ofText?_eq_none h.zero h.size_pos h.size
  rcases hfollow with ⟨⟨q, n?⟩, hok⟩ | hmissing
  · have hfind := find_of_follow htext hok
    exact Or.inl ⟨n?, eq_placeOf_of_find hfind ▸ hfind⟩
  · right
    unfold find
    rw [htext]
    exact hmissing

/-- What is not in the way later was not in the way before, as long as files stay files. -/
theorem of_files (h : fs'.Clear path) (hstart : fs'.start = fs.start)
    (hfiles : ∀ p, (∃ text, fs.node? p = some (.file text)) → ∃ text, fs'.node? p = some (.file text)) :
    fs.Clear path := by
  refine ⟨h.zero, h.size, h.up, h.short, h.last, fun p text hway hfile => ?_⟩
  obtain ⟨text', hfile'⟩ := hfiles p ⟨text, hfile⟩
  exact h.above p text' ((onWay_congr hstart).2 hway) hfile'

end Clear

/-! ### Writing -/

theorem exists_write {q : Place} {n? : Option FileNode} (h : fs.find path = .ok (q, n?))
    (hn : n? ≠ some .directory) (text : String) : ∃ fs', fs.write path text = .ok fs' := by
  unfold write
  rw [h]
  cases n? with
  | none => exact ⟨_, rfl⟩
  | some n =>
    cases n with
    | directory => exact absurd rfl hn
    | file s => exact ⟨_, rfl⟩

end CliffordT.Files

namespace CliffordT.Artifact

variable {fs : Files} {path : RawText}

/-- A text can be put where nothing is in the way. -/
theorem exists_place (h : fs.Admits path) (text : String) : ∃ fs', place fs path text = .ok fs' := by
  obtain ⟨fs₁, hmake, hfind⟩ := h.exists_made
  obtain ⟨fs', hwrite⟩ := Files.exists_write hfind h.free text
  refine ⟨fs', ?_⟩
  unfold place
  simp only [hmake, hwrite]

theorem exists_writeMetrics (h : fs.Admits path) (hbeside : besideBytes path ≤ maxNameBytes) (text : String) :
    ∃ fs', writeMetrics fs path text = .ok fs' := by
  obtain ⟨fs₁, hmake, hfind⟩ := h.exists_made
  obtain ⟨fs', hwrite⟩ := Files.exists_write hfind h.free text
  refine ⟨fs', ?_⟩
  unfold writeMetrics
  simp only [hmake, if_neg (Nat.not_lt.2 hbeside), hwrite]

end CliffordT.Artifact
