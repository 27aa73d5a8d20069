import CliffordT.Artifact.Store

/-!
# Files after a write

A path names a place whatever stands there (`Files.placeOf`), and a path that leads anywhere leads to the place that it
names.  Writing a text first makes the directories on the way to its place and then puts the file there.  Directories are
made only where nothing stands, whether or not all of them can be made (`extends_makeDirectories`), and a file never
takes the place of a directory, so beside new directories all that a write changes is what stands at one place
(`Writes`).  A path that led to a file before leads to the same place after it (`Writes.find`): it is read as it was,
unless that place is the one written to.
-/

namespace CliffordT.Files

variable {fs fs' fs₁ fs₂ : Files} {p q : Place} {path : RawText} {text : String}

/-! ### Nodes -/

private theorem lookup_map_set (nodes : List (Place × FileNode)) (p q : Place) (n : FileNode) :
    (nodes.map fun (a, m) => if a = q then (a, n) else (a, m)).lookup p =
      if p = q then (nodes.lookup p).map fun _ => n else nodes.lookup p := by
  induction nodes with
  | nil => simp
  | cons x nodes ih =>
    obtain ⟨a, m⟩ := x
    rw [List.map_cons, List.lookup_cons]
    by_cases hp : p = a
    · subst hp
      by_cases hq : p = q
      · simp [hq]
      · simp [hq]
    · have hne : (p == a) = false := beq_false_of_ne hp
      have hhead : (p == (if a = q then (a, n) else (a, m)).1) = false := by
        split <;> exact hne
      simp only [List.lookup_cons, hne, hhead, ih]

@[simp] theorem start_insert (fs : Files) (q : Place) (n : FileNode) : (fs.insert q n).start = fs.start := by
  unfold insert
  split <;> rfl

theorem lookup_insert (fs : Files) (p q : Place) (n : FileNode) :
    (fs.insert q n).nodes.lookup p = if p = q then some n else fs.nodes.lookup p := by
  unfold insert
  cases hq : fs.nodes.lookup q with
  | none =>
    rw [if_neg (by simp)]
    dsimp only
    rw [List.lookup_append]
    by_cases hp : p = q
    · subst hp
      simp [hq]
    · have hne : (p == q) = false := beq_false_of_ne hp
      simp [List.lookup_cons, hne, hp]
  | some m =>
    rw [if_pos (by simp)]
    refine (lookup_map_set fs.nodes p q n).trans ?_
    by_cases hp : p = q
    · subst hp
      simp [hq]
    · rw [if_neg hp, if_neg hp]

/-- A place that is no directory can be given a node, and then no other place changes. -/
theorem node?_insert (h : fs.node? q ≠ some .directory) (n : FileNode) (p : Place) :
    (fs.insert q n).node? p = if p = q then some n else fs.node? p := by
  have hfixed : ¬ (q = fs.start ∨ q = .root) := fun hq => h (if_pos hq)
  unfold node?
  rw [start_insert, lookup_insert]
  by_cases hp : p = q
  · subst hp
    rw [if_neg hfixed, if_pos rfl, if_pos rfl]
  · rw [if_neg hp, if_neg hp]

theorem node?_insert_of_ne (h : p ≠ q) (n : FileNode) : (fs.insert q n).node? p = fs.node? p := by
  unfold node?
  rw [start_insert, lookup_insert, if_neg h]

private theorem directory_insert {n : FileNode} (h : fs.node? q ≠ some .directory) (hp : fs.node? p = some .directory) :
    (fs.insert q n).node? p = some .directory := by
  rw [node?_insert_of_ne, hp]
  rintro rfl
  exact h hp

/-! ### The place that a path names -/

/-- Where a name leads that is not empty and no single dot. -/
def enter (here : Place) (name : RawText) : Place := if name = ".." then above here else here ++ [name]

/-- Where a name leads from a place. -/
def onward (here : Place) (name : RawText) : Place := if name = "" ∨ name = "." then here else enter here name

/-- The place that a path names. -/
def placeOf (fs : Files) (path : RawText) : Place := (Path.names path).foldl onward (fs.origin path)

/-- A place on the way along a path: the one that its first names lead to. -/
def OnWay (fs : Files) (path : RawText) (p : Place) : Prop :=
  ∃ names, names <+: Path.names path ∧ names.foldl onward (fs.origin path) = p

theorem origin_congr (h : fs'.start = fs.start) (path : RawText) : fs'.origin path = fs.origin path := by
  rw [origin, origin, h]

theorem node?_origin (fs : Files) (path : RawText) : fs.node? (fs.origin path) = some .directory := by
  unfold origin node?
  split
  · exact if_pos (Or.inr rfl)
  · exact if_pos (Or.inl rfl)

theorem placeOf_congr (h : fs'.start = fs.start) (path : RawText) : fs'.placeOf path = fs.placeOf path := by
  rw [placeOf, placeOf, origin_congr h]

theorem placeOf_of_isEmpty (h : path.isEmpty = true) : fs.placeOf path = fs.start := by
  obtain ⟨bytes⟩ := path
  obtain rfl : bytes = [] := List.isEmpty_iff.1 h
  have hempty : (⟨[]⟩ : RawText) = "" := by decide +kernel
  show onward fs.start ⟨[]⟩ = fs.start
  exact if_pos (Or.inl hempty)

theorem onWay_congr (h : fs'.start = fs.start) : fs'.OnWay path p ↔ fs.OnWay path p := by
  rw [OnWay, OnWay, origin_congr h]

theorem foldl_enter_filter (here : Place) (names : List RawText) :
    (names.filter fun (name : RawText) => name ≠ "" ∧ name ≠ ".").foldl enter here = names.foldl onward here := by
  induction names generalizing here with
  | nil => rfl
  | cons name names ih =>
    by_cases hskip : name = "" ∨ name = "."
    · rw [List.filter_cons_of_neg (by simpa [Decidable.or_iff_not_imp_left] using hskip), List.foldl_cons, onward,
        if_pos hskip, ih]
    · rw [List.filter_cons_of_pos (by simpa [not_or] using hskip), List.foldl_cons, List.foldl_cons, onward,
        if_neg hskip, ih]

/-! ### Making directories -/

/-- The second tree is the first one, perhaps with new directories at places of a kind. -/
structure Extends (news : Place → Prop) (fs fs' : Files) : Prop where
  start_eq : fs'.start = fs.start
  node (p : Place) : fs'.node? p = fs.node? p ∨ news p ∧ fs.node? p = none ∧ fs'.node? p = some .directory

section

variable {news news' : Place → Prop}

theorem Extends.refl (news : Place → Prop) (fs : Files) : Extends news fs fs := ⟨rfl, fun _ => Or.inl rfl⟩

theorem Extends.keeps (h : Extends news fs fs') {n : FileNode} (hp : fs.node? p = some n) : fs'.node? p = some n := by
  rcases h.node p with hsame | ⟨-, hnone, -⟩
  · rw [hsame, hp]
  · rw [hnone] at hp
    cases hp

theorem Extends.trans (h : Extends news fs fs₁) (h₁ : Extends news fs₁ fs₂) : Extends news fs fs₂ := by
  refine ⟨h₁.start_eq.trans h.start_eq, fun p => ?_⟩
  rcases h.node p with hsame | ⟨hp, hnone, hmade⟩
  · rw [← hsame]
    exact h₁.node p
  · exact Or.inr ⟨hp, hnone, h₁.keeps hmade⟩

theorem Extends.mono (h : Extends news fs fs') (hnews : ∀ p, news p → news' p) : Extends news' fs fs' :=
  ⟨h.start_eq, fun p => (h.node p).imp_right fun ⟨hp, hmade⟩ => ⟨hnews p hp, hmade⟩⟩

private theorem extends_insert (h : fs.node? q = none) (hq : news q) : Extends news fs (fs.insert q .directory) := by
  refine ⟨start_insert fs q _, fun p => ?_⟩
  rw [node?_insert (by simp [h])]
  by_cases hpq : p = q
  · subst hpq
    exact Or.inr ⟨hq, h, if_pos rfl⟩
  · exact Or.inl (if_neg hpq)

end

/-- The files that an attempt to make directories leaves. -/
def left : Except FileSetback Files → Files
  | .ok fs => fs
  | .error e => e.files

/-- Whether or not all directories can be made, nothing else changes. -/
theorem extends_makeAlong (fs : Files) (here : Place) (start : RawText) (names : List RawText) :
    Extends (fun p => ∃ ns, ns <+: names ∧ ns.foldl enter here = p) fs (left (fs.makeAlong here start names)) := by
  induction names generalizing fs here start with
  | nil => exact .refl _ fs
  | cons name rest ih =>
    -- the places behind the first one are those on the rest of the way
    have hrest (fs : Files) (start : RawText) :=
      (ih fs (enter here name) start).mono fun p ⟨ns, hns, hp⟩ =>
        (⟨name :: ns, (List.prefix_cons_inj name).2 hns, hp⟩ : ∃ ns, ns <+: name :: rest ∧ ns.foldl enter here = p)
    rw [makeAlong]
    split
    · exact .refl _ fs
    · exact hrest fs _
    · exact .refl _ fs
    · rename_i hnone
      split
      · exact .refl _ fs
      · refine (extends_insert hnone ?_).trans (hrest _ _)
        exact ⟨[name], (List.prefix_cons_inj name).2 (List.nil_prefix), rfl⟩

theorem extends_makeDirectories (fs : Files) (path : RawText) :
    Extends (fs.OnWay path) fs (left (fs.makeDirectories path)) := by
  refine (extends_makeAlong fs _ _ _).mono fun p ⟨ns, hns, hp⟩ => ?_
  obtain ⟨names, hnames, rfl⟩ := List.prefix_filter_iff.1 hns
  exact ⟨names, hnames, by rw [← foldl_enter_filter, hp]⟩

theorem extends_of_makeDirectories (h : fs.makeDirectories path = .ok fs') : Extends (fs.OnWay path) fs fs' := by
  have := extends_makeDirectories fs path
  rwa [h] at this

/-- Directories that were made once need not be made again. -/
private theorem makeAlong_again {later : Files} {here : Place} {start : RawText} {names : List RawText}
    (h : fs.makeAlong here start names = .ok fs')
    (hkept : ∀ p, fs'.node? p = some .directory → later.node? p = some .directory) :
    later.makeAlong here start names = .ok later := by
  induction names generalizing fs here start with
  | nil => rfl
  | cons name rest ih =>
    have hextends {fs : Files} {here : Place} {start : RawText} (h : fs.makeAlong here start rest = .ok fs') :=
      h ▸ extends_makeAlong fs here start rest
    rw [makeAlong] at h ⊢
    split at h
    · cases h
    · rename_i htext hdir
      rw [htext, hkept _ ((hextends h).keeps hdir)]
      exact ih h
    · cases h
    · rename_i htext hnone
      split at h
      · cases h
      · have hmade {q : Place} (hq : fs.node? q = none) : (fs.insert q .directory).node? q = some .directory := by
          rw [node?_insert (by simp [hq]), if_pos rfl]
        rw [htext, hkept _ ((hextends h).keeps (hmade hnone))]
        exact ih h

/-! ### Following a path -/

private theorem node?_follow {here : Place} {names : List RawText} {n? : Option FileNode}
    (h : fs.follow here names = .ok (q, n?)) (hn : n? ≠ some .directory) : fs.node? q = n? := by
  induction names generalizing here with
  | nil =>
    cases h
    exact absurd rfl hn
  | cons name rest ih =>
    rw [follow] at h
    split at h
    · exact ih h
    · split at h
      · exact ih h
      · split at h
        · cases h
        · dsimp only at h
          split at h
          · exact ih h
          all_goals
            rename_i hnode
            split at h <;> cases h
            exact hnode

private theorem eq_of_follow {here : Place} {names : List RawText} {n? : Option FileNode}
    (h : fs.follow here names = .ok (q, n?)) : q = names.foldl onward here := by
  induction names generalizing here with
  | nil =>
    cases h
    rfl
  | cons name rest ih =>
    rw [follow] at h
    rw [List.foldl_cons, onward, enter]
    by_cases hskip : name = "" ∨ name = "."
    · rw [if_pos hskip] at h ⊢
      exact ih h
    · rw [if_neg hskip] at h ⊢
      by_cases hup : name = ".."
      · rw [if_pos hup] at h ⊢
        exact ih h
      · rw [if_neg hup] at h ⊢
        split at h
        · cases h
        · dsimp only at h
          split at h
          · exact ih h
          all_goals
            split at h <;> cases h
            rename_i hrest
            rw [List.isEmpty_iff.1 hrest, List.foldl_nil]

/-- A path that leads to a file or to nothing leads to the same place while the directories stay. -/
private theorem follow_of_directories {here : Place} {names : List RawText} {n? : Option FileNode}
    (hkept : ∀ p, fs.node? p = some .directory → fs'.node? p = some .directory)
    (h : fs.follow here names = .ok (q, n?)) (hn : n? ≠ some .directory) (hq : fs'.node? q = some (.file text)) :
    fs'.follow here names = .ok (q, some (.file text)) := by
  induction names generalizing here with
  | nil =>
    cases h
    exact absurd rfl hn
  | cons name rest ih =>
    rw [follow] at h ⊢
    split at h
    · rename_i hskip
      rw [if_pos hskip]
      exact ih h
    · rename_i hskip
      rw [if_neg hskip]
      split at h
      · rename_i hup
        rw [if_pos hup]
        exact ih h
      · rename_i hup
        rw [if_neg hup]
        split at h
        · cases h
        · rename_i hlong
          rw [if_neg hlong]
          dsimp only at h ⊢
          split at h
          · rename_i hdir
            rw [hkept _ hdir]
            exact ih h
          all_goals
            split at h <;> cases h
            rename_i hrest
            rw [hq]
            exact if_pos hrest

theorem find_eq_ok {x : Place × Option FileNode} (h : fs.find path = .ok x) :
    FileFault.ofText? path = none ∧ fs.follow (fs.origin path) (Path.names path) = .ok x := by
  unfold find at h
  split at h
  · cases h
  · rename_i htext
    exact ⟨htext, h⟩

theorem isEmpty_of_find {x : Place × Option FileNode} (h : fs.find path = .ok x) : path.isEmpty = false := by
  have htext := (find_eq_ok h).1
  unfold FileFault.ofText? at htext
  split at htext
  · cases htext
  · split at htext
    · cases htext
    · rename_i hempty
      simpa using hempty

theorem find_of_follow {x : Place × Option FileNode} (htext : FileFault.ofText? path = none)
    (h : fs.follow (fs.origin path) (Path.names path) = .ok x) : fs.find path = .ok x := by
  unfold find
  rw [htext]
  exact h

theorem find_of_directories {n? : Option FileNode} (hstart : fs'.start = fs.start)
    (hkept : ∀ p, fs.node? p = some .directory → fs'.node? p = some .directory)
    (h : fs.find path = .ok (q, n?)) (hn : n? ≠ some .directory) (hq : fs'.node? q = some (.file text)) :
    fs'.find path = .ok (q, some (.file text)) := by
  obtain ⟨htext, hfollow⟩ := find_eq_ok h
  refine find_of_follow htext ?_
  rw [origin_congr hstart]
  exact follow_of_directories hkept hfollow hn hq

/-- A path that leads anywhere leads to the place that it names. -/
theorem eq_placeOf_of_find {n? : Option FileNode} (h : fs.find path = .ok (q, n?)) : q = fs.placeOf path :=
  eq_of_follow (find_eq_ok h).2

theorem node?_of_find {n? : Option FileNode} (h : fs.find path = .ok (q, n?)) (hn : n? ≠ some .directory) :
    fs.node? q = n? :=
  node?_follow (find_eq_ok h).2 hn

/-- The place that a path leads to. -/
def target? (fs : Files) (path : RawText) : Option Place := (fs.find path).toOption.map Prod.fst

theorem target?_of_find {n? : Option FileNode} (h : fs.find path = .ok (q, n?)) : fs.target? path = some q := by
  rw [target?, h]
  rfl

theorem read_of_find (h : fs.find path = .ok (q, some (.file text))) : fs.read path = .ok text := by
  rw [read, h]

/-! ### Writing -/

/-- The second tree is the first one with a text put at a path, perhaps with new directories on the way to it. -/
structure Writes (fs : Files) (path : RawText) (text : String) (fs' : Files) : Prop where
  start_eq : fs'.start = fs.start
  not_directory : fs.node? (fs.placeOf path) ≠ some .directory
  leads : fs'.find path = .ok (fs.placeOf path, some (.file text))
  node (p : Place) : p ≠ fs.placeOf path → fs'.node? p = fs.node? p ∨
    fs.OnWay (Path.directory path) p ∧ fs.node? p = none ∧ fs'.node? p = some .directory

namespace Writes

theorem holds (h : fs.Writes path text fs') : fs'.node? (fs.placeOf path) = some (.file text) :=
  node?_of_find h.leads (by simp)

theorem keeps {n : FileNode} (h : fs.Writes path text fs') (hp : p ≠ fs.placeOf path) (hn : fs.node? p = some n) :
    fs'.node? p = some n := by
  rcases h.node p hp with hsame | ⟨-, hnone, -⟩
  · rw [hsame, hn]
  · rw [hnone] at hn
    cases hn

theorem directories (h : fs.Writes path text fs') (hp : fs.node? p = some .directory) :
    fs'.node? p = some .directory :=
  h.keeps (fun hpath => h.not_directory (hpath ▸ hp)) hp

/-- A path that led to a file still leads to its place. -/
theorem find {other : RawText} {s : String} (h : fs.Writes path text fs')
    (hfind : fs.find other = .ok (p, some (.file s))) :
    fs'.find other = .ok (p, some (.file (if p = fs.placeOf path then text else s))) := by
  have hnode : fs.node? p = some (.file s) := node?_of_find hfind (by simp)
  refine find_of_directories h.start_eq (fun _ => h.directories) hfind (by simp) ?_
  by_cases hp : p = fs.placeOf path
  · rw [if_pos hp, hp]
    exact h.holds
  · rw [if_neg hp]
    exact h.keeps hp hnode

end Writes

/-- Where a text is put does not depend on the text. -/
private theorem write_eq_ok (h : fs.write path text = .ok fs') :
    fs.node? (fs.placeOf path) ≠ some .directory ∧ fs' = fs.insert (fs.placeOf path) (.file text) ∧ ∀ text',
      fs.write path text' = .ok (fs.insert (fs.placeOf path) (.file text')) ∧
        (fs.insert (fs.placeOf path) (.file text')).find path = .ok (fs.placeOf path, some (.file text')) := by
  unfold write at h
  split at h
  · cases h
  · rename_i q n? hdir hfind
    cases h
    obtain rfl := eq_placeOf_of_find hfind
    have hfree : fs.node? (fs.placeOf path) ≠ some .directory := by
      rw [node?_of_find hfind hdir]
      exact hdir
    refine ⟨hfree, rfl, fun text' => ⟨?_, ?_⟩⟩
    · unfold write
      rw [hfind]
      cases n? with
      | none => rfl
      | some n =>
        cases n with
        | directory => exact absurd rfl hdir
        | file s => rfl
    · refine find_of_directories (start_insert ..) (fun _ => directory_insert hfree) hfind hdir ?_
      rw [node?_insert hfree, if_pos rfl]
  · cases h

/-- A text that is written behind the directories on the way to it. -/
private theorem writes_of_write (hmake : fs.makeDirectories (Path.directory path) = .ok fs₁)
    (hwrite : fs₁.write path text = .ok fs') : fs.Writes path text fs' := by
  have hextends := extends_of_makeDirectories hmake
  obtain ⟨hfree, rfl, hagain⟩ := write_eq_ok hwrite
  have hplace := placeOf_congr hextends.start_eq path
  rw [hplace] at hfree hagain ⊢
  refine ⟨(start_insert ..).trans hextends.start_eq, fun hdir => hfree (hextends.keeps hdir), (hagain text).2,
    fun p hp => ?_⟩
  rw [node?_insert_of_ne hp]
  exact hextends.node p

/-! ### Another text at the same place -/

/-- Both trees hold a file at a place, and they are the same everywhere else. -/
structure SameBut (q : Place) (fs fs' : Files) : Prop where
  start_eq : fs'.start = fs.start
  file : ∃ text, fs.node? q = some (.file text)
  file_other : ∃ text, fs'.node? q = some (.file text)
  keeps (p : Place) : p ≠ q → fs'.node? p = fs.node? p

/-- A path leads to the same, unless it leads to that place. -/
theorem SameBut.follow (h : SameBut q fs fs') (here : Place) (names : List RawText) :
    fs'.follow here names = fs.follow here names ∨ ∃ n?, fs.follow here names = .ok (q, n?) := by
  induction names generalizing here with
  | nil => exact Or.inl rfl
  | cons name rest ih =>
    rw [Files.follow, Files.follow]
    split
    · exact ih here
    · split
      · exact ih (above here)
      · split
        · exact Or.inl rfl
        · dsimp only
          by_cases hq : here ++ [name] = q
          · obtain ⟨text, hfile⟩ := h.file
            obtain ⟨text', hfile'⟩ := h.file_other
            rw [hq, hfile, hfile']
            by_cases hrest : rest.isEmpty = true
            · exact Or.inr ⟨_, if_pos hrest⟩
            · exact Or.inl ((if_neg hrest).trans (if_neg hrest).symm)
          · rw [h.keeps _ hq]
            cases fs.node? (here ++ [name]) with
            | none => exact Or.inl rfl
            | some n =>
              cases n with
              | directory => exact ih (here ++ [name])
              | file text => exact Or.inl rfl

theorem SameBut.read (h : SameBut q fs fs') (hpath : fs.target? path ≠ some q) : fs'.read path = fs.read path := by
  have hfind : fs'.find path = fs.find path := by
    unfold find
    cases htext : FileFault.ofText? path with
    | some fault => rfl
    | none =>
      dsimp only
      rw [origin, origin, h.start_eq]
      refine (h.follow _ _).resolve_right ?_
      rintro ⟨n?, hto⟩
      exact hpath (target?_of_find (find_of_follow htext hto))
  rw [Files.read, Files.read, hfind]

/-- Whether a file can be written does not depend on the text. -/
private theorem write_other (fs : Files) (path : RawText) (text text' : String) :
    (∃ e, fs.write path text = .error e ∧ fs.write path text' = .error e) ∨
      ∃ fs₁ fs₂ q, fs.write path text = .ok fs₁ ∧ fs.write path text' = .ok fs₂ ∧ SameBut q fs₁ fs₂ ∧
        fs₁.target? path = some q := by
  cases hwrite : fs.write path text with
  | error e =>
    refine Or.inl ⟨e, rfl, ?_⟩
    unfold write at hwrite ⊢
    split at hwrite
    · exact hwrite
    · cases hwrite
    · exact hwrite
  | ok fs₁ =>
    obtain ⟨hfree, rfl, hagain⟩ := write_eq_ok hwrite
    have hholds (s : String) : (fs.insert (fs.placeOf path) (.file s)).node? (fs.placeOf path) = some (.file s) := by
      rw [node?_insert hfree, if_pos rfl]
    refine Or.inr ⟨_, _, _, rfl, (hagain text').1, ⟨?_, ⟨text, hholds text⟩, ⟨text', hholds text'⟩, fun p hp => ?_⟩,
      target?_of_find (hagain text).2⟩
    · rw [start_insert, start_insert]
    · rw [node?_insert_of_ne hp, node?_insert_of_ne hp]

end CliffordT.Files

namespace CliffordT.Artifact

variable {fs fs' : Files} {path : RawText} {text : String} {e : Setback}

/-! ### Writing an artifact -/

private theorem place_eq_ok (h : place fs path text = .ok fs') :
    ∃ fs₁, fs.makeDirectories (Path.directory path) = .ok fs₁ ∧ fs₁.write path text = .ok fs' := by
  unfold place at h
  dsimp only at h
  split at h
  · cases h
  · rename_i fs₁ hmake
    refine ⟨fs₁, hmake, ?_⟩
    split at h <;> cases h
    assumption

theorem writes_of_place (h : place fs path text = .ok fs') : fs.Writes path text fs' := by
  obtain ⟨fs₁, hmake, hwrite⟩ := place_eq_ok h
  exact Files.writes_of_write hmake hwrite

/-- The metrics are written as the other artifacts are. -/
theorem writes_of_writeMetrics (h : writeMetrics fs path text = .ok fs') : fs.Writes path text fs' := by
  unfold writeMetrics at h
  dsimp only at h
  split at h
  · cases h
  · rename_i fs₁ hmake
    split at h
    · cases h
    · split at h <;> cases h
      rename_i hwrite
      exact Files.writes_of_write hmake hwrite

/-- A write that fails leaves new directories at most. -/
theorem extends_of_place (h : place fs path text = .error e) :
    Files.Extends (fs.OnWay (Path.directory path)) fs e.files := by
  have hextends := fs.extends_makeDirectories (Path.directory path)
  unfold place at h
  dsimp only at h
  split at h
  · rename_i hmake
    cases h
    rwa [hmake] at hextends
  · rename_i hmake
    rw [hmake] at hextends
    split at h <;> cases h
    exact hextends

theorem extends_of_writeMetrics (h : writeMetrics fs path text = .error e) :
    Files.Extends (fs.OnWay (Path.directory path)) fs e.files := by
  have hextends := fs.extends_makeDirectories (Path.directory path)
  unfold writeMetrics at h
  dsimp only at h
  split at h
  · rename_i hmake
    cases h
    rwa [hmake] at hextends
  · rename_i hmake
    rw [hmake] at hextends
    split at h
    · cases h
      exact hextends
    · split at h <;> cases h
      exact hextends

theorem writeMetrics_other (fs : Files) (path : RawText) (text text' : String) :
    (∃ e, writeMetrics fs path text = .error e ∧ writeMetrics fs path text' = .error e) ∨
      ∃ fs₁ fs₂ q, writeMetrics fs path text = .ok fs₁ ∧ writeMetrics fs path text' = .ok fs₂ ∧
        Files.SameBut q fs₁ fs₂ ∧ fs₁.target? path = some q := by
  unfold writeMetrics
  dsimp only
  cases fs.makeDirectories (Path.directory path) with
  | error e => exact Or.inl ⟨_, rfl, rfl⟩
  | ok fs₀ =>
    dsimp only
    split
    · exact Or.inl ⟨_, rfl, rfl⟩
    · rcases fs₀.write_other path text text' with ⟨e, hwrite, hwrite'⟩ | ⟨fs₁, fs₂, q, hwrite, hwrite', hsame⟩
      · rw [hwrite, hwrite']
        exact Or.inl ⟨_, rfl, rfl⟩
      · rw [hwrite, hwrite']
        exact Or.inr ⟨fs₁, fs₂, q, rfl, rfl, hsame⟩

/-- Where a text was written, one can be written again, if the path still leads to a file. -/
theorem exists_place_again {later : Files} {q : Place} {s : String} (h : place fs path text = .ok fs')
    (hstart : later.start = fs.start) (hkept : ∀ p, fs'.node? p = some .directory → later.node? p = some .directory)
    (hfind : later.find path = .ok (q, some (.file s))) (text' : String) :
    ∃ fs'', place later path text' = .ok fs'' := by
  obtain ⟨fs₁, hmake, hwrite⟩ := place_eq_ok h
  have hagain : later.makeDirectories (Path.directory path) = .ok later := by
    unfold Files.makeDirectories
    rw [Files.origin_congr hstart]
    refine Files.makeAlong_again hmake fun p hp => hkept p ?_
    -- the text that was written is at no place where a directory was made
    obtain ⟨hfree, rfl, -⟩ := Files.write_eq_ok hwrite
    exact Files.directory_insert hfree hp
  refine ⟨later.insert q (.file text'), ?_⟩
  unfold place
  dsimp only
  rw [hagain]
  dsimp only
  rw [Files.write, hfind]

end CliffordT.Artifact
