import CliffordT.Proofs.LoggedFiles
import CliffordT.Proofs.OpenPaths

/-!
# Logs that open at once or never

A log without a file tries to open it with every line.  If its path leads downwards (`Log.Downward`), then what is in the
way of the first attempt is in the way of all later ones, as long as files stay files and directories stay directories
(`Log.stuck_of_openFile`).  So after its first line the log has its file, or it never gets one (`Log.Output.Decided`),
and a log that never gets one puts nothing away (`Log.Output.Barred.foldl_write`).

A path that goes up has no such law.  It may lead nowhere at first and, when the directories of another file have been
made, to a directory that the log then takes for its own place.
-/

namespace CliffordT.Files

variable {fs fs' fs₁ : Files} {p q : Place} {path : RawText} {text : String}

/-! ### Trees that grow -/

/-- Files stay files, and directories stay directories. -/
structure Grows (fs fs' : Files) : Prop where
  start_eq : fs'.start = fs.start
  file (p : Place) : (∃ text, fs.node? p = some (.file text)) → ∃ text, fs'.node? p = some (.file text)
  directory (p : Place) : fs.node? p = some .directory → fs'.node? p = some .directory

theorem Grows.refl (fs : Files) : fs.Grows fs := ⟨rfl, fun _ => id, fun _ => id⟩

theorem Grows.trans (h : fs.Grows fs₁) (h₁ : fs₁.Grows fs') : fs.Grows fs' :=
  ⟨h₁.start_eq.trans h.start_eq, fun p hp => h₁.file p (h.file p hp), fun p hp => h₁.directory p (h.directory p hp)⟩

theorem Extends.grows {news : Place → Prop} (h : Extends news fs fs') : fs.Grows fs' :=
  ⟨h.start_eq, fun _ ⟨text, hp⟩ => ⟨text, h.keeps hp⟩, fun _ => h.keeps⟩

theorem Writes.grows (h : fs.Writes path text fs') : fs.Grows fs' := by
  refine ⟨h.start_eq, fun p ⟨s, hp⟩ => ?_, fun _ => h.directories⟩
  by_cases hplace : p = fs.placeOf path
  · exact ⟨text, hplace ▸ h.holds⟩
  · exact ⟨s, h.keeps hplace hp⟩

/-- A way goes through every place above its end that is not above its beginning. -/
private theorem directory_of_follow {here : Place} {names : List RawText} {n? : Option FileNode}
    (h : fs.follow here names = .ok (p, n?)) (hq : q <+: p) (hne : q ≠ p) :
    q <+: here ∨ fs.node? q = some .directory := by
  have habove {here : Place} {name : RawText} (hnext : q <+: here ++ [name]) (hne : q ≠ here ++ [name]) : q <+: here :=
    (List.prefix_concat_iff.1 hnext).resolve_left hne
  induction names generalizing here with
  | nil =>
    cases h
    exact Or.inl hq
  | cons name rest ih =>
    rw [follow] at h
    split at h
    · exact ih h
    · split at h
      · -- what is above the directory above is above this one
        refine (ih h).imp_left fun hup => ?_
        unfold above at hup
        split at hup
        · exact hup
        · exact hup.trans (List.dropLast_prefix here)
      · split at h
        · cases h
        · dsimp only at h
          split at h
          · rename_i hdir
            rcases ih h with hnext | hnode
            · by_cases hself : q = here ++ [name]
              · exact Or.inr (hself ▸ hdir)
              · exact Or.inl (habove hnext hself)
            · exact Or.inr hnode
          all_goals
            split at h <;> cases h
            exact Or.inl (habove hq hne)

/-- Above a file that was written there are directories. -/
theorem Writes.directory_above (h : fs.Writes path text fs') (hq : q <+: fs.placeOf path) (hne : q ≠ fs.placeOf path)
    (hstart : ¬ q <+: fs.start) : fs'.node? q = some .directory := by
  rcases directory_of_follow (find_eq_ok h.leads).2 hq hne with horigin | hdir
  · rw [origin_congr h.start_eq] at horigin
    unfold origin at horigin
    split at horigin
    · rcases List.prefix_concat_iff.1 (show q <+: [] ++ [("/" : RawText)] from horigin) with hroot | hnil
      · rw [hroot]
        exact if_pos (Or.inr rfl)
      · exact absurd (List.prefix_nil.1 hnil ▸ List.nil_prefix) hstart
    · exact absurd horigin hstart
  · exact hdir

end CliffordT.Files

namespace CliffordT.Log

variable {fs fs' fs₁ : Files} {path : RawText} {file : LogFile} {bytes : Nat}

/-! ### Attempts to open a file -/

/-- The path does not go up, and its place is not the directory where paths begin, nor above it. -/
structure Downward (fs : Files) (path : RawText) : Prop where
  up : (".." : RawText) ∉ Path.names path
  below : ¬ fs.placeOf path <+: fs.start

theorem Downward.congr (h : Downward fs path) (hstart : fs'.start = fs.start) : Downward fs' path :=
  ⟨h.up, by rw [Files.placeOf_congr hstart, hstart]; exact h.below⟩

/-- What can be put away has a plain name. -/
private theorem last_of_renameFault? (h : Downward fs path) (hrename : renameFault? path (fs.placeOf path) = none) :
    (Path.names path).getLast? ≠ some ("" : RawText) ∧ (Path.names path).getLast? ≠ some ("." : RawText) := by
  unfold renameFault? at hrename
  dsimp only at hrename
  split at hrename
  · cases hrename
  · rename_i hends
    obtain ⟨hroot, hends⟩ := not_or.1 hends
    rw [Classical.not_not, List.getLastD_eq_getLast?, Files.placeOf_eq h.up] at hends
    rw [Files.placeOf_eq h.up] at hroot
    -- the name is that of the place, which has plain names only
    have hplain (last : RawText) (hlast : (Path.names path).getLast? = some last) : ¬ (last = "" ∨ last = ".") := by
      rw [hlast, List.getLast?_append] at hends
      cases hnames : (Path.plain (Path.names path)).getLast? with
      | some name =>
        rw [hnames] at hends
        obtain rfl := Option.some.inj hends
        have hmem := List.mem_of_getLast? hnames
        simpa [Path.plain, not_or] using (List.mem_filter.1 hmem).2
      | none =>
        have hbelow := h.below
        rw [List.getLast?_eq_none_iff.1 hnames, List.append_nil] at hroot
        rw [Files.placeOf_eq h.up, List.getLast?_eq_none_iff.1 hnames, List.append_nil] at hbelow
        unfold Files.origin at hroot hbelow
        split at hbelow
        · rename_i hrooted
          exact absurd (if_pos hrooted) hroot
        · exact absurd (List.prefix_refl _) hbelow
    exact ⟨fun hlast => hplain _ hlast (Or.inl rfl), fun hlast => hplain _ hlast (Or.inr rfl)⟩

/-- A new file was made: nothing was in the way, and a directory in its place could be put away. -/
private theorem clear_of_openNew (h : Downward fs path) (hopen : (openNew fs path).2 = .ok file) :
    fs.Clear path ∧
      (fs.node? (fs.placeOf path) = some .directory → renameFault? path (fs.placeOf path) = none) := by
  unfold openNew at hopen
  split at hopen
  · cases hopen
  · rename_i fs₁ hmake
    have hextends := Files.extends_of_makeDirectories hmake
    have hclear (hfs₁ : fs₁.Clear path) : fs.Clear path := hfs₁.of_files hextends.start_eq hextends.grows.file
    have hplace := Files.placeOf_congr hextends.start_eq path
    split at hopen
    · cases hopen
    · rename_i place hfind
      refine ⟨hclear (Files.clear_of_find hfind h.up (by simp)), fun hdir => ?_⟩
      have hnone := Files.node?_of_find hfind (by simp)
      rw [Files.eq_placeOf_of_find hfind, hplace, hextends.keeps hdir] at hnone
      cases hnone
    · rename_i place n hfind
      obtain rfl := Files.eq_placeOf_of_find hfind
      split at hopen
      · cases hopen
      · rename_i hrename
        have hlast := last_of_renameFault? (h.congr hextends.start_eq) hrename
        exact ⟨hclear (Files.clear_of_find hfind h.up fun _ => hlast), fun _ => hplace ▸ hrename⟩

private theorem clear_of_openFile (h : Downward fs path) (hopen : (openFile fs path bytes).2 = .ok file) :
    fs.Clear path ∧
      (fs.node? (fs.placeOf path) = some .directory → renameFault? path (fs.placeOf path) = none) := by
  unfold openFile at hopen
  split at hopen
  · split at hopen
    · exact clear_of_openNew h hopen
    · cases hopen
  · rename_i place text hfind
    split at hopen
    · exact clear_of_openNew h hopen
    · refine ⟨Files.clear_of_find hfind h.up (by simp), fun hdir => ?_⟩
      have hfile := Files.node?_of_find hfind (by simp)
      rw [Files.eq_placeOf_of_find hfind, hdir] at hfile
      cases hfile
  · exact clear_of_openNew h hopen

private theorem exists_openNew (h : fs.Clear path) (hfile : ∀ text, fs.node? (fs.placeOf path) ≠ some (.file text))
    (hrename : fs.node? (fs.placeOf path) = some .directory → renameFault? path (fs.placeOf path) = none) :
    ∃ file, (openNew fs path).2 = .ok file := by
  obtain ⟨fs₁, hmake, hfind⟩ := h.exists_made
  unfold openNew
  simp only [hmake, hfind]
  cases hnode : fs.node? (fs.placeOf path) with
  | none => exact ⟨_, rfl⟩
  | some n =>
    cases n with
    | file text => exact absurd hnode (hfile text)
    | directory =>
      simp only [hrename hnode]
      exact ⟨_, rfl⟩

private theorem exists_openFile (h : fs.Clear path) (hfile : ∀ text, fs.node? (fs.placeOf path) ≠ some (.file text))
    (hrename : fs.node? (fs.placeOf path) = some .directory → renameFault? path (fs.placeOf path) = none)
    (bytes : Nat) : ∃ file, (openFile fs path bytes).2 = .ok file := by
  have hnew := exists_openNew h hfile hrename
  unfold openFile
  rcases h.find_cases with ⟨n?, hfind⟩ | hmissing
  · rw [hfind]
    match n? with
    | none => exact hnew
    | some .directory => exact hnew
    | some (.file text) => exact absurd (Files.node?_of_find hfind (by simp)) (hfile text)
  · simp only [hmissing]
    exact hnew

/-- The file of a log cannot be opened, now or later. -/
def Stuck (path : RawText) (fs : Files) : Prop :=
  ∀ fs', fs.Grows fs' → ∀ bytes file, (openFile fs' path bytes).2 ≠ .ok file

theorem Stuck.grows (h : Stuck path fs) (hgrows : fs.Grows fs') : Stuck path fs' :=
  fun _ hlater => h _ (hgrows.trans hlater)

/-- What is in the way of one attempt is in the way of all later ones. -/
theorem stuck_of_openFile (h : Downward fs path) {f : LogFault} (hopen : (openFile fs path bytes).2 = .error f)
    (hfile : ∀ text, fs.node? (fs.placeOf path) ≠ some (.file text)) : Stuck path fs := by
  intro fs' hgrows bytes' file hlater
  obtain ⟨hclear, hrename⟩ := clear_of_openFile (h.congr hgrows.start_eq) hlater
  rw [Files.placeOf_congr hgrows.start_eq] at hrename
  obtain ⟨file', hok⟩ := exists_openFile (hclear.of_files hgrows.start_eq hgrows.file) hfile
    (fun hdir => hrename (hgrows.directory _ hdir)) bytes
  rw [hok] at hopen
  cases hopen

/-- The path has to lead downwards: this one leads nowhere at first and later to a directory, which is put away. -/
example :
    let fs : Files := ⟨[(["x"], .directory), (["a"], .directory), (["a", "t"], .file "")], []⟩
    (openFile .empty "x/../a" 0).2.isOk = false ∧ (openFile fs "x/../a" 0).1.node? ["a", "t"] = none := by
  decide +kernel

private theorem grows_of_openNew_error {f : LogFault} (h : openNew fs path = (fs₁, .error f)) : fs.Grows fs₁ := by
  have hextends := fs.extends_makeDirectories (Path.directory path)
  unfold openNew at h
  split at h
  · rename_i hmake
    rw [hmake] at hextends
    cases h
    exact hextends.grows
  · rename_i hmake
    rw [hmake] at hextends
    split at h
    · cases h
      exact hextends.grows
    · cases h
    · split at h
      · cases h
        exact hextends.grows
      · cases h

/-- An attempt that fails makes directories at most. -/
private theorem grows_of_openFile_error {f : LogFault} (h : openFile fs path bytes = (fs₁, .error f)) :
    fs.Grows fs₁ := by
  unfold openFile at h
  split at h
  · split at h
    · exact grows_of_openNew_error h
    · cases h
      exact .refl fs
  · split at h
    · exact grows_of_openNew_error h
    · cases h
  · exact grows_of_openNew_error h

private theorem node?_of_openNew (h : Downward fs path) (hopen : openNew fs path = (fs₁, .ok file)) :
    ∃ text, fs₁.node? (fs.placeOf path) = some (.file text) := by
  unfold openNew at hopen
  split at hopen
  · cases hopen
  · rename_i fs₂ hmake
    have hextends := Files.extends_of_makeDirectories hmake
    have hplace := Files.placeOf_congr hextends.start_eq path
    split at hopen
    · cases hopen
    · rename_i place hfind
      cases hopen
      have hnone := Files.node?_of_find hfind (by simp)
      rw [← hplace, ← Files.eq_placeOf_of_find hfind, Files.node?_insert (by simp [hnone])]
      exact ⟨_, if_pos rfl⟩
    · rename_i place n hfind
      obtain rfl := Files.eq_placeOf_of_find hfind
      split at hopen
      · cases hopen
      · rename_i hrename
        cases hopen
        have hroot : fs₂.placeOf path ≠ .root := by
          intro hroot
          rw [hroot] at hrename
          simp [renameFault?] at hrename
        refine ⟨"", hplace ▸ Files.node?_supplant ?_ hroot ""⟩
        intro hstart
        refine (h.congr hextends.start_eq).below ?_
        rw [hstart]

private theorem node?_of_openFile (h : Downward fs path) (hopen : openFile fs path bytes = (fs₁, .ok file)) :
    ∃ text, fs₁.node? (fs.placeOf path) = some (.file text) := by
  unfold openFile at hopen
  split at hopen
  · split at hopen
    · exact node?_of_openNew h hopen
    · cases hopen
  · rename_i place text hfind
    split at hopen
    · exact node?_of_openNew h hopen
    · cases hopen
      exact ⟨text, Files.eq_placeOf_of_find hfind ▸ Files.node?_of_find hfind (by simp)⟩
  · exact node?_of_openNew h hopen

/-- The first attempt decides: the log gets its file, or it never does. -/
private theorem openFor_decides (h : Downward fs path) (hbytes : bytes ≤ maxFileBytes) :
    (∃ text, (openFor fs path bytes .closed).1.node? (fs.placeOf path) = some (.file text)) ∨
      (∃ f, (openFor fs path bytes .closed).2 = .error f) ∧ Stuck path (openFor fs path bytes .closed).1 := by
  unfold openFor
  rw [if_neg (Nat.not_lt.2 hbytes), if_pos rfl]
  rcases hopen : openFile fs path bytes with ⟨fs₁, f | file⟩
  · have hgrows := grows_of_openFile_error hopen
    by_cases hfile : ∃ text, fs.node? (fs.placeOf path) = some (.file text)
    · exact Or.inl (hgrows.file _ hfile)
    · have hstuck := stuck_of_openFile h (congrArg Prod.snd hopen) (not_exists.1 hfile)
      exact Or.inr ⟨⟨f, rfl⟩, hstuck.grows hgrows⟩
  · left
    have hfile := node?_of_openFile h hopen
    dsimp only
    split
    · -- a full file is put away for a new one
      have hstart : fs₁.start = fs.start := by
        have hkeeps := (openFile_beside fs path bytes).keeps
        rw [hopen] at hkeeps
        exact hkeeps.start_eq
      have hkeeps := (openNew_beside fs₁ path).keeps
      rw [Files.placeOf_congr hstart] at hkeeps
      exact hkeeps.file hfile
    · exact hfile

/-! ### Lines -/

namespace Output

variable {o : Output}

/-- The log has no file and never gets one. -/
structure Barred (path : RawText) (o : Output) : Prop where
  closed : o.file = .closed
  stuck : Stuck path o.files

theorem Barred.moved (h : o.Barred path) (hgrows : o.files.Grows fs') : Barred path { o with files := fs' } :=
  ⟨h.closed, h.stuck.grows hgrows⟩

theorem Barred.replaced (h : o.Barred path) (place : Place) : (o.replaced place).Barred path := by
  unfold Output.replaced
  rw [h.closed, if_neg (by simp [LogFile.place?])]
  exact h

private theorem Barred.addLine (h : o.Barred path) (line : String) :
    (o.addLine path line).Barred path ∧ o.files.Grows (o.addLine path line).files := by
  have hfails := h.stuck o.files (.refl _) line.utf8ByteSize
  unfold Output.addLine openFor
  rw [h.closed]
  by_cases hlong : maxFileBytes < line.utf8ByteSize
  · rw [if_pos hlong]
    exact ⟨⟨rfl, h.stuck⟩, .refl _⟩
  · rw [if_neg hlong, if_pos rfl]
    cases hopen : openFile o.files path line.utf8ByteSize with
    | mk fs₁ opened =>
      cases opened with
      | ok file => exact absurd (congrArg Prod.snd hopen) (hfails file)
      | error f =>
        have hgrows := grows_of_openFile_error hopen
        refine ⟨⟨?_, h.stuck.grows hgrows⟩, hgrows⟩
        cases f <;> rfl

/-- A log that never gets a file leaves those of others as they are. -/
theorem Barred.write (h : o.Barred path) (set : Level) (time : String) (r : Record) :
    (o.write set path time r).Barred path ∧ o.files.Grows (o.write set path time r).files := by
  unfold Output.write
  split
  · exact ⟨h, .refl _⟩
  · dsimp only
    split
    · exact ⟨⟨h.closed, h.stuck⟩, .refl _⟩
    · have hsaid : Barred path { o with text := o.text ++ r.line time, noted := o.noted ++ r.line time } :=
        ⟨h.closed, h.stuck⟩
      exact hsaid.addLine (r.line time)

theorem Barred.foldl_write (h : o.Barred path) (set : Level) (time : String) (records : List Record) :
    (records.foldl (Output.write set path time) o).Barred path ∧
      o.files.Grows (records.foldl (Output.write set path time) o).files := by
  induction records generalizing o with
  | nil => exact ⟨h, .refl _⟩
  | cons r records ih =>
    obtain ⟨hbarred, hgrows⟩ := h.write set time r
    obtain ⟨hbarred', hgrows'⟩ := ih hbarred
    exact ⟨hbarred', hgrows.trans hgrows'⟩

/-- The log has its file, or it never gets one. -/
def Decided (path : RawText) (o : Output) : Prop :=
  (∃ text, o.files.node? (o.files.placeOf path) = some (.file text)) ∨ o.Barred path

theorem Decided.moved (h : o.Decided path) (hgrows : o.files.Grows fs') : Decided path { o with files := fs' } := by
  rcases h with hfile | hbarred
  · left
    rw [Files.placeOf_congr hgrows.start_eq]
    exact hgrows.file _ hfile
  · exact Or.inr (hbarred.moved hgrows)

theorem Decided.replaced (h : o.Decided path) (place : Place) : (o.replaced place).Decided path := by
  rcases h with hfile | hbarred
  · left
    rw [files_replaced]
    exact hfile
  · exact Or.inr (hbarred.replaced place)

/-- The first line of a log decides. -/
private theorem decided_addLine (hclosed : o.file = .closed) (hdown : Downward o.files path) {line : String}
    (hline : line.utf8ByteSize ≤ maxFileBytes) : (o.addLine path line).Decided path := by
  have hdecides := openFor_decides hdown hline
  have hbeside : OpensBeside path o.files (openFor o.files path line.utf8ByteSize .closed) :=
    openFor_beside (fun _ hp => by cases hp) _
  unfold Output.addLine
  rw [hclosed]
  rcases hopen : openFor o.files path line.utf8ByteSize .closed with ⟨fs₁, f | file⟩
  · rw [hopen] at hdecides hbeside
    rcases hdecides with hfile | ⟨-, hstuck⟩
    · rw [← Files.placeOf_congr hbeside.keeps.start_eq] at hfile
      exact Or.inl hfile
    · exact Or.inr ⟨by cases f <;> rfl, hstuck⟩
  · rw [hopen] at hdecides hbeside
    obtain ⟨hkeeps, -⟩ := file.add_beside (hbeside.place file rfl) fs₁ line
    left
    rcases hdecides with hfile | ⟨⟨f, herror⟩, -⟩
    · have hplace := Files.placeOf_congr (hkeeps.start_eq.trans hbeside.keeps.start_eq) path
      exact hplace ▸ hkeeps.file hfile
    · cases herror

theorem Decided.write (h : o.Decided path) (hbeside : o.Beside path o.files) (set : Level) (time : String)
    (r : Record) : (o.write set path time r).Decided path := by
  rcases h with hfile | hbarred
  · have hkeeps := (hbeside.write set time r).keeps
    left
    rw [Files.placeOf_congr hkeeps.start_eq]
    exact hkeeps.file hfile
  · exact Or.inr (hbarred.write set time r).1

theorem Decided.foldl_write (h : o.Decided path) (hbeside : o.Beside path o.files) (set : Level) (time : String)
    (records : List Record) : (records.foldl (Output.write set path time) o).Decided path := by
  induction records generalizing o with
  | nil => exact h
  | cons r records ih => exact ih (h.write hbeside set time r) (hbeside.write set time r).self

/-- A log is decided once it was to write a record that is not too long. -/
theorem decided_foldl_write (hpath : path.isEmpty = false) (hdown : Downward fs path) {set : Level} {time : String}
    {r : Record} (hwrites : set.writes r.level = true) (hline : (r.line time).utf8ByteSize ≤ maxFileBytes)
    (records : List Record) : ((r :: records).foldl (Output.write set path time) (.start fs)).Decided path := by
  refine Decided.foldl_write ?_ ((beside_start path fs).write set time r).self set time records
  unfold Output.write
  rw [hwrites, if_neg (by simp)]
  dsimp only
  rw [if_neg (by simp [hpath])]
  exact decided_addLine rfl hdown hline

end Output

end CliffordT.Log
