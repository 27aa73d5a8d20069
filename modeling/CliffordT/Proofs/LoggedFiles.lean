import CliffordT.Log.Output
import CliffordT.Proofs.WrittenFiles

/-!
# Files beside a log

The file of a log stands at the place that its path names.  What stands in the way of a new one is put away.  If that is
a directory, all that it holds goes with it, and a file stands above the places where it was (`Files.Buries`).  Nothing
else happens to other files by a line (`Log.Output.Beside.write`), and so by any number of lines
(`Log.Output.Beside.foldl_write`).
-/

namespace CliffordT.Files

variable {fs fs' fs₁ : Files} {p q : Place} {path : RawText} {text : String}

/-! ### Files elsewhere -/

/-- A file stands above a place, where there should be a directory.  The directory where paths begin is one by itself,
whatever stands above it. -/
def Buries (fs : Files) (q p : Place) : Prop :=
  q <+: p ∧ ¬ (q <+: fs.start ∧ fs.start <+: p) ∧ ∃ text, fs.node? q = some (.file text)

/-- The second tree has all files of the first one but that at a place and those that a file there has buried. -/
structure KeepsBeside (q : Place) (fs fs' : Files) : Prop where
  start_eq : fs'.start = fs.start
  file : (∃ text, fs.node? q = some (.file text)) → ∃ text, fs'.node? q = some (.file text)
  keeps (p : Place) (text : String) : p ≠ q → fs.node? p = some (.file text) →
    fs'.node? p = some (.file text) ∨ fs'.Buries q p

theorem KeepsBeside.refl (q : Place) (fs : Files) : KeepsBeside q fs fs := ⟨rfl, id, fun _ _ _ h => Or.inl h⟩

/-- What is buried stays so. -/
theorem KeepsBeside.buries (h : KeepsBeside q fs fs') (hp : fs.Buries q p) : fs'.Buries q p := by
  obtain ⟨habove, hstart, hfile⟩ := hp
  rw [← h.start_eq] at hstart
  exact ⟨habove, hstart, h.file hfile⟩

theorem KeepsBeside.trans (h : KeepsBeside q fs fs₁) (h₁ : KeepsBeside q fs₁ fs') : KeepsBeside q fs fs' := by
  refine ⟨h₁.start_eq.trans h.start_eq, fun hfile => h₁.file (h.file hfile), fun p text hp hnode => ?_⟩
  rcases h.keeps p text hp hnode with hkept | hburied
  · exact h₁.keeps p text hp hkept
  · exact Or.inr (h₁.buries hburied)

private theorem Extends.keepsBeside {news : Place → Prop} (h : Extends news fs fs') (q : Place) :
    KeepsBeside q fs fs' :=
  ⟨h.start_eq, fun ⟨text, hfile⟩ => ⟨text, h.keeps hfile⟩, fun _ _ _ hnode => Or.inl (h.keeps hnode)⟩

private theorem not_fixed_of_file (h : fs.node? q = some (.file text)) : q ≠ fs.start ∧ q ≠ .root := by
  constructor
  all_goals
    rintro rfl
    simp [node?] at h

private theorem node?_insert_self (hstart : q ≠ fs.start) (hroot : q ≠ .root) (n : FileNode) :
    (fs.insert q n).node? q = some n := by
  rw [node?, start_insert, if_neg (not_or.2 ⟨hstart, hroot⟩), lookup_insert, if_pos rfl]

private theorem keepsBeside_insert (fs : Files) (q : Place) (text : String) :
    KeepsBeside q fs (fs.insert q (.file text)) := by
  refine ⟨start_insert fs q _, fun ⟨s, hfile⟩ => ⟨text, ?_⟩, fun p s hp hnode => Or.inl ?_⟩
  · obtain ⟨hstart, hroot⟩ := not_fixed_of_file hfile
    exact node?_insert_self hstart hroot _
  · rw [node?_insert_of_ne hp, hnode]

private theorem lookup_filter_of_kept (kept : Place → Bool) (nodes : List (Place × FileNode)) (h : kept p = true) :
    (nodes.filter fun x => kept x.1).lookup p = nodes.lookup p := by
  induction nodes with
  | nil => rfl
  | cons x nodes ih =>
    obtain ⟨a, n⟩ := x
    rw [List.filter_cons, List.lookup_cons]
    by_cases hp : p = a
    · subst hp
      rw [if_pos h, List.lookup_cons]
      simp
    · have hne : (p == a) = false := beq_false_of_ne hp
      rw [hne]
      by_cases ha : kept a = true
      · rw [if_pos ha, List.lookup_cons, hne]
        exact ih
      · rw [if_neg ha]
        exact ih

theorem node?_supplant (hstart : q ≠ fs.start) (hroot : q ≠ .root) (text : String) :
    (fs.supplant q text).node? q = some (.file text) := by
  refine node?_insert_self ?_ hroot _
  exact hstart

/-- A directory that makes room for a file takes all with it that it holds, but not the directory where paths begin. -/
private theorem keepsBeside_supplant (fs : Files) (hroot : q ≠ .root) (text : String) :
    KeepsBeside q fs (fs.supplant q text) := by
  have hself (hstart : q ≠ fs.start) := node?_supplant hstart hroot text
  have hsame : (fs.supplant q text).start = fs.start := start_insert ..
  refine ⟨hsame, fun ⟨s, hfile⟩ => ⟨text, hself (not_fixed_of_file hfile).1⟩, fun p s hp hnode => ?_⟩
  by_cases hbelow : q <+: p ∧ ¬ (q <+: fs.start ∧ fs.start <+: p)
  · have hstart : q ≠ fs.start := by
      rintro rfl
      exact hbelow.2 ⟨List.prefix_refl _, hbelow.1⟩
    exact Or.inr ⟨hbelow.1, hsame ▸ hbelow.2, text, hself hstart⟩
  · left
    unfold supplant
    rw [node?_insert_of_ne hp]
    unfold node? at hnode ⊢
    rw [lookup_filter_of_kept (fun p => !q.isPrefixOf p || p = q || (q.isPrefixOf fs.start && fs.start.isPrefixOf p))]
    · exact hnode
    · simp only [Bool.or_eq_true, Bool.not_eq_true', Bool.and_eq_true, decide_eq_true_eq,
        List.isPrefixOf_iff_prefix]
      by_cases hq : q <+: p
      · exact Or.inr (Classical.not_not.1 fun hnot => hbelow ⟨hq, hnot⟩)
      · exact Or.inl (Or.inl (Bool.eq_false_iff.2 fun habove => hq (List.isPrefixOf_iff_prefix.1 habove)))

end CliffordT.Files

namespace CliffordT.Log

open CliffordT.Files (KeepsBeside)

variable {fs fs' : Files} {path : RawText} {q : Place} {file : LogFile}

/-! ### Opening -/

/-- An attempt to open the file of a log keeps the files beside it, and the file stands where the path says. -/
structure OpensBeside (path : RawText) (fs : Files) (x : Files × Except LogFault LogFile) : Prop where
  keeps : KeepsBeside (fs.placeOf path) fs x.1
  place (file : LogFile) : x.2 = .ok file → ∀ p, file.place? = some p → p = fs.placeOf path

private theorem OpensBeside.of_error (h : KeepsBeside (fs.placeOf path) fs fs') (e : LogFault) :
    OpensBeside path fs (fs', .error e) :=
  ⟨h, fun _ hfile => (by cases hfile)⟩

private theorem OpensBeside.of_place? (h : KeepsBeside (fs.placeOf path) fs fs')
    (hplace : ∀ p, file.place? = some p → p = fs.placeOf path) : OpensBeside path fs (fs', .ok file) :=
  ⟨h, fun _ hfile => Except.ok.inj hfile ▸ hplace⟩

/-- What is opened after other changes to the files is opened as in the tree before them. -/
private theorem OpensBeside.of_keeps {x : Files × Except LogFault LogFile} (h : KeepsBeside (fs.placeOf path) fs fs')
    (hx : OpensBeside path fs' x) : OpensBeside path fs x := by
  have hplace := Files.placeOf_congr h.start_eq path
  obtain ⟨hkeeps, hfile⟩ := hx
  rw [hplace] at hkeeps hfile
  exact ⟨h.trans hkeeps, hfile⟩

theorem openNew_beside (fs : Files) (path : RawText) : OpensBeside path fs (openNew fs path) := by
  have hextends := fs.extends_makeDirectories (Path.directory path)
  unfold openNew
  split
  · rename_i hmake
    rw [hmake] at hextends
    exact .of_error (hextends.keepsBeside _) _
  · rename_i fs₁ hmake
    rw [hmake] at hextends
    refine .of_keeps (hextends.keepsBeside _) ?_
    have hmade {place : Place} (hplace : place = fs₁.placeOf path) :
        ∀ p, (LogFile.made place 0).place? = some p → p = fs₁.placeOf path :=
      fun _ hp => (Option.some.inj hp).symm.trans hplace
    dsimp only [Files.left]
    split
    · exact .of_error (.refl _ fs₁) _
    · rename_i place hfind
      have hplace := Files.eq_placeOf_of_find hfind
      exact .of_place? (hplace ▸ Files.keepsBeside_insert fs₁ place "") (hmade hplace)
    · rename_i place _ hfind
      have hplace := Files.eq_placeOf_of_find hfind
      split
      · exact .of_error (.refl _ fs₁) _
      · rename_i hrename
        have hroot : place ≠ .root := by
          rintro rfl
          simp [renameFault?] at hrename
        exact .of_place? (hplace ▸ Files.keepsBeside_supplant fs₁ hroot "") (hmade hplace)

theorem openFile_beside (fs : Files) (path : RawText) (bytes : Nat) :
    OpensBeside path fs (openFile fs path bytes) := by
  unfold openFile
  split
  · split
    · exact openNew_beside fs path
    · exact .of_error (.refl _ fs) _
  · rename_i place text hfind
    split
    · exact openNew_beside fs path
    · exact .of_place? (.refl _ fs) fun p hp => (Option.some.inj hp).symm.trans (Files.eq_placeOf_of_find hfind)
  · exact openNew_beside fs path

theorem openFor_beside (h : ∀ p, file.place? = some p → p = fs.placeOf path) (bytes : Nat) :
    OpensBeside path fs (openFor fs path bytes file) := by
  have hopened : OpensBeside path fs (if file = .closed then openFile fs path bytes else (fs, .ok file)) := by
    split
    · exact openFile_beside fs path bytes
    · exact .of_place? (.refl _ fs) h
  unfold openFor
  split
  · exact .of_error (.refl _ fs) _
  · generalize (if file = .closed then openFile fs path bytes else (fs, .ok file)) = x at hopened ⊢
    obtain ⟨fs₁, e | file₁⟩ := x
    · exact hopened
    · dsimp only
      split
      · -- the file is full
        exact .of_keeps hopened.keeps (openNew_beside fs₁ path)
      · exact hopened

theorem LogFile.add_beside (h : ∀ p, file.place? = some p → p = q) (fs : Files) (line : String) :
    KeepsBeside q fs (file.add fs line).1 ∧ ∀ p, (file.add fs line).2.place? = some p → p = q := by
  cases file with
  | closed => exact ⟨.refl q fs, h⟩
  | gone size => exact ⟨.refl q fs, h⟩
  | found place size =>
    obtain rfl := h place rfl
    exact ⟨Files.keepsBeside_insert fs place _, h⟩
  | made place size =>
    obtain rfl := h place rfl
    exact ⟨Files.keepsBeside_insert fs place _, h⟩

/-! ### Writing lines -/

namespace Output

variable {o : Output}

/-- The output has kept the files beside its own, which stands at the place of the path. -/
structure Beside (path : RawText) (fs : Files) (o : Output) : Prop where
  place (p : Place) : o.file.place? = some p → p = fs.placeOf path
  keeps : KeepsBeside (fs.placeOf path) fs o.files

theorem beside_start (path : RawText) (fs : Files) : Beside path fs (start fs) :=
  ⟨fun _ h => (by cases h), .refl _ fs⟩

/-- What was kept so far is not asked for again. -/
theorem Beside.self (h : o.Beside path fs) : o.Beside path o.files :=
  ⟨fun p hp => (h.place p hp).trans (Files.placeOf_congr h.keeps.start_eq path).symm, .refl _ _⟩

/-- The file of the log stands where it stood, while others are written. -/
theorem Beside.moved (h : o.Beside path o.files) (hstart : fs'.start = o.files.start) :
    Beside path fs' { o with files := fs' } :=
  ⟨fun p hp => (h.place p hp).trans (Files.placeOf_congr hstart path).symm, .refl _ _⟩

theorem Beside.addLine (h : o.Beside path fs) (line : String) : (o.addLine path line).Beside path fs := by
  have hplace : o.files.placeOf path = fs.placeOf path := Files.placeOf_congr h.keeps.start_eq path
  obtain ⟨hkeeps, hfile⟩ := openFor_beside (fun p hp => (h.place p hp).trans hplace.symm) line.utf8ByteSize
  rw [hplace] at hkeeps hfile
  unfold Output.addLine
  split
  · -- a file that cannot be opened leaves the tree as the attempt left it
    rename_i fs₁ f hopened
    rw [hopened] at hkeeps
    refine ⟨fun p hp => ?_, h.keeps.trans hkeeps⟩
    cases f with
    | tooLong bytes => exact h.place p hp
    | operation doing cause => cases hp
  · rename_i fs₁ file hopened
    rw [hopened] at hkeeps hfile
    obtain ⟨hadded, hfile'⟩ := file.add_beside (hfile file rfl) fs₁ line
    exact ⟨hfile', h.keeps.trans (hkeeps.trans hadded)⟩

/-- One record keeps the files beside that of the log. -/
theorem Beside.write (h : o.Beside path fs) (set : Level) (time : String) (r : Record) :
    (o.write set path time r).Beside path fs := by
  unfold Output.write
  split
  · exact h
  · dsimp only
    have hsaid : Beside path fs { o with text := o.text ++ r.line time, noted := o.noted ++ r.line time } :=
      ⟨h.place, h.keeps⟩
    split
    · exact hsaid
    · exact hsaid.addLine (r.line time)

theorem Beside.foldl_write (h : o.Beside path fs) (set : Level) (time : String) (records : List Record) :
    (records.foldl (Output.write set path time) o).Beside path fs := by
  induction records generalizing o with
  | nil => exact h
  | cons r records ih => exact ih (h.write set time r)

theorem files_replaced (o : Output) (place : Place) : (o.replaced place).files = o.files := by
  unfold Output.replaced
  split <;> rfl

theorem Beside.replaced (h : o.Beside path fs) (place : Place) : (o.replaced place).Beside path fs := by
  unfold Output.replaced
  split
  · exact ⟨fun _ hgone => (by cases hgone), h.keeps⟩
  · exact h

end Output

end CliffordT.Log
