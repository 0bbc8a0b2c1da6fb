import Mathlib
import Interlude.Proofs.Files.Changes

/-!
# Following paths

Whether a path leads somewhere depends on the folders alone. So what a path leads to stays the same
as long as no folder goes away, a file that was written is found under the path that it was written
to, and a folder that was made once is found there from then on.
-/

namespace Interlude

namespace FileTree

variable {t t' : FileTree} {place p : Place} {path name : String} {way : List String}
  {bytes : ByteArray}

/-! ### Folders -/

/-- There is a folder at a place. -/
def HasFolder (t : FileTree) (place : Place) : Prop :=
  place.isEmpty ∨ place ∈ t.folders

instance (t : FileTree) (place : Place) : Decidable (t.HasFolder place) :=
  inferInstanceAs (Decidable (_ ∨ _))

/-- What lies at the place of a folder is the folder. -/
theorem node?_of_hasFolder (h : t.HasFolder place) : t.node? place = some .folder :=
  if_pos h

/-- Where no folder is there is the file, if any. -/
theorem node?_of_not_hasFolder (h : ¬ t.HasFolder place) :
    t.node? place = (t.files.lookup place).map .file :=
  if_neg h

/-- A folder that is needed has to be there. -/
theorem needFolder_eq_ok_iff : t.needFolder place = .ok () ↔ t.HasFolder place := by
  by_cases h : t.HasFolder place
  · simp [needFolder, node?_of_hasFolder h, h]
  · rw [needFolder, node?_of_not_hasFolder h]
    cases t.files.lookup place <;> simp [h]

/-- There is no folder where a file is. -/
theorem not_hasFolder_of_file? (h : t.file? place = some bytes) : ¬ t.HasFolder place := by
  intro hfolder
  rw [file?, node?_of_hasFolder hfolder] at h
  contradiction

/-- What lies at a place is the file there if there is one. -/
theorem node?_eq_some_file_iff : t.node? place = some (.file bytes) ↔ t.file? place = some bytes := by
  rw [file?]
  cases t.node? place with
  | none => simp
  | some node => cases node <;> simp

/-- Nothing lies at a place where neither a folder nor a file is. -/
theorem node?_eq_none_iff : t.node? place = none ↔ ¬ t.HasFolder place ∧ t.file? place = none := by
  by_cases hfolder : t.HasFolder place
  · simp [node?_of_hasFolder hfolder, hfolder]
  · rw [file?, node?_of_not_hasFolder hfolder]
    cases t.files.lookup place <;> simp [hfolder]

/-! ### Following steps -/

/-- Steps are followed one after the other. -/
theorem follow_append (t : FileTree) (place : Place) (first second : List String) :
    t.follow place (first ++ second) = (t.follow place first >>= fun p => t.follow p second) := by
  induction first generalizing place with
  | nil => rfl
  | cons step first ih =>
    rw [List.cons_append, follow, follow]
    cases t.needFolder place with
    | error e => rfl
    | ok _ =>
      change (if _ then _ else _) = ((if _ then _ else _) >>= _)
      split
      · exact ih place
      · split
        · exact ih place.dropLast
        · split
          · rfl
          · exact ih (place ++ [step])

/-- A name leads from a folder to its place in it. -/
theorem follow_name (hfolder : t.HasFolder place) (hempty : name ≠ "") (hdot : name ≠ ".")
    (hup : name ≠ "..") (hsize : name.utf8ByteSize ≤ longestName) :
    t.follow place [name] = .ok (place ++ [name]) := by
  rw [follow, needFolder_eq_ok_iff.mpr hfolder]
  simp [hempty, hdot, hup, Nat.not_lt.mpr hsize, follow]
  rfl

/-- The step that stays leads to the folder itself. -/
theorem follow_dot (hfolder : t.HasFolder place) : t.follow place ["."] = .ok place := by
  rw [follow, needFolder_eq_ok_iff.mpr hfolder]
  rfl

/-- The step up leads to the folder above. -/
theorem follow_up (hfolder : t.HasFolder place) : t.follow place [".."] = .ok place.dropLast := by
  rw [follow, needFolder_eq_ok_iff.mpr hfolder]
  rfl

/-- A name that is too long leads nowhere. -/
theorem follow_long (hfolder : t.HasFolder place) (hsize : longestName < name.utf8ByteSize) :
    t.follow place [name] = .error .longName := by
  have hne : ∀ short : String, short.utf8ByteSize ≤ longestName → name ≠ short := by
    rintro short hshort rfl
    exact absurd hsize (Nat.not_lt.mpr hshort)
  rw [follow, needFolder_eq_ok_iff.mpr hfolder, ok_bind,
    if_neg (not_or.mpr ⟨hne "" (by decide), hne "." (by decide)⟩), if_neg (hne ".." (by decide)),
    if_pos hsize]
  rfl

/-- A step can only be taken from a folder. -/
theorem hasFolder_of_follow_cons {step : String} (h : t.follow place (step :: way) = .ok p) :
    t.HasFolder place := by
  obtain ⟨_, hneed, _⟩ := exists_ok_of_bind h
  exact needFolder_eq_ok_iff.mp hneed

/-- A step that is taken leads where its word leads. -/
theorem follow_resolve_of_follow_cons {step : String} (h : t.follow place (step :: way) = .ok p) :
    t.follow (Place.resolve place [step]) way = .ok p := by
  obtain ⟨_, _, h⟩ := exists_ok_of_bind h
  rw [Place.resolve]
  split at h
  · rename_i hstay
    rw [if_pos hstay]
    exact h
  · rename_i hstay
    rw [if_neg hstay]
    split at h
    · rename_i hup
      rw [if_pos hup]
      exact h
    · rename_i hup
      rw [if_neg hup]
      split at h
      · contradiction
      · exact h

/-- Empty steps stay in a folder. -/
theorem follow_replicate_empty (hfolder : t.HasFolder place) (n : Nat) :
    t.follow place (List.replicate n "") = .ok place := by
  induction n with
  | zero => rfl
  | succ n ih =>
    rw [List.replicate_succ, follow, needFolder_eq_ok_iff.mpr hfolder]
    exact ih

/-- Steps that can be followed can be followed where there are more folders. -/
theorem follow_of_subset (hsub : t.folders ⊆ t'.folders) (h : t.follow place way = .ok p) :
    t'.follow place way = .ok p := by
  induction way generalizing place with
  | nil => exact h
  | cons step rest ih =>
    have hfolder : t'.HasFolder place := (hasFolder_of_follow_cons h).imp_right (hsub ·)
    obtain ⟨_, _, h⟩ := exists_ok_of_bind h
    rw [follow, needFolder_eq_ok_iff.mpr hfolder]
    change (if _ then _ else _) = _
    split at h
    · rename_i hstay
      rw [if_pos hstay]
      exact ih h
    · rename_i hstay
      rw [if_neg hstay]
      split at h
      · rename_i hup
        rw [if_pos hup]
        exact ih h
      · rename_i hup
        rw [if_neg hup]
        split at h
        · contradiction
        · rename_i hsize
          rw [if_neg hsize]
          exact ih h

/-! ### Paths -/

/-- A path that leads to a place is one that file systems take, and its parts lead there. -/
theorem placeOf_eq_ok_iff :
    t.placeOf path = .ok p ↔
      checkPath path = .ok () ∧ t.follow (t.origin path) (Path.parts path) = .ok p := by
  constructor
  · intro h
    obtain ⟨_, hcheck, h⟩ := exists_ok_of_bind h
    exact ⟨hcheck, h⟩
  · rintro ⟨hcheck, h⟩
    rw [placeOf, hcheck]
    exact h

/-- The place that a path leads to is told by its words. -/
theorem destination_of_placeOf (h : t.placeOf path = .ok p) : p = Path.destination t.here path :=
  resolve_of_follow (placeOf_eq_ok_iff.mp h).2

/-- The bytes that are read are those of the file at the end of the path. -/
theorem read_eq_ok_iff :
    t.read path = .ok bytes ↔ ∃ p, t.placeOf path = .ok p ∧ t.file? p = some bytes := by
  constructor
  · intro h
    obtain ⟨p, hplace, h⟩ := exists_ok_of_bind h
    refine ⟨p, hplace, ?_⟩
    split at h
    · rename_i found hfile
      rw [← Except.ok.inj h]
      exact node?_eq_some_file_iff.mp hfile
    · contradiction
    · contradiction
  · rintro ⟨p, hplace, hfile⟩
    rw [read, hplace, ok_bind, node?_eq_some_file_iff.mpr hfile]
    rfl

/-- Reading a path that leads to no folder gives the bytes of the file there, or the file is missing. -/
theorem read_of_placeOf (hplace : t.placeOf path = .ok p) (hfolder : ¬ t.HasFolder p) :
    t.read path = match t.file? p with
      | some bytes => .ok bytes
      | none => .error .missing := by
  rw [read, hplace, ok_bind, file?, node?_of_not_hasFolder hfolder]
  cases t.files.lookup p <;> rfl

/-- There is a folder at the end of a path if the path leads to one. -/
theorem isFolder_iff : t.isFolder path = true ↔ ∃ p, t.placeOf path = .ok p ∧ t.HasFolder p := by
  rw [isFolder]
  cases hplace : t.placeOf path with
  | error e => simp
  | ok p =>
    simp only [Except.ok.injEq, exists_eq_left', ← needFolder_eq_ok_iff]
    cases t.needFolder p <;> simp [Except.isOk, Except.toBool]

/-- The parts of a path are its steps and some empty parts at the end. -/
theorem exists_parts_eq (path : String) :
    ∃ n, Path.parts path = steps path ++ List.replicate n "" := by
  have hparts := List.takeWhile_append_dropWhile (p := fun part : String => decide (part = ""))
    (l := (Path.parts path).reverse)
  have hparts := congrArg List.reverse hparts
  rw [List.reverse_append, List.reverse_reverse] at hparts
  refine ⟨((Path.parts path).reverse.takeWhile fun part => decide (part = "")).length, ?_⟩
  rw [steps]
  conv_lhs => rw [← hparts]
  congr 1
  rw [← List.length_reverse]
  apply List.eq_replicate_of_mem
  intro part hpart
  have hempty := List.mem_takeWhile_imp (List.mem_reverse.mp hpart)
  exact of_decide_eq_true hempty

/-- The last part of a path that ends with no slash is not empty. -/
theorem steps_eq_parts (hempty : path ≠ "") (hslash : path.endsWith "/" = false) :
    steps path = Path.parts path := by
  obtain ⟨n, hparts⟩ := exists_parts_eq path
  cases n with
  | zero => rw [hparts, List.replicate_zero, List.append_nil]
  | succ n =>
    exfalso
    have hlast : (Path.parts path).getLast? = some "" := by
      rw [hparts, List.replicate_succ']
      simp
    rw [← Bool.not_eq_true] at hslash
    apply hslash
    rw [Path.endsWith_slash_iff]
    -- The part after the last slash is the last one.
    by_cases hmem : '/' ∈ path.toList
    · obtain ⟨before, name, hpath, hname⟩ := Path.exists_eq_append_slash hmem
      rw [hpath, Path.parts_append_slash, Path.parts_of_no_slash hname, List.getLast?_concat] at hlast
      exact ⟨before, by rw [hpath, Option.some.inj hlast, String.append_empty]⟩
    · rw [Path.parts_of_no_slash hmem] at hlast
      exact absurd (Option.some.inj hlast) hempty

/-- The place of something new under the last step of a path, unless that step is refused. -/
def newEntry (t : FileTree) (path : String) (refusal : FileFault) (refused : String → Prop)
    [DecidablePred refused] : Except FileFault Place := do
  checkPath path
  match (steps path).getLast? with
  | none => throw refusal
  | some name =>
    let parent ← t.follow (t.origin path) (steps path).dropLast
    t.needFolder parent
    if refused name then throw refusal
    if longestName < name.utf8ByteSize then throw .longName
    return parent ++ [name]

/-- It lies in the folder to which the steps before the last one lead. -/
theorem newEntry_eq_ok_iff {refusal : FileFault} {refused : String → Prop} [DecidablePred refused] :
    t.newEntry path refusal refused = .ok place ↔ checkPath path = .ok () ∧
      ∃ before name parent, steps path = before ++ [name] ∧
        t.follow (t.origin path) before = .ok parent ∧ t.HasFolder parent ∧ ¬ refused name ∧
        name.utf8ByteSize ≤ longestName ∧ place = parent ++ [name] := by
  constructor
  · intro h
    obtain ⟨_, hcheck, h⟩ := exists_ok_of_bind h
    split at h
    · contradiction
    · rename_i name hlast
      obtain ⟨before, hsteps⟩ := List.getLast?_eq_some_iff.mp hlast
      obtain ⟨parent, hparent, h⟩ := exists_ok_of_bind h
      obtain ⟨_, hneed, h⟩ := exists_ok_of_bind h
      rw [hsteps, List.dropLast_concat] at hparent
      by_cases hrefused : refused name
      · rw [if_pos hrefused] at h
        contradiction
      · rw [if_neg hrefused] at h
        split at h
        · contradiction
        · rename_i hsize
          exact ⟨hcheck, before, name, parent, hsteps, hparent, needFolder_eq_ok_iff.mp hneed,
            hrefused, Nat.not_lt.mp hsize, (Except.ok.inj h).symm⟩
  · rintro ⟨hcheck, before, name, parent, hsteps, hparent, hfolder, hrefused, hsize, rfl⟩
    have hlast : (steps path).getLast? = some name := by rw [hsteps, List.getLast?_concat]
    rw [newEntry, hcheck, ok_bind, hlast, hsteps, List.dropLast_concat]
    dsimp only
    rw [hparent, ok_bind, needFolder_eq_ok_iff.mpr hfolder, ok_bind, if_neg hrefused]
    exact if_neg (Nat.not_lt.mpr hsize)

/-- A new file lies under the last step of its path, in the folder to which the steps before lead. -/
theorem newPlace_eq_ok_iff :
    t.newPlace path = .ok place ↔ checkPath path = .ok () ∧ path.endsWith "/" = false ∧
      ∃ before name parent, steps path = before ++ [name] ∧
        t.follow (t.origin path) before = .ok parent ∧ t.HasFolder parent ∧ name ≠ "." ∧
        name ≠ ".." ∧ name.utf8ByteSize ≤ longestName ∧ place = parent ++ [name] := by
  have hentry : t.newPlace path =
      t.newEntry path .isFolder fun name => name = "." ∨ name = ".." ∨ path.endsWith "/" := rfl
  rw [hentry, newEntry_eq_ok_iff]
  simp only [not_or, Bool.not_eq_true]
  constructor
  · rintro ⟨hcheck, before, name, parent, hsteps, hparent, hfolder, ⟨hdot, hup, hslash⟩, h⟩
    exact ⟨hcheck, hslash, before, name, parent, hsteps, hparent, hfolder, hdot, hup, h⟩
  · rintro ⟨hcheck, hslash, before, name, parent, hsteps, hparent, hfolder, hdot, hup, h⟩
    exact ⟨hcheck, before, name, parent, hsteps, hparent, hfolder, ⟨hdot, hup, hslash⟩, h⟩

/-- File systems take the paths that hold no NUL, are not empty and not too long. -/
theorem checkPath_eq_ok_iff : checkPath path = .ok () ↔
    '\x00' ∉ path.toList ∧ path ≠ "" ∧ path.utf8ByteSize ≤ longestPath := by
  unfold checkPath
  by_cases hnul : '\x00' ∈ path.toList
  · rw [if_pos hnul]
    exact ⟨fun h => absurd h (by rintro ⟨⟩), fun h => absurd hnul h.1⟩
  · by_cases hempty : path.isEmpty = true
    · simp [String.isEmpty_iff.mp hempty]
    · have hne : path ≠ "" := fun h => hempty (String.isEmpty_iff.mpr h)
      by_cases hlong : longestPath < path.utf8ByteSize
      · simp [hnul, hempty, hlong, Nat.not_le.mpr hlong]
      · simp [hnul, hempty, hne, hlong, Nat.not_lt.mp hlong, pure, Except.pure]

/-- A path that file systems take is not empty. -/
theorem ne_empty_of_checkPath (h : checkPath path = .ok ()) : path ≠ "" :=
  (checkPath_eq_ok_iff.mp h).2.1

/-- A new file is found under its path. -/
theorem placeOf_of_newPlace (h : t.newPlace path = .ok place) : t.placeOf path = .ok place := by
  obtain ⟨hcheck, hslash, before, name, parent, hsteps, hparent, hfolder, hdot, hup, hsize, rfl⟩ :=
    newPlace_eq_ok_iff.mp h
  have hlast : (steps path).getLast? = some name := by rw [hsteps, List.getLast?_concat]
  refine placeOf_eq_ok_iff.mpr ⟨hcheck, ?_⟩
  rw [← steps_eq_parts (ne_empty_of_checkPath hcheck) hslash, hsteps, follow_append, hparent]
  exact follow_name hfolder (ne_empty_of_getLast?_steps hlast) hdot hup hsize

/-! ### Writing -/

/-- Writing succeeds where a file can be made and no folder is. -/
theorem write_eq_ok_iff :
    t.write path bytes = .ok t' ↔ ∃ place, t.newPlace path = .ok place ∧ ¬ t.HasFolder place ∧
      t' = { t with files := put place bytes t.files } := by
  constructor
  · intro h
    obtain ⟨place, hplace, h⟩ := exists_ok_of_bind h
    split at h
    · contradiction
    · rename_i hnode
      exact ⟨place, hplace, fun hfolder => hnode (node?_of_hasFolder hfolder),
        (Except.ok.inj h).symm⟩
  · rintro ⟨place, hplace, hfolder, rfl⟩
    rw [write, hplace, ok_bind, node?_of_not_hasFolder hfolder]
    cases t.files.lookup place <;> rfl

/-- A file can be written where a file can be made and no folder is. -/
theorem exists_write (hplace : t.newPlace path = .ok place) (hfolder : ¬ t.HasFolder place)
    (bytes : ByteArray) : ∃ t', t.write path bytes = .ok t' :=
  ⟨_, write_eq_ok_iff.mpr ⟨place, hplace, hfolder, rfl⟩⟩

/-- No file can be written where a folder is. -/
theorem write_of_hasFolder (hplace : t.newPlace path = .ok place) (hfolder : t.HasFolder place)
    (bytes : ByteArray) : t.write path bytes = .error .isFolder := by
  rw [write, hplace, ok_bind, node?_of_hasFolder hfolder]
  rfl

/-- Writing makes no folder and takes none away. -/
theorem folders_write (h : t.write path bytes = .ok t') : t'.folders = t.folders := by
  obtain ⟨_, _, _, rfl⟩ := write_eq_ok_iff.mp h
  rfl

/-- After writing there is the file at the place of its path, and what was there before elsewhere. -/
theorem node?_write (h : t.write path bytes = .ok t') (p : Place) :
    t'.node? p = if p = Path.destination t.here path then some (.file bytes) else t.node? p := by
  by_cases hp : p = Path.destination t.here path
  · rw [if_pos hp, node?_eq_some_file_iff, file?_write h, if_pos hp]
  · obtain ⟨place, hplace, _, rfl⟩ := write_eq_ok_iff.mp h
    rw [if_neg hp]
    rw [← (of_newPlace hplace).1] at hp
    rw [node?, node?, lookup_put, if_neg hp]

/-- What was written is read under the same path. -/
theorem read_of_write (h : t.write path bytes = .ok t') : t'.read path = .ok bytes := by
  obtain ⟨place, hplace, _⟩ := write_eq_ok_iff.mp h
  obtain ⟨hcheck, hfollow⟩ := placeOf_eq_ok_iff.mp (placeOf_of_newPlace hplace)
  have horigin : t'.origin path = t.origin path := by rw [origin, origin, here_write h]
  refine read_eq_ok_iff.mpr ⟨place, placeOf_eq_ok_iff.mpr ⟨hcheck, ?_⟩, ?_⟩
  · rw [horigin]
    exact follow_of_subset (by rw [folders_write h]; exact List.Subset.refl _) hfollow
  · rw [file?_write h, if_pos (of_newPlace hplace).1]

/-- The operation of writing makes no folder and takes none away. -/
theorem folders_run_writeFile (path : String) (bytes : ByteArray) (t : FileTree) :
    ((FileStore.writeFile path bytes : StateM FileTree _).run t).2.folders = t.folders := by
  rw [run_writeFile]
  cases h : t.write path bytes with
  | error fault => rfl
  | ok t' => exact folders_write h

/-- Where the operation of writing succeeds the file was written. -/
theorem of_run_writeFile
    (h : ((FileStore.writeFile path bytes : StateM FileTree _).run t).1 = .ok ()) :
    t.write path bytes = .ok ((FileStore.writeFile path bytes : StateM FileTree _).run t).2 := by
  rw [run_writeFile] at h ⊢
  cases hwrite : t.write path bytes with
  | error fault =>
    rw [hwrite] at h
    cases h
  | ok t' => rfl

/-! ### More folders -/

/-- One tree has the folders of the other, and relative paths begin at the same place. -/
structure Extends (t t' : FileTree) : Prop where
  here_eq : t'.here = t.here
  folders_subset : t.folders ⊆ t'.folders

/-- A tree has its own folders. -/
theorem Extends.refl (t : FileTree) : Extends t t :=
  ⟨rfl, List.Subset.refl _⟩

/-- Having the folders carries over from tree to tree. -/
theorem Extends.trans {u : FileTree} (h : Extends t t') (h' : Extends t' u) : Extends t u :=
  ⟨h'.here_eq.trans h.here_eq, List.Subset.trans h.folders_subset h'.folders_subset⟩

instance : IsPreorder FileTree Extends where
  refl := Extends.refl
  trans _ _ _ := Extends.trans

/-- A folder is a folder of the larger tree. -/
theorem Extends.hasFolder (h : Extends t t') (hfolder : t.HasFolder place) : t'.HasFolder place :=
  hfolder.imp_right (h.folders_subset ·)

/-- A path begins at the same place in both trees. -/
theorem Extends.origin_eq (h : Extends t t') (path : String) : t'.origin path = t.origin path := by
  rw [origin, origin, h.here_eq]

/-- A path leads to the same place in the larger tree. -/
theorem Extends.placeOf (h : Extends t t') (hplace : t.placeOf path = .ok p) :
    t'.placeOf path = .ok p := by
  obtain ⟨hcheck, hfollow⟩ := placeOf_eq_ok_iff.mp hplace
  refine placeOf_eq_ok_iff.mpr ⟨hcheck, ?_⟩
  rw [h.origin_eq]
  exact follow_of_subset h.folders_subset hfollow

/-- A new file has the same place in the larger tree. -/
theorem Extends.newPlace (h : Extends t t') (hplace : t.newPlace path = .ok place) :
    t'.newPlace path = .ok place := by
  obtain ⟨hcheck, hslash, before, name, parent, hsteps, hparent, hfolder, hrest⟩ :=
    newPlace_eq_ok_iff.mp hplace
  refine newPlace_eq_ok_iff.mpr ⟨hcheck, hslash, before, name, parent, hsteps, ?_,
    h.hasFolder hfolder, hrest⟩
  rw [h.origin_eq]
  exact follow_of_subset h.folders_subset hparent

/-- A path that leads to a folder does so in the larger tree. -/
theorem Extends.isFolder (h : Extends t t') (hfolder : t.isFolder path = true) :
    t'.isFolder path = true := by
  obtain ⟨p, hplace, hp⟩ := isFolder_iff.mp hfolder
  exact isFolder_iff.mpr ⟨p, h.placeOf hplace, h.hasFolder hp⟩

/-- Writing keeps the folders. -/
theorem extends_write (h : t.write path bytes = .ok t') : Extends t t' :=
  ⟨here_write h, by rw [folders_write h]; exact List.Subset.refl _⟩

/-! ### Making folders -/

/-- A new folder lies under the last step of its path, in the folder to which the steps before lead. -/
theorem newFolderPlace_eq_ok_iff :
    t.newFolderPlace path = .ok place ↔ checkPath path = .ok () ∧
      ∃ before name parent, steps path = before ++ [name] ∧
        t.follow (t.origin path) before = .ok parent ∧ t.HasFolder parent ∧ name ≠ "." ∧
        name ≠ ".." ∧ name.utf8ByteSize ≤ longestName ∧ place = parent ++ [name] := by
  have hentry : t.newFolderPlace path =
      t.newEntry path .alreadyThere fun name => name = "." ∨ name = ".." := rfl
  rw [hentry, newEntry_eq_ok_iff]
  simp only [not_or, and_assoc]

/-- The place of a new folder is where its path leads once the folder is there. -/
theorem placeOf_of_newFolderPlace (h : t.newFolderPlace path = .ok place) (hext : Extends t t')
    (hfolder : t'.HasFolder place) : t'.placeOf path = .ok place := by
  obtain ⟨hcheck, before, name, parent, hsteps, hparent, hneed, hdot, hup, hsize, rfl⟩ :=
    newFolderPlace_eq_ok_iff.mp h
  have hlast : (steps path).getLast? = some name := by rw [hsteps, List.getLast?_concat]
  obtain ⟨n, hparts⟩ := exists_parts_eq path
  refine placeOf_eq_ok_iff.mpr ⟨hcheck, ?_⟩
  rw [hparts, hsteps, follow_append, follow_append, hext.origin_eq,
    follow_of_subset hext.folders_subset hparent]
  change (t'.follow parent [name] >>= _) = _
  rw [follow_name (hext.hasFolder hneed) (ne_empty_of_getLast?_steps hlast) hdot hup hsize]
  exact follow_replicate_empty hfolder n

/-- Making a folder adds the folder to which its path leads from then on. -/
theorem of_createFolder (h : t.createFolder path = .ok t') :
    Extends t t' ∧ t'.isFolder path = true := by
  obtain ⟨place, hplace, h⟩ := exists_ok_of_bind h
  split at h
  · contradiction
  · obtain rfl := Except.ok.inj h
    have hext : Extends t { t with folders := place :: t.folders } :=
      ⟨rfl, List.subset_cons_self _ _⟩
    have hfolder : HasFolder { t with folders := place :: t.folders } place :=
      Or.inr List.mem_cons_self
    exact ⟨hext, isFolder_iff.mpr ⟨place, placeOf_of_newFolderPlace hplace hext hfolder, hfolder⟩⟩

/-- No folder is made where one is. -/
theorem createFolder_of_isFolder (h : t.isFolder path = true) :
    ∃ e, t.createFolder path = .error e := by
  cases hcreate : t.createFolder path with
  | error e => exact ⟨e, rfl⟩
  | ok t' =>
    exfalso
    obtain ⟨place, hplace, hcreate⟩ := exists_ok_of_bind hcreate
    split at hcreate
    · contradiction
    · rename_i hnode
      obtain ⟨p, hp, hfolder⟩ := isFolder_iff.mp h
      -- Once the folder is made, the path leads to it, but it leads to the same place before.
      have hext : Extends t { t with folders := place :: t.folders } :=
        ⟨rfl, List.subset_cons_self _ _⟩
      have hmade := placeOf_of_newFolderPlace hplace hext (Or.inr List.mem_cons_self)
      rw [hext.placeOf hp] at hmade
      rw [← Except.ok.inj hmade, node?_of_hasFolder hfolder] at hnode
      contradiction

/-- To make sure of a folder it is made, or found there. -/
theorem run_ensureFolder (path : String) (t : FileTree) :
    (FileStore.ensureFolder path : StateM FileTree _).run t =
      match t.createFolder path with
      | .ok t' => (.ok (), t')
      | .error e => (if t.isFolder path then .ok () else .error e, t) := by
  rw [FileStore.ensureFolder, StateT.run_bind, run_createFolder]
  cases t.createFolder path with
  | ok t' => rfl
  | error e => rfl

/-- What is done to make sure of a folder only adds folders, and a success means that it is there. -/
theorem of_run_ensureFolder (path : String) (t : FileTree) :
    let ran := (FileStore.ensureFolder path : StateM FileTree _).run t
    Extends t ran.2 ∧ (ran.1 = .ok () → ran.2.isFolder path = true) := by
  rw [run_ensureFolder]
  cases hcreate : t.createFolder path with
  | ok t' =>
    obtain ⟨hext, hfolder⟩ := of_createFolder hcreate
    exact ⟨hext, fun _ => hfolder⟩
  | error e =>
    refine ⟨Extends.refl t, fun hok => ?_⟩
    by_contra hfolder
    simp [hfolder] at hok

/-- To make sure of a folder that is there changes nothing. -/
theorem run_ensureFolder_of_isFolder (h : t.isFolder path = true) :
    (FileStore.ensureFolder path : StateM FileTree _).run t = (.ok (), t) := by
  obtain ⟨e, hcreate⟩ := createFolder_of_isFolder h
  rw [run_ensureFolder, hcreate]
  dsimp only
  rw [if_pos h]

/-- To make sure of a folder, the folders above it are looked after only if it cannot be made without
them. -/
theorem run_ensureFirst_cons (path : String) (above : List String) (t : FileTree) :
    (FileStore.ensureFirst (path :: above) : StateM FileTree _).run t =
      match (FileStore.ensureFolder path : StateM FileTree _).run t with
      | (.error .missing, u) =>
        match (FileStore.ensureFirst above : StateM FileTree _).run u with
        | (.ok (), u') => (FileStore.ensureFolder path : StateM FileTree _).run u'
        | (.error e, u') => (.error e, u')
      | ran => ran := by
  rw [FileStore.ensureFirst, StateT.run_bind]
  rcases (FileStore.ensureFolder path : StateM FileTree _).run t with ⟨e | _, u⟩
  · cases e
    case missing =>
      change ((FileStore.ensureFirst above : StateM FileTree _) >>= _).run u =
        match (FileStore.ensureFirst above : StateM FileTree _).run u with
        | (.ok (), u') => (FileStore.ensureFolder path : StateM FileTree _).run u'
        | (.error e, u') => (.error e, u')
      rw [StateT.run_bind]
      rcases (FileStore.ensureFirst above : StateM FileTree _).run u with ⟨_ | _, u'⟩ <;> rfl
    all_goals rfl
  · rfl

/-- What is kept where one of some folders is made sure of is kept where the first one is. -/
theorem rel_ensureFirst {R : FileTree → FileTree → Prop} [IsPreorder FileTree R] {paths : List String}
    (h : ∀ path ∈ paths, ∀ t, R t ((FileStore.ensureFolder path : StateM FileTree _).run t).2)
    (t : FileTree) : R t ((FileStore.ensureFirst paths : StateM FileTree _).run t).2 := by
  induction paths generalizing t with
  | nil => exact refl_of R t
  | cons path above ih =>
    have hpath := h path List.mem_cons_self
    rw [run_ensureFirst_cons]
    have hfirst := hpath t
    split
    · rename_i u hrun
      rw [hrun] at hfirst
      have habove := ih (fun next hnext => h next (List.mem_cons_of_mem path hnext)) u
      split
      · rename_i u' hrest
        rw [hrest] at habove
        exact trans_of R (trans_of R hfirst habove) (hpath u')
      · rename_i e u' hrest
        rw [hrest] at habove
        exact trans_of R hfirst habove
    · exact hfirst

/-- Where the first of some folders was made sure of, it is there. -/
theorem isFolder_of_run_ensureFirst {above : List String}
    (h : (FileStore.ensureFirst (path :: above) : StateM FileTree _).run t = (.ok (), t')) :
    t'.isFolder path = true := by
  have hensured : ∀ u, (FileStore.ensureFolder path : StateM FileTree _).run u = (.ok (), t') →
      t'.isFolder path = true := by
    intro u hrun
    have hfolder := (of_run_ensureFolder path u).2
    rw [hrun] at hfolder
    exact hfolder rfl
  rw [run_ensureFirst_cons] at h
  split at h
  · split at h
    · exact hensured _ h
    · cases (Prod.mk.inj h).1
  · exact hensured t h

/-- What is done to make a folder with those above it only adds folders. -/
theorem extends_createFolders (path : String) (t : FileTree) :
    Extends t ((FileStore.createFolders path : StateM FileTree _).run t).2 := by
  unfold FileStore.createFolders
  split
  · exact Extends.refl t
  · exact rel_ensureFirst (fun path _ t => (of_run_ensureFolder path t).1) t

/-- A folder that was made with those above it is there. The empty path asks for none. -/
theorem isFolder_of_run_createFolders
    (h : (FileStore.createFolders path : StateM FileTree _).run t = (.ok (), t')) :
    path = "" ∨ t'.isFolder path = true := by
  unfold FileStore.createFolders at h
  split at h
  · rename_i hempty
    exact Or.inl (String.isEmpty_iff.mp hempty)
  · exact Or.inr (isFolder_of_run_ensureFirst h)

/-- To make a folder that is there changes nothing. -/
theorem run_createFolders_of_isFolder (h : path = "" ∨ t.isFolder path = true) :
    (FileStore.createFolders path : StateM FileTree _).run t = (.ok (), t) := by
  unfold FileStore.createFolders
  split
  · rfl
  · rename_i hempty
    have hfolder := h.resolve_left fun hpath => hempty (String.isEmpty_iff.mpr hpath)
    rw [run_ensureFirst_cons, run_ensureFolder_of_isFolder hfolder]

end FileTree

end Interlude
