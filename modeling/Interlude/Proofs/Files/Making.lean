import Mathlib
import Interlude.Proofs.Files.Following

/-!
# Where folders are made

A file that is named in an open folder has its place there, and a folder that is made there is the
only change. To make a folder with those above it, folders are only made at places to which the path
leads on its way.
-/

namespace Interlude

open Interlude.Path (parts join IsName)

variable {folder path name : String} {place p : Place}

namespace FileTree

variable {t t' : FileTree}

/-! ### Names in a folder -/

/-- A path of a folder leads to a place where a folder is. The empty path stands for the folder in
which relative paths begin. -/
def OpensAt (t : FileTree) (folder : String) (place : Place) : Prop :=
  t.HasFolder place ∧ (folder = "" ∧ place = t.here ∨ t.placeOf folder = .ok place)

/-- A path that leads to a folder does so where there are more folders. -/
theorem OpensAt.of_extends (h : t.OpensAt folder place) (hext : Extends t t') :
    t'.OpensAt folder place :=
  ⟨hext.hasFolder h.1, h.2.imp (fun hempty => ⟨hempty.1, hempty.2.trans hext.here_eq.symm⟩)
    hext.placeOf⟩

/-- The steps before a name that is joined to a folder lead to the place of the folder. -/
theorem OpensAt.exists_follow (h : t.OpensAt folder place) (hslash : '/' ∉ name.toList) :
    ∃ before, parts (join folder name) = before ++ [name] ∧
      t.follow (t.origin (join folder name)) before = .ok place := by
  obtain ⟨_, hplace⟩ := h
  have hname := Path.startsWith_of_no_slash hslash
  have hparts := Path.parts_of_no_slash hslash
  rcases Path.join_of_relative hname folder with
    ⟨rfl, hjoin⟩ | ⟨hempty, ⟨before, rfl, hjoin⟩ | hjoin⟩
  · refine ⟨[], by rw [hjoin, hparts]; rfl, ?_⟩
    rcases hplace with ⟨_, rfl⟩ | hplace
    · rw [hjoin, origin, hname]
      rfl
    · exact absurd rfl (ne_empty_of_checkPath (placeOf_eq_ok_iff.mp hplace).1)
  · obtain ⟨_, hfollow⟩ := placeOf_eq_ok_iff.mp (hplace.resolve_left fun h => hempty h.1)
    refine ⟨parts before, by rw [hjoin, Path.parts_append_slash, hparts], ?_⟩
    -- The folder is written with a slash at its end, after which nothing comes.
    rw [← String.append_empty (s := before ++ "/"), Path.parts_append_slash, follow_append] at hfollow
    obtain ⟨q, hbefore, hend⟩ := exists_ok_of_bind hfollow
    have hq := Except.ok.inj (follow_resolve_of_follow_cons hend)
    rw [hjoin, origin, Path.startsWith_slash_append hempty]
    rw [origin, String.append_empty] at hbefore
    rw [hbefore, ← hq]
    rfl
  · obtain ⟨_, hfollow⟩ := placeOf_eq_ok_iff.mp (hplace.resolve_left fun h => hempty h.1)
    refine ⟨parts folder, by rw [hjoin, Path.parts_append_slash, hparts], ?_⟩
    rw [hjoin, origin, String.append_assoc, Path.startsWith_slash_append hempty]
    exact hfollow

/-- A name is the last step of its path in an open folder. -/
theorem OpensAt.placeOf_join_eq (h : t.OpensAt folder place) (hslash : '/' ∉ name.toList) :
    t.placeOf (join folder name) =
      (checkPath (join folder name) >>= fun _ => t.follow place [name]) := by
  obtain ⟨before, hparts, hfollow⟩ := h.exists_follow hslash
  rw [placeOf, hparts, follow_append, hfollow]
  rfl

/-- A folder can be asked for where a name in it can. -/
theorem checkPath_of_join (h : checkPath (join folder name) = .ok ()) (hslash : '/' ∉ name.toList)
    (hfolder : folder ≠ "") : checkPath folder = .ok () := by
  obtain ⟨rest, hjoin⟩ : ∃ rest, join folder name = folder ++ rest := by
    rcases Path.join_of_relative (Path.startsWith_of_no_slash hslash) folder with
      ⟨hempty, _⟩ | ⟨_, ⟨_, _, hjoin⟩ | hjoin⟩
    · exact absurd hempty hfolder
    · exact ⟨name, hjoin⟩
    · exact ⟨"/" ++ name, by rw [hjoin, String.append_assoc]⟩
  rw [hjoin, checkPath_eq_ok_iff, String.toList_append, String.utf8ByteSize_append] at h
  obtain ⟨hnul, _, hsize⟩ := h
  exact checkPath_eq_ok_iff.mpr
    ⟨fun hmem => hnul (List.mem_append_left _ hmem), hfolder, by omega⟩

/-- A name leads to its place in an open folder. -/
theorem OpensAt.placeOf_join (h : t.OpensAt folder place) (hname : IsName name)
    (hsize : name.utf8ByteSize ≤ longestName) (hcheck : checkPath (join folder name) = .ok ()) :
    t.placeOf (join folder name) = .ok (place ++ [name]) := by
  rw [h.placeOf_join_eq hname.1, hcheck, ok_bind]
  exact follow_name h.1 hname.2.1 hname.2.2.1 hname.2.2.2 hsize

/-- The parts of a path that ends with a name are its steps, and the path does not end with a slash. -/
theorem steps_of_parts {before : List String} (hparts : parts path = before ++ [name])
    (hname : name ≠ "") : steps path = before ++ [name] ∧ path.endsWith "/" = false := by
  constructor
  · rw [steps, hparts]
    simp [hname]
  · rw [← Bool.not_eq_true, Path.endsWith_slash_iff]
    rintro ⟨start, rfl⟩
    rw [← String.append_empty (s := start ++ "/"), Path.parts_append_slash] at hparts
    have hlast := congrArg List.getLast? hparts
    rw [List.getLast?_concat, show parts "" = [""] from rfl, List.getLast?_concat] at hlast
    exact hname (Option.some.inj hlast).symm

/-- A file with a name can be made in an open folder. -/
theorem OpensAt.newPlace_join (h : t.OpensAt folder place) (hname : IsName name)
    (hsize : name.utf8ByteSize ≤ longestName) (hcheck : checkPath (join folder name) = .ok ()) :
    t.newPlace (join folder name) = .ok (place ++ [name]) := by
  obtain ⟨before, hparts, hfollow⟩ := h.exists_follow hname.1
  obtain ⟨hsteps, hslash⟩ := steps_of_parts hparts hname.2.1
  exact newPlace_eq_ok_iff.mpr ⟨hcheck, hslash, before, name, place, hsteps, hfollow, h.1,
    hname.2.2.1, hname.2.2.2, hsize, rfl⟩

/-- A folder with a name can be made in an open folder. -/
theorem OpensAt.newFolderPlace_join (h : t.OpensAt folder place) (hname : IsName name)
    (hsize : name.utf8ByteSize ≤ longestName) (hcheck : checkPath (join folder name) = .ok ()) :
    t.newFolderPlace (join folder name) = .ok (place ++ [name]) := by
  obtain ⟨before, hparts, hfollow⟩ := h.exists_follow hname.1
  obtain ⟨hsteps, _⟩ := steps_of_parts hparts hname.2.1
  exact newFolderPlace_eq_ok_iff.mpr ⟨hcheck, before, name, place, hsteps, hfollow, h.1,
    hname.2.2.1, hname.2.2.2, hsize, rfl⟩

/-- Another folder changes nothing elsewhere. -/
theorem node?_cons_folders (h : p ≠ place) :
    ({ t with folders := place :: t.folders } : FileTree).node? p = t.node? p := by
  simp [node?, h]

/-- Making a folder with a name in an open folder where nothing is adds it and nothing else. -/
theorem OpensAt.run_createFolders_join (h : t.OpensAt folder place) (hname : IsName name)
    (hsize : name.utf8ByteSize ≤ longestName) (hcheck : checkPath (join folder name) = .ok ())
    (hnone : t.node? (place ++ [name]) = none) :
    (FileStore.createFolders (join folder name) : StateM FileTree _).run t =
      (.ok (), { t with folders := (place ++ [name]) :: t.folders }) := by
  have hcreate : t.createFolder (join folder name) =
      .ok { t with folders := (place ++ [name]) :: t.folders } := by
    rw [createFolder, h.newFolderPlace_join hname hsize hcheck, ok_bind, hnone]
    rfl
  have hensure : (FileStore.ensureFolder (join folder name) : StateM FileTree _).run t =
      (.ok (), { t with folders := (place ++ [name]) :: t.folders }) := by
    rw [run_ensureFolder, hcreate]
  have hempty : ¬ (join folder name).isEmpty = true :=
    fun h => ne_empty_of_checkPath hcheck (String.isEmpty_iff.mp h)
  rw [FileStore.createFolders, if_neg hempty, run_ensureFirst_cons, hensure]

/-! ### Names that no file can have -/

/-- Why no file in a folder can have a name, if so. -/
def nameFault? (folder name : String) : Option FileFault :=
  if '\x00' ∈ name.toList then some .badName
  else if longestPath < (join folder name).utf8ByteSize then some .longName
  else if name = "." ∨ name = ".." then some .isFolder
  else if longestName < name.utf8ByteSize then some .longName
  else none

/-- No name is refused for a file that is missing. -/
theorem nameFault?_ne_missing (folder name : String) : nameFault? folder name ≠ some .missing := by
  unfold nameFault?
  split_ifs <;> simp

/-- The path of a name in an open folder is taken by file systems if the name holds no NUL and the
path is not too long. -/
theorem OpensAt.checkPath_join (h : t.OpensAt folder place) (hslash : '/' ∉ name.toList)
    (hempty : name ≠ "") : checkPath (join folder name) =
      if '\x00' ∈ name.toList then .error .badName
      else if longestPath < (join folder name).utf8ByteSize then .error .longName
      else .ok () := by
  have hfolder : '\x00' ∉ folder.toList := by
    rcases h.2 with ⟨rfl, _⟩ | hplace
    · decide +kernel
    · exact (checkPath_eq_ok_iff.mp (placeOf_eq_ok_iff.mp hplace).1).1
  obtain ⟨before, hjoin, hbefore⟩ :
      ∃ before, join folder name = before ++ name ∧ '\x00' ∉ before.toList := by
    rcases Path.join_of_relative (Path.startsWith_of_no_slash hslash) folder with
      ⟨_, hjoin⟩ | ⟨_, ⟨_, _, hjoin⟩ | hjoin⟩
    · exact ⟨"", by rw [hjoin, String.empty_append], by decide +kernel⟩
    · exact ⟨folder, hjoin, hfolder⟩
    · refine ⟨folder ++ "/", hjoin, ?_⟩
      rw [String.toList_append, List.mem_append]
      exact not_or.mpr ⟨hfolder, by decide +kernel⟩
  have hnul : '\x00' ∈ (join folder name).toList ↔ '\x00' ∈ name.toList := by
    rw [hjoin, String.toList_append, List.mem_append, or_iff_right hbefore]
  have hpath : ¬ (join folder name).isEmpty = true := by
    rw [String.isEmpty_iff, hjoin]
    exact fun hboth => hempty (String.append_eq_empty_iff.mp hboth).2
  rw [checkPath]
  simp only [hnul, if_neg hpath]
  split_ifs <;> rfl

/-- A file with a name is made at its place in an open folder, or refused for its name. -/
theorem OpensAt.newPlace_join_eq (h : t.OpensAt folder place) (hslash : '/' ∉ name.toList)
    (hempty : name ≠ "") : t.newPlace (join folder name) =
      match nameFault? folder name with
      | some fault => .error fault
      | none => .ok (place ++ [name]) := by
  obtain ⟨before, hparts, hfollow⟩ := h.exists_follow hslash
  obtain ⟨hsteps, hends⟩ := steps_of_parts hparts hempty
  rw [newPlace, h.checkPath_join hslash hempty, nameFault?, hsteps]
  dsimp only
  rw [List.getLast?_concat, List.dropLast_concat, hfollow, hends]
  dsimp only
  rw [ok_bind, needFolder_eq_ok_iff.mpr h.1]
  simp only [Bool.false_eq_true, or_false]
  split_ifs <;> rfl

/-- The path of a name in an open folder is followed to its place, or it leads to a folder, or it is
refused for the name. -/
theorem OpensAt.read_join (h : t.OpensAt folder place) (hup : t.HasFolder place.dropLast)
    (hslash : '/' ∉ name.toList) (hempty : name ≠ "") : t.read (join folder name) =
      match nameFault? folder name with
      | some fault => .error fault
      | none =>
        match t.node? (place ++ [name]) with
        | some (.file bytes) => .ok bytes
        | some .folder => .error .isFolder
        | none => .error .missing := by
  rw [read, h.placeOf_join_eq hslash, h.checkPath_join hslash hempty, nameFault?]
  by_cases hnul : '\x00' ∈ name.toList
  · rw [if_pos hnul, if_pos hnul]
    rfl
  by_cases hpath : longestPath < (join folder name).utf8ByteSize
  · rw [if_neg hnul, if_neg hnul, if_pos hpath, if_pos hpath]
    rfl
  rw [if_neg hnul, if_neg hnul, if_neg hpath, if_neg hpath, ok_bind]
  by_cases hdots : name = "." ∨ name = ".."
  · rw [if_pos hdots]
    rcases hdots with rfl | rfl
    · rw [follow_dot h.1, ok_bind, node?_of_hasFolder h.1]
      rfl
    · rw [follow_up h.1, ok_bind, node?_of_hasFolder hup]
      rfl
  obtain ⟨hdot, hdots⟩ := not_or.mp hdots
  by_cases hsize : longestName < name.utf8ByteSize
  · rw [if_neg (not_or.mpr ⟨hdot, hdots⟩), if_pos hsize, follow_long h.1 hsize]
    rfl
  · rw [if_neg (not_or.mpr ⟨hdot, hdots⟩), if_neg hsize,
      follow_name h.1 hempty hdot hdots (Nat.not_lt.mp hsize), ok_bind]
    rcases t.node? (place ++ [name]) with _ | _ | _ <;> rfl

/-! ### Folders on the way -/

/-- A path that is cut off before one of its slashes, or not at all. -/
def IsStart (start path : String) : Prop :=
  start = path ∨ start ≠ "" ∧ ∃ rest, path = start ++ "/" ++ rest

/-- The parts of a path make it up. -/
theorem intercalate_parts (path : String) : "/".intercalate (parts path) = path := by
  apply String.toList_inj.mp
  have hmap : (parts path).map String.toList = path.toList.splitOn '/' := by
    simp [parts, Function.comp_def]
  rw [String.toList_intercalate, hmap]
  exact List.intercalate_splitOn '/'

/-- The folders above a path are starts of it. -/
theorem isStart_of_mem_parents {start : String} (h : start ∈ Path.parents path) :
    IsStart start path := by
  obtain ⟨⟨step, i⟩, hstep, rfl⟩ := List.mem_map.mp h
  have hnamed := List.mem_filter.mp (List.dropLast_subset _ (List.mem_reverse.mp hstep))
  have hget : (parts path)[i]? = some step := by simpa using List.mem_zipIdx_iff_getElem?.mp hnamed.1
  have hne : step ≠ "" := (of_decide_eq_true hnamed.2).1
  have htake : (parts path).take (i + 1) = (parts path).take i ++ [step] := by
    rw [List.take_add_one, hget]
    rfl
  have hsplit := List.take_append_drop (i + 1) (parts path)
  have hpath := intercalate_parts path
  rw [← hsplit] at hpath
  have hstart : (parts path).take (i + 1) ≠ [] := by simp [htake]
  dsimp only
  by_cases hrest : (parts path).drop (i + 1) = []
  · rw [hrest, List.append_nil] at hpath
    exact Or.inl hpath
  · rw [String.intercalate_append_of_ne_nil hstart hrest] at hpath
    refine Or.inr ⟨?_, _, hpath.symm⟩
    rw [htake]
    by_cases hfirst : (parts path).take i = []
    · rwa [hfirst, List.nil_append, String.intercalate_singleton]
    · rw [String.intercalate_append_of_ne_nil hfirst (List.cons_ne_nil _ _)]
      intro hempty
      have hlength := congrArg String.length hempty
      simp at hlength

/-- A start of a path leads to a place on the way of the path. -/
theorem destination_of_isStart {start : String} (h : IsStart start path) (here : Place) :
    ∃ way, way <+: parts path ∧ Path.destination here start =
      Place.resolve (if path.startsWith "/" then [] else here) way := by
  rcases h with rfl | ⟨hne, rest, rfl⟩
  · exact ⟨parts start, List.prefix_refl _, rfl⟩
  · refine ⟨parts start, ?_, ?_⟩
    · rw [Path.parts_append_slash]
      exact List.prefix_append _ _
    · rw [String.append_assoc, Path.startsWith_slash_append hne, Path.destination]

/-- What is added to a tree are folders to which starts of a path lead. -/
structure AddsOnWay (path : String) (t t' : FileTree) : Prop where
  here_eq : t'.here = t.here
  hasFolder : ∀ p, t'.HasFolder p →
    t.HasFolder p ∨ ∃ start, IsStart start path ∧ p = Path.destination t.here start

/-- Nothing is added from a tree to itself. -/
theorem AddsOnWay.refl (path : String) (t : FileTree) : AddsOnWay path t t :=
  ⟨rfl, fun _ h => Or.inl h⟩

/-- Folders on the way are added one after the other. -/
theorem AddsOnWay.trans {u : FileTree} (h : AddsOnWay path t t') (h' : AddsOnWay path t' u) :
    AddsOnWay path t u where
  here_eq := h'.here_eq.trans h.here_eq
  hasFolder := by
    intro p hp
    rcases h'.hasFolder p hp with hbefore | hnew
    · exact h.hasFolder p hbefore
    · rw [h.here_eq] at hnew
      exact Or.inr hnew

instance : IsPreorder FileTree (AddsOnWay path) where
  refl := AddsOnWay.refl path
  trans _ _ _ := AddsOnWay.trans

/-- Making sure of a folder on the way adds it at most. -/
theorem addsOnWay_ensureFolder {start : String} (h : IsStart start path) (t : FileTree) :
    AddsOnWay path t ((FileStore.ensureFolder start : StateM FileTree _).run t).2 := by
  rw [run_ensureFolder]
  cases hcreate : t.createFolder start with
  | error e => exact AddsOnWay.refl path t
  | ok t' =>
    obtain ⟨place, hplace, hcreate⟩ := exists_ok_of_bind hcreate
    split at hcreate
    · contradiction
    · obtain rfl := Except.ok.inj hcreate
      have hext : Extends t { t with folders := place :: t.folders } :=
        ⟨rfl, List.subset_cons_self _ _⟩
      have hmade := destination_of_placeOf
        (placeOf_of_newFolderPlace hplace hext (Or.inr List.mem_cons_self))
      refine ⟨rfl, ?_⟩
      rintro p (hempty | hp)
      · exact Or.inl (Or.inl hempty)
      · rcases List.mem_cons.mp hp with rfl | hp
        · exact Or.inr ⟨start, h, hmade⟩
        · exact Or.inl (Or.inr hp)

/-- Making a folder with those above it adds folders on its way only. -/
theorem addsOnWay_createFolders (path : String) (t : FileTree) :
    AddsOnWay path t ((FileStore.createFolders path : StateM FileTree _).run t).2 := by
  unfold FileStore.createFolders
  split
  · exact AddsOnWay.refl path t
  · refine rel_ensureFirst (fun start hstart => addsOnWay_ensureFolder ?_) t
    rcases List.mem_cons.mp hstart with rfl | hstart
    · exact Or.inl rfl
    · exact isStart_of_mem_parents hstart

end FileTree

end Interlude
