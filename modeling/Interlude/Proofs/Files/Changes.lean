import Mathlib
import Interlude.Files.Folders
import Interlude.Proofs.Files.Places

/-!
# What operations change in a file tree

An operation on a file tree that succeeds acts at the place of its path. Writing changes the one
file there, making folders changes no file, and no operation takes a file away or moves the folder
in which relative paths begin. A frame tells at which places files may have changed; frames follow
one another as the operations do.
-/

namespace Interlude

namespace FileTree

variable {P Q : Place → Prop} {t t' t'' : FileTree} {place p : Place} {path : String}
  {bytes : ByteArray}

/-! ### Frames -/

/-- The bytes of the file at a place. -/
def file? (t : FileTree) (place : Place) : Option ByteArray :=
  match t.node? place with
  | some (.file bytes) => some bytes
  | _ => none

/-- From one tree to the other, files changed at some places only, and none is gone. -/
structure Changes (P : Place → Prop) (t t' : FileTree) : Prop where
  here_eq : t'.here = t.here
  kept : ∀ place, (t.file? place).isSome = true → (t'.file? place).isSome = true
  file?_eq : ∀ place, ¬ P place → t'.file? place = t.file? place

/-- Nothing has changed from a tree to itself. -/
theorem Changes.refl (P : Place → Prop) (t : FileTree) : Changes P t t :=
  ⟨rfl, fun _ h => h, fun _ _ => rfl⟩

/-- Changes follow one another. -/
theorem Changes.trans (h : Changes P t t') (h' : Changes P t' t'') : Changes P t t'' where
  here_eq := h'.here_eq.trans h.here_eq
  kept := fun place hplace => h'.kept place (h.kept place hplace)
  file?_eq := fun place hplace => (h'.file?_eq place hplace).trans (h.file?_eq place hplace)

/-- Changes at some places are changes at more places. -/
theorem Changes.mono (h : Changes P t t') (hPQ : ∀ place, P place → Q place) : Changes Q t t' where
  here_eq := h.here_eq
  kept := h.kept
  file?_eq := fun place hplace => h.file?_eq place fun hP => hplace (hPQ place hP)

/-- A file that differs is at one of the places. -/
theorem Changes.of_ne (h : Changes P t t') (hne : t'.file? place ≠ t.file? place) : P place := by
  by_contra hP
  exact hne (h.file?_eq place hP)

/-! ### Places of operations -/

/-- An operation in two steps succeeds only if both do. -/
theorem exists_ok_of_bind {ε α β : Type} {x : Except ε α} {f : α → Except ε β} {b : β}
    (h : (x >>= f) = .ok b) : ∃ a, x = .ok a ∧ f a = .ok b := by
  cases x with
  | error e => contradiction
  | ok a => exact ⟨a, rfl, h⟩

/-- An operation in two steps goes on with what the first gives. -/
theorem ok_bind {ε α β : Type} (a : α) (f : α → Except ε β) : ((.ok a : Except ε α) >>= f) = f a :=
  rfl

/-- Steps that a tree takes lead where their words lead. -/
theorem resolve_of_follow {way : List String} (h : t.follow place way = .ok p) :
    p = Place.resolve place way := by
  induction way generalizing place with
  | nil => exact (Except.ok.inj h).symm
  | cons step rest ih =>
    obtain ⟨_, _, h⟩ := exists_ok_of_bind h
    rw [Place.resolve]
    split at h
    · rename_i hstay
      rw [if_pos hstay]
      exact ih h
    · rename_i hstay
      rw [if_neg hstay]
      split at h
      · rename_i hup
        rw [if_pos hup]
        exact ih h
      · rename_i hup
        rw [if_neg hup]
        split at h
        · contradiction
        · exact ih h

/-- The empty parts at the end of a path lead nowhere. -/
theorem resolve_parts (place : Place) (path : String) :
    Place.resolve place (Path.parts path) = Place.resolve place (steps path) := by
  have hparts := List.takeWhile_append_dropWhile (p := fun part : String => decide (part = ""))
    (l := (Path.parts path).reverse)
  have hparts := congrArg List.reverse hparts
  rw [List.reverse_append, List.reverse_reverse] at hparts
  rw [← hparts, Place.resolve_append]
  apply Place.resolve_of_all_empty
  intro step hstep
  have hempty := List.mem_takeWhile_imp (List.mem_reverse.mp hstep)
  exact of_decide_eq_true hempty

/-- The last of the parts of a path that are left without the empty ones at the end is not empty. -/
theorem ne_empty_of_getLast?_steps {name : String} (h : (steps path).getLast? = some name) :
    name ≠ "" := by
  rw [steps, List.getLast?_reverse] at h
  have hhead := List.head?_dropWhile_not (fun part : String => decide (part = "")) (Path.parts path).reverse
  rw [h] at hhead
  exact of_decide_eq_false hhead

private theorem resolve_getLast {name : String} {origin : Place}
    (hlast : (steps path).getLast? = some name) (hdots : ¬ (name = "." ∨ name = ".."))
    (hparent : t.follow origin (steps path).dropLast = .ok p) :
    p ++ [name] = Place.resolve origin (Path.parts path) := by
  obtain ⟨before, hsteps⟩ := List.getLast?_eq_some_iff.mp hlast
  rw [resolve_of_follow hparent, resolve_parts, hsteps, List.dropLast_concat, Place.resolve_append,
    Place.resolve_singleton (ne_empty_of_getLast?_steps hlast) (fun h => hdots (Or.inl h))
      fun h => hdots (Or.inr h)]

/-- A new file lies where its path leads, and the path ends with a name. -/
theorem of_newPlace (h : t.newPlace path = .ok place) :
    place = Path.destination t.here path ∧ path.endsWith "/" = false ∧
      ∃ name, (steps path).getLast? = some name ∧ name ≠ "." ∧ name ≠ ".." := by
  obtain ⟨_, _, h⟩ := exists_ok_of_bind h
  dsimp only at h
  split at h
  · contradiction
  · rename_i name hlast
    obtain ⟨parent, hparent, h⟩ := exists_ok_of_bind h
    obtain ⟨_, _, h⟩ := exists_ok_of_bind h
    split at h
    · contradiction
    · rename_i hdots
      obtain ⟨hdot, hup, hslash⟩ : name ≠ "." ∧ name ≠ ".." ∧ ¬ path.endsWith "/" = true := by
        simpa only [not_or] using hdots
      split at h
      · contradiction
      · refine ⟨?_, Bool.eq_false_iff.mpr hslash, name, hlast, hdot, hup⟩
        rw [← Except.ok.inj h]
        exact resolve_getLast hlast (not_or.mpr ⟨hdot, hup⟩) hparent

/-- A new file that is named in a folder has a name. -/
theorem name_of_newPlace_join {folder name : String} (hslash : '/' ∉ name.toList)
    (h : t.newPlace (Path.join folder name) = .ok place) : Path.IsName name := by
  obtain ⟨_, hends, last, hlast, hdot, hup⟩ := of_newPlace h
  by_cases hempty : name = ""
  · subst hempty
    rcases Path.join_empty folder with hjoin | hjoin
    · rw [hjoin] at hlast
      contradiction
    · rw [hends] at hjoin
      exact absurd hjoin Bool.false_ne_true
  · obtain ⟨before, hparts⟩ := Path.exists_parts_join folder name
    rw [Path.parts_of_no_slash hslash] at hparts
    have hname : last = name := by
      rw [steps, hparts, List.reverse_append, List.reverse_singleton, List.singleton_append,
        List.dropWhile_cons, if_neg (by rw [decide_eq_true_eq]; exact hempty), List.reverse_cons,
        List.getLast?_concat] at hlast
      exact (Option.some.inj hlast).symm
    exact ⟨hslash, hempty, hname ▸ hdot, hname ▸ hup⟩

/-! ### Writing -/

/-- What is put at a place is found there, and everything else where it was. -/
theorem lookup_put (place p : Place) (bytes : ByteArray) (files : List (Place × ByteArray)) :
    (put place bytes files).lookup p = if p = place then some bytes else files.lookup p := by
  induction files with
  | nil =>
    rw [put, List.lookup_cons, List.lookup_nil]
    by_cases hp : p = place
    · rw [if_pos hp, beq_iff_eq.mpr hp]
    · rw [if_neg hp, beq_eq_false_iff_ne.mpr hp]
  | cons file rest ih =>
    obtain ⟨other, old⟩ := file
    rw [put]
    by_cases hother : other = place
    · rw [if_pos hother, List.lookup_cons, List.lookup_cons, hother]
      by_cases hp : p = place
      · rw [if_pos hp, beq_iff_eq.mpr hp]
      · rw [if_neg hp, beq_eq_false_iff_ne.mpr hp]
    · rw [if_neg hother, List.lookup_cons, List.lookup_cons, ih]
      by_cases hp : p = other
      · rw [hp, beq_self_eq_true, if_neg hother, if_neg hother]
      · rw [beq_eq_false_iff_ne.mpr hp]

/-- Writing makes the bytes the content of the file where the path leads, and of no other. -/
theorem file?_write (h : t.write path bytes = .ok t') (p : Place) :
    t'.file? p = if p = Path.destination t.here path then some bytes else t.file? p := by
  obtain ⟨place, hplace, h⟩ := exists_ok_of_bind h
  rw [← (of_newPlace hplace).1]
  split at h
  · contradiction
  · rename_i hnode
    obtain rfl := Except.ok.inj h
    have hfolder : ¬ (place.isEmpty = true ∨ place ∈ t.folders) := by
      intro hfolder
      exact hnode (if_pos hfolder)
    by_cases hp : p = place
    · rw [if_pos hp, hp, file?, node?, if_neg hfolder, lookup_put, if_pos rfl]
      rfl
    · rw [if_neg hp, file?, file?, node?, node?, lookup_put, if_neg hp]

/-- Writing leaves the folder in which relative paths begin. -/
theorem here_write (h : t.write path bytes = .ok t') : t'.here = t.here := by
  obtain ⟨place, _, h⟩ := exists_ok_of_bind h
  split at h
  · contradiction
  · rw [← Except.ok.inj h]

/-- Writing changes the file where the path leads. -/
theorem changes_write (h : t.write path bytes = .ok t') :
    Changes (· = Path.destination t.here path) t t' where
  here_eq := here_write h
  kept := by
    intro place hplace
    rw [file?_write h]
    split
    · rfl
    · exact hplace
  file?_eq := fun place hplace => by rw [file?_write h, if_neg hplace]

/-- Making a folder changes no file. -/
theorem changes_createFolder (h : t.createFolder path = .ok t') : Changes (fun _ => False) t t' := by
  obtain ⟨place, _, h⟩ := exists_ok_of_bind h
  split at h
  · contradiction
  · rename_i hnode
    obtain rfl := Except.ok.inj h
    have hfile : ∀ p, file? { t with folders := place :: t.folders } p = t.file? p := by
      intro p
      by_cases hp : p = place
      · rw [hp, file?, file?, hnode, node?, if_pos (Or.inr List.mem_cons_self)]
      · simp only [file?, node?, List.mem_cons, hp, false_or]
    exact ⟨rfl, fun p hplace => by rw [hfile p]; exact hplace, fun p _ => hfile p⟩

/-! ### Files as a state -/

/-- Reading leaves the state. -/
theorem run_readFile (path : String) (t : FileTree) :
    (FileStore.readFile path : StateM FileTree _).run t = (t.read path, t) :=
  rfl

/-- What writing does to the state. -/
theorem run_writeFile (path : String) (bytes : ByteArray) (t : FileTree) :
    (FileStore.writeFile path bytes : StateM FileTree _).run t =
      match t.write path bytes with
      | .ok t' => (.ok (), t')
      | .error e => (.error e, t) := by
  simp only [FileStore.writeFile, StateT.run_bind, StateT.run_get, pure_bind]
  cases t.write path bytes <;> rfl

/-- What making a folder does to the state. -/
theorem run_createFolder (path : String) (t : FileTree) :
    (FileStore.createFolder path : StateM FileTree _).run t =
      match t.createFolder path with
      | .ok t' => (.ok (), t')
      | .error e => (.error e, t) := by
  simp only [FileStore.createFolder, StateT.run_bind, StateT.run_get, pure_bind]
  cases t.createFolder path <;> rfl

/-- Writing changes the file where the path leads, if any. -/
theorem changes_writeFile (path : String) (bytes : ByteArray) (t : FileTree) :
    Changes (· = Path.destination t.here path) t
      ((FileStore.writeFile path bytes : StateM FileTree _).run t).2 := by
  rw [run_writeFile]
  cases h : t.write path bytes with
  | ok t' => exact changes_write h
  | error e => exact Changes.refl _ t

/-- Writing a file that is named in a folder changes that file of the folder, if any. -/
theorem changes_writeFile_join {folder name : String} (hslash : '/' ∉ name.toList) (bytes : ByteArray)
    (t : FileTree) :
    Changes (· = Path.destination t.here folder ++ [name]) t
      ((FileStore.writeFile (Path.join folder name) bytes : StateM FileTree _).run t).2 := by
  rw [run_writeFile]
  cases h : t.write (Path.join folder name) bytes with
  | ok t' =>
    obtain ⟨place, hplace, _⟩ := exists_ok_of_bind h
    rw [← Path.destination_join_name (name_of_newPlace_join hslash hplace)]
    exact changes_write h
  | error e => exact Changes.refl _ t

/-- Making a folder changes no file. -/
theorem changes_makeFolder (path : String) (t : FileTree) :
    Changes (fun _ => False) t ((FileStore.createFolder path : StateM FileTree _).run t).2 := by
  rw [run_createFolder]
  cases h : t.createFolder path with
  | ok t' => exact changes_createFolder h
  | error e => exact Changes.refl _ t

/-- Operations one after the other change what each of them changes. -/
theorem changes_bind {α β : Type} {x : StateM FileTree α} {f : α → StateM FileTree β}
    (hx : Changes P t (x.run t).2) (hf : ∀ a t', Changes P t' ((f a).run t').2) :
    Changes P t ((x >>= f).run t).2 :=
  hx.trans (hf (x.run t).1 (x.run t).2)

/-- Making sure of a folder changes no file. -/
theorem changes_ensureFolder (path : String) (t : FileTree) :
    Changes (fun _ => False) t
      ((FileStore.ensureFolder path : StateM FileTree _).run t).2 := by
  refine changes_bind (changes_makeFolder path t) ?_
  intro result t'
  cases result with
  | ok a => exact Changes.refl _ t'
  | error e => exact Changes.refl _ t'

/-- Making sure of the first of some folders changes no file. -/
theorem changes_ensureFirst (paths : List String) (t : FileTree) :
    Changes (fun _ => False) t
      ((FileStore.ensureFirst paths : StateM FileTree _).run t).2 := by
  induction paths generalizing t with
  | nil => exact Changes.refl _ t
  | cons path above ih =>
    refine changes_bind (changes_ensureFolder path t) ?_
    intro result t'
    split
    · refine changes_bind (ih t') ?_
      intro result t''
      cases result with
      | ok a => exact changes_ensureFolder path t''
      | error e => exact Changes.refl _ t''
    · exact Changes.refl _ t'

/-- Making a folder with the folders above it changes no file. -/
theorem changes_createFolders (path : String) (t : FileTree) :
    Changes (fun _ => False) t
      ((FileStore.createFolders path : StateM FileTree _).run t).2 := by
  unfold FileStore.createFolders
  split
  · exact Changes.refl _ t
  · exact changes_ensureFirst _ t

end FileTree

end Interlude
