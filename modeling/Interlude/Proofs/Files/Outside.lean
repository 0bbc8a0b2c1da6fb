import Mathlib
import Interlude.Proofs.Files.Following

/-!
# What lies outside a folder

A path that never comes into a folder, neither in the end nor on the way, is followed in the same way
whatever the folder holds. So operations on such a path do the same, faults included, in two file
trees that agree outside the folder, and the trees agree there afterwards.
-/

namespace Interlude

variable {folder place p : Place} {path : String} {way first : List String}

namespace Place

/-- Steps lead nowhere into a folder, neither in the end nor on the way. -/
def Avoids (folder place : Place) (way : List String) : Prop :=
  ∀ start ∈ way.inits, ¬ folder <+: resolve place start

instance (folder place : Place) (way : List String) : Decidable (Avoids folder place way) :=
  inferInstanceAs (Decidable (∀ _ ∈ _, _))

/-- The first of some steps lead nowhere into a folder either. -/
theorem Avoids.of_first (h : Avoids folder place way) (hfirst : first <+: way) :
    Avoids folder place first :=
  fun start hstart => h start ((List.mem_inits _ _).mpr (((List.mem_inits _ _).mp hstart).trans hfirst))

/-- The place to which the steps lead is outside the folder. -/
theorem Avoids.resolve (h : Avoids folder place way) : ¬ folder <+: resolve place way :=
  h way ((List.mem_inits _ _).mpr (List.prefix_refl way))

/-- The place at which the steps begin is outside the folder. -/
theorem Avoids.start (h : Avoids folder place way) : ¬ folder <+: place :=
  h [] ((List.mem_inits _ _).mpr (List.nil_prefix))

/-- After the first step the others lead nowhere into the folder. -/
theorem Avoids.tail {step : String} (h : Avoids folder place (step :: way)) :
    Avoids folder (Place.resolve place [step]) way := by
  intro start hstart
  rw [← resolve_append, List.singleton_append]
  exact h _ ((List.mem_inits _ _).mpr (List.cons_prefix_cons.mpr ⟨rfl, (List.mem_inits _ _).mp hstart⟩))

end Place

/-- A path leads nowhere into a folder. -/
def Path.Avoids (here folder : Place) (path : String) : Prop :=
  Place.Avoids folder (if path.startsWith "/" then [] else here) (Path.parts path)

instance (here folder : Place) (path : String) : Decidable (Path.Avoids here folder path) :=
  inferInstanceAs (Decidable (Place.Avoids _ _ _))

namespace FileTree

variable {t t' : FileTree} {bytes : ByteArray}

/-- Two trees are the same outside a folder. -/
structure AgreeOutside (folder : Place) (t t' : FileTree) : Prop where
  here_eq : t'.here = t.here
  node?_eq : ∀ place, ¬ folder <+: place → t'.node? place = t.node? place

/-- A tree agrees with itself. -/
theorem AgreeOutside.refl (folder : Place) (t : FileTree) : AgreeOutside folder t t :=
  ⟨rfl, fun _ _ => rfl⟩

/-- Trees that agree outside a folder have the same files there. -/
theorem AgreeOutside.file?_eq (h : AgreeOutside folder t t') (hplace : ¬ folder <+: place) :
    t'.file? place = t.file? place := by
  rw [file?, file?, h.node?_eq place hplace]

/-- Trees that agree outside a folder have the same folders there. -/
theorem AgreeOutside.needFolder_eq (h : AgreeOutside folder t t') (hplace : ¬ folder <+: place) :
    t'.needFolder place = t.needFolder place := by
  rw [needFolder, needFolder, h.node?_eq place hplace]

/-- Steps that lead nowhere into the folder are followed in the same way. -/
theorem AgreeOutside.follow_eq (h : AgreeOutside folder t t') (havoids : Place.Avoids folder place way) :
    t'.follow place way = t.follow place way := by
  induction way generalizing place with
  | nil => rfl
  | cons step rest ih =>
    have hrest := ih havoids.tail
    rw [follow, follow, h.needFolder_eq havoids.start]
    congr 1
    funext _
    rw [Place.resolve] at hrest
    split
    · rename_i hstay
      rwa [if_pos hstay] at hrest
    · rename_i hstay
      rw [if_neg hstay] at hrest
      split
      · rename_i hup
        rwa [if_pos hup] at hrest
      · rename_i hup
        rw [if_neg hup] at hrest
        split
        · rfl
        · exact hrest

/-- A path begins at the same place in trees that agree. -/
theorem AgreeOutside.origin_eq (h : AgreeOutside folder t t') (path : String) :
    t'.origin path = t.origin path := by
  rw [origin, origin, h.here_eq]

/-- A path that leads nowhere into the folder leads to the same place. -/
theorem AgreeOutside.placeOf_eq (h : AgreeOutside folder t t')
    (havoids : Path.Avoids t.here folder path) : t'.placeOf path = t.placeOf path := by
  have hfollow : t'.follow (t.origin path) (Path.parts path) =
      t.follow (t.origin path) (Path.parts path) := h.follow_eq havoids
  rw [placeOf, placeOf, h.origin_eq, hfollow]

/-- The place of a path that leads nowhere into a folder is outside it. -/
theorem not_prefix_of_placeOf (havoids : Path.Avoids t.here folder path)
    (hplace : t.placeOf path = .ok place) : ¬ folder <+: place := by
  rw [destination_of_placeOf hplace]
  exact havoids.resolve

/-- Reading a path that leads nowhere into the folder gives the same. -/
theorem AgreeOutside.read_eq (h : AgreeOutside folder t t')
    (havoids : Path.Avoids t.here folder path) : t'.read path = t.read path := by
  rw [read, read, h.placeOf_eq havoids]
  cases hplace : t.placeOf path with
  | error e => rfl
  | ok place =>
    rw [ok_bind, ok_bind, h.node?_eq place (not_prefix_of_placeOf havoids hplace)]

/-- At a path that leads nowhere into the folder is the same. -/
theorem AgreeOutside.isThere_eq (h : AgreeOutside folder t t')
    (havoids : Path.Avoids t.here folder path) : t'.isThere path = t.isThere path := by
  rw [isThere, isThere, h.placeOf_eq havoids]
  cases hplace : t.placeOf path with
  | error e => rfl
  | ok place =>
    dsimp only
    rw [h.node?_eq place (not_prefix_of_placeOf havoids hplace)]

/-- A new file at a path that leads nowhere into the folder has the same place. -/
theorem AgreeOutside.newPlace_eq (h : AgreeOutside folder t t')
    (havoids : Path.Avoids t.here folder path) : t'.newPlace path = t.newPlace path := by
  have hparent : Place.Avoids folder (t.origin path) (steps path).dropLast := by
    obtain ⟨n, hparts⟩ := exists_parts_eq path
    refine Place.Avoids.of_first havoids ((List.dropLast_prefix _).trans ?_)
    rw [hparts]
    exact List.prefix_append _ _
  rw [newPlace, newPlace, h.origin_eq]
  congr 1
  funext _
  dsimp only
  rw [h.follow_eq hparent]
  split
  · rfl
  · cases hfollow : t.follow (t.origin path) (steps path).dropLast with
    | error e => rfl
    | ok parent =>
      have hneed := h.needFolder_eq hparent.resolve
      rw [← resolve_of_follow hfollow] at hneed
      change (t'.needFolder parent >>= _) = (t.needFolder parent >>= _)
      rw [hneed]

/-- A new file at a path that leads nowhere into the folder lies outside it. -/
theorem not_prefix_of_newPlace (havoids : Path.Avoids t.here folder path)
    (hplace : t.newPlace path = .ok place) : ¬ folder <+: place :=
  not_prefix_of_placeOf havoids (placeOf_of_newPlace hplace)

/-- Writing to a path that leads nowhere into the folder fails in both trees with the same fault, or
succeeds in both. -/
theorem AgreeOutside.write (h : AgreeOutside folder t t')
    (havoids : Path.Avoids t.here folder path) (bytes : ByteArray) :
    (∃ e, t.write path bytes = .error e ∧ t'.write path bytes = .error e) ∨
      ∃ u u', t.write path bytes = .ok u ∧ t'.write path bytes = .ok u' ∧ AgreeOutside folder u u' := by
  cases hplace : t.newPlace path with
  | error e =>
    refine Or.inl ⟨e, ?_, ?_⟩
    · rw [FileTree.write, hplace]
      rfl
    · rw [FileTree.write, h.newPlace_eq havoids, hplace]
      rfl
  | ok place =>
    have houtside := not_prefix_of_newPlace havoids hplace
    have hplace' : t'.newPlace path = .ok place := by rw [h.newPlace_eq havoids, hplace]
    have hsame : t'.HasFolder place ↔ t.HasFolder place := by
      rw [← needFolder_eq_ok_iff, ← needFolder_eq_ok_iff, h.needFolder_eq houtside]
    by_cases hfolder : t.HasFolder place
    · exact Or.inl ⟨.isFolder, write_of_hasFolder hplace hfolder bytes,
        write_of_hasFolder hplace' (hsame.mpr hfolder) bytes⟩
    · obtain ⟨u, hwrite⟩ := exists_write hplace hfolder bytes
      obtain ⟨u', hwrite'⟩ := exists_write hplace' (fun h => hfolder (hsame.mp h)) bytes
      refine Or.inr ⟨_, _, hwrite, hwrite', ?_, ?_⟩
      · rw [here_write hwrite', here_write hwrite, h.here_eq]
      · intro p hp
        rw [node?_write hwrite', node?_write hwrite, h.here_eq, h.node?_eq p hp]

/-- Writing to a path that leads nowhere into the folder does the same. -/
theorem AgreeOutside.run_writeFile (h : AgreeOutside folder t t')
    (havoids : Path.Avoids t.here folder path) (bytes : ByteArray) :
    let ran := (FileStore.writeFile path bytes : StateM FileTree _).run t
    let ran' := (FileStore.writeFile path bytes : StateM FileTree _).run t'
    ran'.1 = ran.1 ∧ AgreeOutside folder ran.2 ran'.2 := by
  intro ran ran'
  have hran : ran = _ := FileTree.run_writeFile path bytes t
  have hran' : ran' = _ := FileTree.run_writeFile path bytes t'
  rcases h.write havoids bytes with ⟨e, hwrite, hwrite'⟩ | ⟨u, u', hwrite, hwrite', hagree⟩
  · rw [hwrite] at hran
    rw [hwrite'] at hran'
    rw [hran, hran']
    exact ⟨rfl, h⟩
  · rw [hwrite] at hran
    rw [hwrite'] at hran'
    rw [hran, hran']
    exact ⟨rfl, hagree⟩

end FileTree

end Interlude
