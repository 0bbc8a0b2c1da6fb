import Mathlib
import Interlude.Proofs.Conversion.Exporting
import Interlude.Proofs.Files.Changes

/-!
# Where a conversion writes

A conversion writes its table of the maps, the credits, a document for each script of the table and
the pictures that its session tells, each at the place to which the name leads from the output
folder, and lumps directly in the folder of the cache. Nowhere else does it change a file, and
nothing that is there disappears; so it is after every part of it, also after one that fails.
-/

namespace Interlude

namespace Converting

open FileTree (Changes)

variable {α : Type} {o : Options} {scripts images more : List String} {here place : Place}
  {w v u : World}

/-! ### Places -/

/-- The files that are named for scripts and pictures. -/
def namedFiles (scripts images : List String) : List String :=
  scripts.map (· ++ ".json") ++ images.map (· ++ ".png")

/-- The files of a conversion with some scripts and pictures, as they are named in its folder. -/
def outputFiles (scripts images : List String) : List String :=
  mapFile :: creditsFile :: namedFiles scripts images

/-- A file is named for a script or for a picture. -/
theorem mem_namedFiles {file : String} : file ∈ namedFiles scripts images ↔
    (∃ name ∈ scripts, name ++ ".json" = file) ∨ ∃ name ∈ images, name ++ ".png" = file := by
  rw [namedFiles, List.mem_append, List.mem_map, List.mem_map]

/-- A file is one of the two that every conversion writes, or named for a script or a picture. -/
theorem mem_outputFiles {file : String} : file ∈ outputFiles scripts images ↔
    file = mapFile ∨ file = creditsFile ∨ file ∈ namedFiles scripts images := by
  rw [outputFiles, List.mem_cons, List.mem_cons]

/-- The places at which a conversion with some scripts and pictures may write. -/
def MayWrite (o : Options) (here : Place) (scripts images : List String) (place : Place) : Prop :=
  (∃ file ∈ outputFiles scripts images, place = Path.destination here (o.target file)) ∨
    ∃ key, place = Path.destination here o.cacheFolder ++ [key]

/-- More pictures are written at more places. -/
theorem MayWrite.mono (h : MayWrite o here scripts images place) (hsub : images ⊆ more) :
    MayWrite o here scripts more place := by
  rcases h with ⟨file, hfile, hplace⟩ | hkey
  · refine Or.inl ⟨file, ?_, hplace⟩
    rw [mem_outputFiles, mem_namedFiles] at hfile ⊢
    rcases hfile with hmap | hcredits | hscript | ⟨name, hname, hfile⟩
    · exact Or.inl hmap
    · exact Or.inr (Or.inl hcredits)
    · exact Or.inr (Or.inr (Or.inl hscript))
    · exact Or.inr (Or.inr (Or.inr ⟨name, hsub hname, hfile⟩))
  · exact Or.inr hkey

/-- A part of a conversion with some scripts writes where it may and notes the pictures. -/
structure Writes (o : Options) (scripts : List String) (w v : World) : Prop where
  written_subset : w.session.written ⊆ v.session.written
  present : ∀ image ∈ v.session.written, image ∈ w.session.written ∨
    (v.files.file? (Path.destination w.files.here (o.target (image ++ ".png")))).isSome = true
  changes : Changes (MayWrite o w.files.here scripts v.session.written) w.files v.files

/-- Doing nothing writes nothing. -/
theorem Writes.refl (o : Options) (scripts : List String) (w : World) : Writes o scripts w w :=
  ⟨List.Subset.refl _, fun _ h => Or.inl h, Changes.refl _ _⟩

/-- One part after the other writes where they may. -/
theorem Writes.trans (h : Writes o scripts w v) (h' : Writes o scripts v u) :
    Writes o scripts w u where
  written_subset := List.Subset.trans h.written_subset h'.written_subset
  present := by
    intro image himage
    rcases h'.present image himage with hv | hu
    · rcases h.present image hv with hw | hv
      · exact Or.inl hw
      · exact Or.inr (h'.changes.kept _ hv)
    · rw [h.changes.here_eq] at hu
      exact Or.inr hu
  changes := by
    have hsecond := h'.changes
    rw [h.changes.here_eq] at hsecond
    exact (h.changes.mono fun _ hplace => hplace.mono h'.written_subset).trans hsecond

instance : IsPreorder World (Writes o scripts) where
  refl := Writes.refl o scripts
  trans _ _ _ := Writes.trans

/-- What changes the session, but for the pictures that were written, writes nothing. -/
theorem writes_of_session {s : Session} (h : s.written = w.session.written) :
    Writes o scripts w ⟨s, w.files⟩ where
  written_subset := by rw [h]; exact List.Subset.refl _
  present := fun image himage => Or.inl (h ▸ himage)
  changes := Changes.refl _ _

/-- What changes files where no picture is noted writes where it may. -/
theorem writes_of_changes {t : FileTree}
    (h : Changes (MayWrite o w.files.here scripts []) w.files t) :
    Writes o scripts w ⟨w.session, t⟩ where
  written_subset := List.Subset.refl _
  present := fun _ himage => Or.inl himage
  changes := h.mono fun _ hplace => hplace.mono (List.nil_subset _)

/-- A part that only reads writes nothing. -/
theorem writes_of_reads (h : Reads o w v) : Writes o scripts w v where
  written_subset := by rw [h.quiet.written_eq]; exact List.Subset.refl _
  present := fun _ himage => Or.inl (h.quiet.written_eq ▸ himage)
  changes := by rw [h.files_eq]; exact Changes.refl _ _

/-! ### Parts that write nothing -/

section Parts

variable (o : Options) (scripts : List String)

/-- Giving warnings writes nothing. -/
theorem keeps_writes_warn (warnings : List ConversionWarning) :
    Keeps (Writes o scripts) (warn warnings : Converting (StateM FileTree) Unit) :=
  (keeps_reads_warn warnings).mono writes_of_reads

/-- An operation on files that changes them where the conversion may write. -/
theorem keeps_writes_onPath {operation : StateM FileTree (Except FileFault α)}
    (h : ∀ t, Changes (MayWrite o t.here scripts []) t (operation.run t).2) (path : String) :
    Keeps (Writes o scripts) (onPath path operation) := by
  intro w
  rw [exec_onPath]
  exact writes_of_changes (h w.files)

/-! ### Lumps and texts -/

/-- No slash is left in the name of a file of the cache. -/
theorem slash_not_mem_map_fileChar (name : String) :
    '/' ∉ (String.ofList (name.toList.map LumpCache.fileChar)).toList := by
  rw [String.toList_ofList, List.mem_map]
  rintro ⟨c, _, hc⟩
  unfold LumpCache.fileChar at hc
  split at hc
  · exact absurd hc (by decide)
  · rename_i hother
    exact hother (Or.inl hc)

/-- Keeping a lump writes into the folder of the cache. -/
theorem keeps_writes_put (path key : String) (bytes : ByteArray) :
    Keeps (Writes o scripts)
      (onPath path (LumpCache.put ⟨o.cacheFolder⟩ key bytes) : Converting (StateM FileTree) Unit) := by
  unfold LumpCache.put LumpCache.path
  refine keeps_writes_onPath o scripts (fun t => ?_) path
  refine (FileTree.changes_writeFile_join (slash_not_mem_map_fileChar key) bytes t).mono ?_
  intro place hplace
  exact Or.inr ⟨_, hplace⟩

/-- Fetching a text lump writes into the folder of the cache at most. -/
theorem keeps_writes_textLump (name : String) :
    Keeps (Writes o scripts) (textLump (m := StateM FileTree) o name) :=
  keeps_textLump writes_of_reads fun {w} _ bytes => keeps_writes_put o scripts _ _ bytes w

/-- Reading the table of the maps writes into the folder of the cache at most. -/
theorem keeps_writes_readMaps : Keeps (Writes o scripts) (readMaps (m := StateM FileTree) o) :=
  readMaps_eq o ▸ keeps_readText writes_of_reads (keeps_writes_textLump o scripts o.mapLump)

/-- Reading a script writes into the folder of the cache at most. -/
theorem keeps_writes_readScript (name : String) :
    Keeps (Writes o scripts) (readScript (m := StateM FileTree) o name) :=
  readScript_eq o name ▸ keeps_readText writes_of_reads (keeps_writes_textLump o scripts name)

/-- Writing a text writes the file that it is for. -/
theorem keeps_writes_writeText {file : String} (hfile : file ∈ outputFiles scripts []) (text : String) :
    Keeps (Writes o scripts) (writeText (m := StateM FileTree) o file text) := by
  refine keeps_writes_onPath o scripts (fun t => ?_) _
  refine (FileTree.changes_writeFile (o.target file) text.toUTF8 t).mono ?_
  intro place hplace
  exact Or.inl ⟨file, hfile, hplace⟩

/-! ### Pictures -/

/-- Exporting a picture writes its file, and notes it if there is now such a file. -/
theorem writes_of_export {name : String} {ran : Except ConversionError Unit × World}
    (h : Export o name w ran) : Writes o scripts w ran.2 := by
  cases h with
  | failed reads e => exact writes_of_reads reads
  | skipped reads => exact (writes_of_reads reads).trans (writes_of_session rfl)
  | written reads _ _ _ _ hwrite =>
    dsimp only
    rw [reads.quiet.written_eq]
    refine ⟨List.subset_append_left _ _, ?_, ?_⟩
    · intro image himage
      rcases List.mem_append.mp himage with himage | himage
      · exact Or.inl himage
      · obtain rfl := List.mem_singleton.mp himage
        have hfile := FileTree.file?_write hwrite
          (Path.destination w.files.here (o.target (image ++ ".png")))
        rw [if_pos rfl] at hfile
        exact Or.inr (Option.isSome_iff_exists.mpr ⟨_, hfile⟩)
    · refine (FileTree.changes_write hwrite).mono ?_
      intro place hplace
      refine Or.inl ⟨name ++ ".png", mem_outputFiles.mpr (Or.inr (Or.inr ?_)), hplace⟩
      exact mem_namedFiles.mpr (Or.inr ⟨name, List.mem_append_right _ (List.mem_singleton.mpr rfl), rfl⟩)

/-- Asking for a picture writes its file at most. -/
theorem keeps_writes_exportImage (name : String) (external : Bool) :
    Keeps (Writes o scripts) (exportImage (m := StateM FileTree) o name external) := by
  intro w
  rw [exec_exportImage]
  split
  · exact Writes.refl o scripts w
  · refine Writes.trans ?_ (writes_of_export o scripts (export_exportNew o name external _))
    exact writes_of_session rfl

/-- Exporting the pictures writes their files at most. -/
theorem keeps_writes_exportPictures (maps : MapTable) (all : List Script) :
    Keeps (Writes o scripts) (exportPictures (m := StateM FileTree) o maps all) :=
  keeps_exportPictures (keeps_writes_exportImage o scripts) maps all

/-- Writing the document of a script writes the file of the script. -/
theorem keeps_writes_writeDocument {script : Script} (hscript : script.name ∈ scripts)
    (maps : MapTable) (metadata : Interlevel.Metadata) :
    Keeps (Writes o scripts) (writeDocument (m := StateM FileTree) o maps metadata script) := by
  refine keeps_bind (keeps_writes_warn o scripts _) fun _ => ?_
  refine keeps_writes_writeText o scripts (mem_outputFiles.mpr (Or.inr (Or.inr ?_))) _
  exact mem_namedFiles.mpr (Or.inl ⟨script.name, hscript, rfl⟩)

end Parts

end Converting

end Interlude
