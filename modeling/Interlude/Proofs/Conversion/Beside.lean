import Mathlib
import Interlude.Proofs.Conversion.Continuing
import Interlude.Proofs.Conversion.Lockstep
import Interlude.Proofs.Files.Making
import Interlude.Proofs.Files.Outside

/-!
# A cache beside an archive

A conversion with a cache and one without run side by side. Their files differ in the folder of the
cache only, and what is there was read from the archive, so a lump with a file of its own is fetched
from the cache as it is from the archive.
-/

namespace Interlude

namespace Converting

open Interlude.Path (destination IsName)
open FileTree (AgreeOutside OpensAt)

variable {α : Type} {o : Options} {here : Place} {names : List String} {name path file : String}
  {w v : World} {t : FileTree} {bytes : ByteArray}

/-! ### Beside a cache -/

/-- The bytes of a text lump in an archive that was read. -/
def archived? (sorted : SortedArchive) (name : String) : Option ByteArray :=
  (sorted.table.raw? (Text.upper name)).filter fun bytes => !bytes.isEmpty

/-- The lumps with some names have files of their own in the folder of the cache. -/
structure FitsCache (o : Options) (names : List String) : Prop where
  isName : ∀ name ∈ names, IsName (lumpFile name)
  size_le : ∀ name ∈ names, (lumpFile name).utf8ByteSize ≤ FileTree.longestName
  checkPath_eq : ∀ name ∈ names, FileTree.checkPath (cachePath o name) = .ok ()
  upper_eq : ∀ name ∈ names, ∀ other ∈ names, lumpFile name = lumpFile other →
    Text.upper name = Text.upper other

/-- The world of a conversion with a cache beside that of one without: they differ in the folder of
the cache only, which holds what the archive holds. -/
structure Beside (o : Options) (here : Place) (names : List String) (w v : World) : Prop where
  session_eq : v.session = w.session
  here_eq : w.files.here = here
  agree : AgreeOutside (cachePlace o here) w.files v.files
  opensAt : w.files.OpensAt o.cacheFolder (cachePlace o here)
  not_hasFolder : ∀ key, ¬ w.files.HasFolder (cachePlace o here ++ [key])
  cached : ∀ name ∈ names, ∀ bytes, w.files.file? (lumpPlace o here name) = some bytes →
    ∃ sorted, w.session.sorted = some sorted ∧ archived? sorted name = some bytes

/-- Changing both sessions in the same way, but for the archive that was read. -/
theorem lockstep_modify {f : Session → Session} (hf : ∀ s, (f s).sorted = s.sorted) :
    Lockstep (Beside o here names) (modify f : Converting (StateM FileTree) Unit) (modify f) := by
  intro w v h
  refine ⟨rfl, congrArg f h.session_eq, h.here_eq, h.agree, h.opensAt, h.not_hasFolder, ?_⟩
  intro name hname bytes hfile
  obtain ⟨sorted, hsorted, hbytes⟩ := h.cached name hname bytes hfile
  exact ⟨sorted, (hf w.session).trans hsorted, hbytes⟩

/-- Changing both sessions in the same way where nothing is asked of the cache. -/
theorem lockstep_modify_nil (f : Session → Session) :
    Lockstep (Beside o here []) (modify f : Converting (StateM FileTree) Unit) (modify f) := by
  intro w v h
  refine ⟨rfl, congrArg f h.session_eq, h.here_eq, h.agree, h.opensAt, h.not_hasFolder, ?_⟩
  exact fun name hname => absurd hname List.not_mem_nil

/-- Looking at both sessions. -/
theorem lockstep_get :
    Lockstep (Beside o here names) (get : Converting (StateM FileTree) Session) get :=
  fun _ _ h => ⟨congrArg Except.ok h.session_eq.symm, h⟩

/-- Giving warnings in both. -/
theorem lockstep_warn (warnings : List ConversionWarning) :
    Lockstep (Beside o here names) (warn warnings : Converting (StateM FileTree) Unit)
      (warn warnings) :=
  lockstep_modify fun _ => rfl

/-- An operation that leaves the files and gives the same in both. -/
theorem lockstep_lift {operation : StateM FileTree α} (hleaves : ∀ t, (operation.run t).2 = t)
    (hsame : ∀ t t', t.here = here → AgreeOutside (cachePlace o here) t t' →
      (operation.run t').1 = (operation.run t).1) :
    Lockstep (Beside o here names) (liftM operation : Converting (StateM FileTree) α)
      (liftM operation) := by
  intro w v h
  rw [exec_lift, exec_lift, hleaves, hleaves]
  exact ⟨congrArg Except.ok (hsame _ _ h.here_eq h.agree).symm, h⟩

/-- An operation that leaves the files and gives the same in both, told with a path. -/
theorem lockstep_onPath {operation : StateM FileTree (Except FileFault α)}
    (hleaves : ∀ t, (operation.run t).2 = t)
    (hsame : ∀ t t', t.here = here → AgreeOutside (cachePlace o here) t t' →
      (operation.run t').1 = (operation.run t).1) :
    Lockstep (Beside o here names) (onPath path operation) (onPath path operation) := by
  intro w v h
  rw [exec_onPath, exec_onPath, hleaves, hleaves, hsame _ _ h.here_eq h.agree]
  exact ⟨rfl, h⟩

/-- Reading a file outside the cache. -/
theorem lockstep_readFile (havoids : Path.Avoids here (cachePlace o here) file) :
    Lockstep (Beside o here names)
      (onPath path (FileStore.readFile file) : Converting (StateM FileTree) ByteArray)
      (onPath path (FileStore.readFile file)) := by
  refine lockstep_onPath (fun _ => rfl) ?_
  rintro t t' rfl hagree
  exact hagree.read_eq havoids

/-- What is changed outside the cache in both. -/
theorem Beside.of_files {t' : FileTree} (h : Beside o here names w v) (hhere : t.here = w.files.here)
    (hfolders : t.folders = w.files.folders)
    (hfiles : ∀ place, cachePlace o here <+: place → t.file? place = w.files.file? place)
    (hagree : AgreeOutside (cachePlace o here) t t') :
    Beside o here names ⟨w.session, t⟩ ⟨v.session, t'⟩ where
  session_eq := h.session_eq
  here_eq := hhere.trans h.here_eq
  agree := hagree
  opensAt := h.opensAt.of_extends ⟨hhere, by rw [hfolders]; exact List.Subset.refl _⟩
  not_hasFolder := by
    intro key hkey
    rw [FileTree.HasFolder, hfolders] at hkey
    exact h.not_hasFolder key hkey
  cached := by
    intro name hname bytes hfile
    have hsame : t.file? (lumpPlace o here name) = w.files.file? (lumpPlace o here name) :=
      hfiles _ (List.prefix_append _ _)
    exact h.cached name hname bytes (hsame ▸ hfile)

/-- Writing a file outside the cache. -/
theorem lockstep_writeFile (havoids : Path.Avoids here (cachePlace o here) file) (bytes : ByteArray) :
    Lockstep (Beside o here names)
      (onPath path (FileStore.writeFile file bytes) : Converting (StateM FileTree) Unit)
      (onPath path (FileStore.writeFile file bytes)) := by
  intro w v h
  obtain rfl := h.here_eq
  obtain ⟨hresult, hagree⟩ := h.agree.run_writeFile havoids bytes
  have hchanges := FileTree.changes_writeFile file bytes w.files
  rw [exec_onPath, exec_onPath, hresult]
  refine ⟨rfl, h.of_files hchanges.here_eq (FileTree.folders_run_writeFile file bytes w.files) ?_ hagree⟩
  intro place hplace
  refine hchanges.file?_eq place ?_
  rintro rfl
  exact havoids.resolve hplace

/-! ### The archive -/

/-- The archive and the palette lie outside the cache. -/
structure SourcesAvoid (o : Options) (here : Place) : Prop where
  archive : Path.Avoids here (cachePlace o here) o.archive
  palette : ∀ path ∈ o.palette, Path.Avoids here (cachePlace o here) path

/-- Opening an archive outside the cache gives the same. -/
theorem run_openFile_eq {t' : FileTree} (havoids : Path.Avoids here (cachePlace o here) path)
    (hhere : t.here = here) (hagree : AgreeOutside (cachePlace o here) t t') :
    ((Archive.openFile path : StateM FileTree (Except OpenError Archive)).run t').1 =
      ((Archive.openFile path : StateM FileTree (Except OpenError Archive)).run t).1 := by
  subst hhere
  rw [run_openFile, run_openFile, hagree.read_eq havoids]

/-- Reading the archive where nothing is known of the cache. -/
theorem lockstep_lumps_nil (h : SourcesAvoid o here) :
    Lockstep (Beside o here []) (lumps (m := StateM FileTree) o) (lumps o) := by
  unfold lumps
  refine lockstep_bind lockstep_get fun s => ?_
  cases s.sorted with
  | some sorted => exact lockstep_pure sorted
  | none =>
    have hopen : ∀ t, ((Archive.openFile o.archive : StateM FileTree _).run t).2 = t := by
      intro t
      rw [run_openFile]
    refine lockstep_bind (lockstep_lift hopen fun t t' hhere hagree =>
      run_openFile_eq h.archive hhere hagree) fun opened => ?_
    cases opened with
    | error e => exact lockstep_throw _
    | ok archive =>
      refine lockstep_bind ?_ fun palette => ?_
      · unfold fallbackPalette
        cases hpalette : o.palette with
        | none => exact lockstep_pure none
        | some path =>
          exact lockstep_bind (lockstep_readFile (h.palette path hpalette)) fun _ => lockstep_pure _
      refine lockstep_bind (lockstep_warn _) fun _ => ?_
      exact lockstep_bind (lockstep_modify_nil _) fun _ => lockstep_pure _

/-- Reading the archive in both. -/
theorem lockstep_lumps (h : SourcesAvoid o here) :
    Lockstep (Beside o here names) (lumps (m := StateM FileTree) o) (lumps o) := by
  intro w v hbeside
  have hnil : Beside o here [] w v :=
    { hbeside with cached := fun name hname => absurd hname List.not_mem_nil }
  obtain ⟨hresult, hworld⟩ := lockstep_lumps_nil h w v hnil
  refine ⟨hresult, { hworld with cached := ?_ }⟩
  intro name hname bytes hfile
  rw [(keeps_reads_lumps o w).files_eq] at hfile
  obtain ⟨sorted, hsorted, hbytes⟩ := hbeside.cached name hname bytes hfile
  rw [exec_lumps_of_sorted hsorted]
  exact ⟨sorted, hsorted, hbytes⟩

/-! ### Text lumps -/

/-- A text lump of an archive that was read. -/
theorem exec_archivedText_of_sorted {sorted : SortedArchive} (h : w.session.sorted = some sorted) :
    exec (archivedText (m := StateM FileTree) o (Text.upper name)) w =
      (.ok (archived? sorted name), w) := by
  rw [archivedText, exec_bind, exec_lumps_of_sorted h]
  rfl

/-- A text lump that is given is one of the archive that was read. -/
theorem of_exec_archivedText {found : Option ByteArray}
    (h : exec (archivedText (m := StateM FileTree) o (Text.upper name)) w = (.ok found, v)) :
    ∃ sorted, v.session.sorted = some sorted ∧ archived? sorted name = found := by
  obtain ⟨sorted, u, hlumps, h⟩ := exists_exec_of_bind h
  rw [exec_pure] at h
  obtain ⟨hfound, rfl⟩ := Prod.mk.inj h
  exact ⟨sorted, sorted_of_exec_lumps hlumps, Except.ok.inj hfound⟩

/-- The file of a lump of its own is found at its place. -/
theorem Beside.placeOf_eq (h : Beside o here names w v) (hfits : FitsCache o names)
    (hname : name ∈ names) :
    w.files.placeOf (cachePath o name) = .ok (lumpPlace o here name) := by
  have hcheck := hfits.checkPath_eq name hname
  rw [cachePath_eq] at hcheck ⊢
  exact h.opensAt.placeOf_join (hfits.isName name hname) (hfits.size_le name hname) hcheck

/-- The file of a lump of its own can be made at its place. -/
theorem Beside.newPlace_eq (h : Beside o here names w v) (hfits : FitsCache o names)
    (hname : name ∈ names) :
    w.files.newPlace (cachePath o name) = .ok (lumpPlace o here name) := by
  have hcheck := hfits.checkPath_eq name hname
  rw [cachePath_eq] at hcheck ⊢
  exact h.opensAt.newPlace_join (hfits.isName name hname) (hfits.size_le name hname) hcheck

/-- A lump of the archive can be put into the cache beside a conversion without one. -/
theorem Beside.of_put (h : Beside o here names w v) (hfits : FitsCache o names) (hname : name ∈ names)
    (hfound : ∃ sorted, w.session.sorted = some sorted ∧ archived? sorted name = some bytes) :
    ∃ t, exec (onPath o.cacheFolder (LumpCache.put ⟨o.cacheFolder⟩ (Text.upper name) bytes)) w =
        (.ok (), ⟨w.session, t⟩) ∧ Beside o here names ⟨w.session, t⟩ v := by
  have hplace := h.newPlace_eq hfits hname
  have hdestination := (FileTree.of_newPlace hplace).1
  obtain ⟨t, hwrite⟩ := FileTree.exists_write hplace (h.not_hasFolder _) bytes
  refine ⟨t, ?_, ?_⟩
  · rw [LumpCache.put, ← cachePath, exec_onPath, FileTree.run_writeFile, hwrite]
    rfl
  · refine ⟨h.session_eq, (FileTree.here_write hwrite).trans h.here_eq, ⟨?_, ?_⟩,
      h.opensAt.of_extends (FileTree.extends_write hwrite), ?_, ?_⟩
    · exact h.agree.here_eq.trans (FileTree.here_write hwrite).symm
    · intro p hp
      rw [FileTree.node?_write hwrite, ← hdestination, h.agree.node?_eq p hp, if_neg]
      rintro rfl
      exact hp (List.prefix_append _ _)
    · intro key hkey
      rw [FileTree.HasFolder, FileTree.folders_write hwrite] at hkey
      exact h.not_hasFolder key hkey
    · intro other hother old hfile
      rw [FileTree.file?_write hwrite, ← hdestination] at hfile
      split at hfile
      · -- A lump that shares the file is the same lump.
        rename_i heq
        have hsame := hfits.upper_eq other hother name hname
          (List.singleton_inj.mp (List.append_cancel_left heq))
        obtain ⟨sorted, hsorted, hbytes⟩ := hfound
        refine ⟨sorted, hsorted, ?_⟩
        rw [archived?, hsame, ← hfile]
        exact hbytes
      · exact h.cached other hother old hfile

/-- What is done for a text lump that the cache does not have. -/
def keepArchived (o : Options) (name : String) : Converting (StateM FileTree) (Option ByteArray) := do
  match ← archivedText o (Text.upper name) with
  | some bytes =>
    onPath o.cacheFolder (LumpCache.put ⟨o.cacheFolder⟩ (Text.upper name) bytes)
    return some bytes
  | none => return none

/-- With a cache, a text lump is looked for there first. -/
theorem textLump_cached (o : Options) (name : String) :
    textLump { o with cache := true } name = (do
      match ← onPath o.cacheFolder (LumpCache.get ⟨o.cacheFolder⟩ (Text.upper name)) with
      | some bytes => return some bytes
      | none => keepArchived o name) := by
  rw [textLump, if_pos rfl]
  refine bind_congr fun cached => ?_
  cases cached with
  | some bytes => rfl
  | none =>
    refine bind_congr fun found => ?_
    cases found with
    | some bytes => rfl
    | none => rfl

/-- A text lump that the cache does not have is read from the archive in lockstep. -/
theorem lockstep_keepArchived (hfits : FitsCache o names) (hsources : SourcesAvoid o here)
    (hname : name ∈ names) :
    Lockstep (Beside o here names) (keepArchived o name) (archivedText o (Text.upper name)) := by
  intro w v h
  have harchived : Lockstep (Beside o here names)
      (archivedText (m := StateM FileTree) o (Text.upper name)) (archivedText o (Text.upper name)) :=
    lockstep_bind (lockstep_lumps hsources) fun _ => lockstep_pure _
  suffices hboth : Together (Beside o here names) (exec (keepArchived o name) w)
      (exec (archivedText o (Text.upper name) >>= pure) v) by
    rwa [bind_pure] at hboth
  refine together_bind (harchived w v h) ?_
  intro found w' v' hexec h'
  cases found with
  | none => exact ⟨rfl, h'⟩
  | some bytes =>
    obtain ⟨sorted, hsorted, hbytes⟩ := of_exec_archivedText hexec
    obtain ⟨t, hput, hbeside⟩ := h'.of_put hfits hname ⟨sorted, h'.session_eq ▸ hsorted, hbytes⟩
    dsimp only
    rw [exec_bind, hput]
    exact ⟨rfl, hbeside⟩

/-- A text lump is fetched from the cache and from the archive in lockstep. -/
theorem lockstep_textLump (hfits : FitsCache o names) (hsources : SourcesAvoid o here)
    (hname : name ∈ names) :
    Lockstep (Beside o here names) (textLump { o with cache := true } name)
      (textLump { o with cache := false } name) := by
  intro w v h
  have hread : w.files.read (cachePath o name) = match w.files.file? (lumpPlace o here name) with
      | some bytes => .ok bytes
      | none => .error .missing :=
    FileTree.read_of_placeOf (h.placeOf_eq hfits hname) (h.not_hasFolder _)
  have hdirect : textLump (m := StateM FileTree) { o with cache := false } name =
      archivedText o (Text.upper name) := rfl
  rw [hdirect, textLump_cached, exec_bind, exec_cacheGet, hread]
  cases hfile : w.files.file? (lumpPlace o here name) with
  | some bytes =>
    obtain ⟨sorted, hsorted, hbytes⟩ := h.cached name hname bytes hfile
    rw [exec_archivedText_of_sorted (h.session_eq ▸ hsorted), hbytes]
    exact ⟨rfl, h⟩
  | none => exact lockstep_keepArchived hfits hsources hname w v h

end Converting

end Interlude
