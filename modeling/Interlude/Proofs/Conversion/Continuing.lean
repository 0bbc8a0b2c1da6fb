import Mathlib
import Interlude.Proofs.Conversion.CacheFiles

/-!
# What stays as a conversion goes on

Fetching lumps and writing texts leave the folders and what the session tells about pictures, and a
warning that was given stays. What the cache has been found to hold it holds from then on, since a
lump is put there only if it was not found, and since no output lies there.
-/

namespace Interlude

namespace Converting

open Interlude.Path (destination)

variable {o : Options} {name path file : String} {w v : World} {t t' : FileTree}

/-! ### Files -/

/-- Pictures and warnings are as in a quiet session, the folders stay, and a lump that the cache
holds it holds from then on. -/
structure Continues (o : Options) (w v : World) : Prop where
  quiet : Quiet w.session v.session
  here_eq : v.files.here = w.files.here
  folders_eq : v.files.folders = w.files.folders
  cached : ∀ name bytes, w.files.read (cachePath o name) = .ok bytes →
    v.files.read (cachePath o name) = .ok bytes

/-- A part that only reads is one after which the conversion continues. -/
theorem Reads.continues (h : Reads o w v) : Continues o w v := by
  refine ⟨h.quiet, ?_, ?_, ?_⟩
  · rw [h.files_eq]
  · rw [h.files_eq]
  · rw [h.files_eq]
    exact fun _ _ hread => hread

instance : IsPreorder World (Continues o) where
  refl w := (refl_of (Reads o) w).continues
  trans _ _ _ h h' := ⟨h.quiet.trans h'.quiet, h'.here_eq.trans h.here_eq,
    h'.folders_eq.trans h.folders_eq,
    fun name bytes hread => h'.cached name bytes (h.cached name bytes hread)⟩

/-- The folders that were there are there as the conversion goes on. -/
theorem Continues.extends (h : Continues o w v) : FileTree.Extends w.files v.files :=
  ⟨h.here_eq, by rw [h.folders_eq]; exact List.Subset.refl _⟩

/-- Writing at a place where no lump is kept leaves the cache. -/
theorem continues_of_write {bytes : ByteArray} (h : w.files.write path bytes = .ok t')
    (hcached : ∀ name old, w.files.read (cachePath o name) = .ok old →
      lumpPlace o w.files.here name ≠ destination w.files.here path) :
    Continues o w ⟨w.session, t'⟩ where
  quiet := Quiet.refl w.session
  here_eq := FileTree.here_write h
  folders_eq := FileTree.folders_write h
  cached := by
    intro name old hread
    obtain ⟨hplace, hfile⟩ := placeOf_of_read hread
    refine FileTree.read_eq_ok_iff.mpr ⟨_, (FileTree.extends_write h).placeOf hplace, ?_⟩
    rw [FileTree.file?_write h, if_neg (hcached name old hread), hfile]

/-- After writing a text the conversion continues. -/
theorem keeps_continues_writeText (o : Options) (hfile : IsTextFile file) (text : String) :
    Keeps (Continues o) (writeText (m := StateM FileTree) o file text) := by
  intro w
  unfold writeText
  rw [exec_onPath, FileTree.run_writeFile]
  cases hwrite : w.files.write (o.target file) text.toUTF8 with
  | error fault => exact refl_of (Continues o) w
  | ok t =>
    obtain ⟨place, hplace, _⟩ := FileTree.write_eq_ok_iff.mp hwrite
    refine continues_of_write hwrite fun name old _ => ?_
    rw [← (FileTree.of_newPlace hplace).1]
    exact (ne_lumpPlace_of_newPlace hfile hplace _ name).symm

/-! ### Lumps -/

/-- Keeping a lump that the cache does not hold leaves the lumps that it holds. -/
theorem continues_of_put (hmissing : w.files.read (cachePath o name) = .error .missing)
    (bytes : ByteArray) :
    Continues o w (exec (onPath o.cacheFolder
      (LumpCache.put ⟨o.cacheFolder⟩ (Text.upper name) bytes)) w).2 := by
  rw [LumpCache.put, ← cachePath, exec_onPath, FileTree.run_writeFile]
  cases hwrite : w.files.write (cachePath o name) bytes with
  | error fault => exact refl_of (Continues o) w
  | ok t =>
    obtain ⟨place, hplace, _⟩ := FileTree.write_eq_ok_iff.mp hwrite
    refine continues_of_write hwrite fun other old hread heq => ?_
    -- A lump at that place would have been found.
    have hfile := (placeOf_of_read hread).2
    rw [heq, ← (FileTree.of_newPlace hplace).1] at hfile
    rw [FileTree.read_eq_ok_iff.mpr ⟨_, FileTree.placeOf_of_newPlace hplace, hfile⟩] at hmissing
    cases hmissing

/-- After fetching a text lump the conversion continues. -/
theorem keeps_continues_textLump (o : Options) (name : String) :
    Keeps (Continues o) (textLump (m := StateM FileTree) o name) :=
  keeps_textLump Reads.continues continues_of_put

/-- After reading a script the conversion continues. -/
theorem keeps_continues_readScript (o : Options) (name : String) :
    Keeps (Continues o) (readScript (m := StateM FileTree) o name) :=
  readScript_eq o name ▸ keeps_readText Reads.continues (keeps_continues_textLump o name)

/-! ### Stages -/

/-- What a conversion does first: making its folders. -/
def openFolders (o : Options) : Converting (StateM FileTree) Unit := do
  onPath o.output (FileStore.createFolders o.output)
  if o.cache then
    let _ ← onPath o.cacheFolder (LumpCache.openIn (m := StateM FileTree) o.cacheFolder)

/-- What a conversion does then: reading the table of the maps and the scripts. -/
def gather (o : Options) : Converting (StateM FileTree) (MapTable × List Script) := do
  let maps ← readMaps o
  return (maps, ← maps.scripts.mapM (readScript o))

/-- What a conversion does then: writing the texts. -/
def saveTexts (o : Options) (now : String) (maps : MapTable) (scripts : List Script) :
    Converting (StateM FileTree) Unit := do
  writeText o mapFile (Umapinfo.render maps)
  writeText o creditsFile (Umapinfo.credits o.author)
  for script in scripts do
    writeDocument o maps
      (.forMod o.porter Options.application (o.timestamp.getD now) o.title o.author) script

/-- What a conversion does at last: writing the pictures and reporting. -/
def finish (o : Options) (maps : MapTable) (scripts : List Script) :
    Converting (StateM FileTree) Report := do
  exportPictures o maps scripts
  let s ← get
  return ⟨maps.maps.length, scripts.map Script.name, s.written, s.skipped⟩

/-- Preparing a conversion is making its folders and reading the table of the maps. -/
theorem prepare_eq (o : Options) :
    prepare (m := StateM FileTree) o = openFolders o >>= fun _ => readMaps o := by
  unfold prepare openFolders
  rw [bind_assoc]
  congr 1
  funext _
  split
  · rw [bind_assoc]
    rfl
  · rfl

/-- A conversion does one after the other. -/
theorem run_eq (o : Options) (now : String) :
    run o now = (do
      openFolders o
      let (maps, scripts) ← gather o
      saveTexts o now maps scripts
      finish o maps scripts) := by
  simp only [run, prepare_eq, gather, saveTexts, finish, bind_assoc, pure_bind]
  rfl

/-- A conversion that succeeds has gone through its stages. -/
theorem exists_exec_of_run {now : String} {report : Report}
    (h : exec (run o now) w = (.ok report, v)) :
    ∃ maps scripts w₁ w₂ w₃, exec (openFolders o) w = (.ok (), w₁) ∧
      exec (gather o) w₁ = (.ok (maps, scripts), w₂) ∧
      exec (saveTexts o now maps scripts) w₂ = (.ok (), w₃) ∧
      exec (finish o maps scripts) w₃ = (.ok report, v) := by
  rw [run_eq] at h
  obtain ⟨_, w₁, hfolders, h⟩ := exists_exec_of_bind h
  obtain ⟨⟨maps, scripts⟩, w₂, hread, h⟩ := exists_exec_of_bind h
  obtain ⟨_, w₃, htexts, hfinish⟩ := exists_exec_of_bind h
  exact ⟨maps, scripts, w₁, w₂, w₃, hfolders, hread, htexts, hfinish⟩

/-- A conversion that succeeds reports what its session tells after it has exported the pictures. -/
theorem exec_exportPictures_of_finish {maps : MapTable} {scripts : List Script} {report : Report}
    (h : exec (finish o maps scripts) w = (.ok report, v)) :
    exec (exportPictures o maps scripts) w = (.ok (), v) ∧
      report = ⟨maps.maps.length, scripts.map Script.name, v.session.written, v.session.skipped⟩ := by
  obtain ⟨_, u, hpictures, h⟩ := exists_exec_of_bind h
  obtain ⟨s, u', hsession, h⟩ := exists_exec_of_bind h
  obtain ⟨hs, rfl⟩ := Prod.mk.inj hsession
  obtain rfl := Except.ok.inj hs
  obtain ⟨hreport, rfl⟩ := Prod.mk.inj h
  exact ⟨hpictures, (Except.ok.inj hreport).symm⟩

/-- Making folders leaves the session. -/
theorem session_exec_openFolders (o : Options) (w : World) :
    (exec (openFolders o) w).2.session = w.session := by
  unfold openFolders
  rw [exec_bind, exec_onPath]
  generalize (FileStore.createFolders o.output : StateM FileTree _).run w.files = ran
  obtain ⟨_ | _, t⟩ := ran
  · rfl
  · change (exec (if _ then _ else _) _).2.session = _
    split
    · rw [world_exec_bind_pure, exec_onPath]
    · rfl

section Stages

variable {R : World → World → Prop} [IsPreorder World R]

/-- What is kept by reading, and by keeping a lump that the cache does not hold, is kept by reading the
table of the maps and the scripts. -/
theorem keeps_gather (hreads : ∀ {w v}, Reads o w v → R w v)
    (hput : ∀ {name : String} {w : World}, w.files.read (cachePath o name) = .error .missing →
      ∀ bytes, R w (exec (onPath o.cacheFolder
        (LumpCache.put ⟨o.cacheFolder⟩ (Text.upper name) bytes)) w).2) :
    Keeps R (gather o) := by
  have hscript (name : String) : Keeps R (readScript (m := StateM FileTree) o name) :=
    readScript_eq o name ▸ keeps_readText hreads (keeps_textLump hreads hput)
  rw [gather, readMaps_eq]
  refine keeps_bind (keeps_readText hreads (keeps_textLump hreads hput)) fun maps => ?_
  exact keeps_bind (keeps_mapM fun name _ => hscript name) fun scripts => keeps_pure (maps, scripts)

/-- What is kept by reading and by writing a text is kept by writing all texts. -/
theorem keeps_saveTexts (hreads : ∀ {w v}, Reads o w v → R w v)
    (htext : ∀ {file}, IsTextFile file → ∀ text, Keeps R (writeText (m := StateM FileTree) o file text))
    (now : String) (maps : MapTable) (scripts : List Script) :
    Keeps R (saveTexts o now maps scripts) := by
  refine keeps_bind (htext isTextFile_mapFile _) fun _ => ?_
  refine keeps_bind (htext isTextFile_creditsFile _) fun _ => ?_
  refine keeps_bind (keeps_forIn (fun script _ _ => ?_) _) fun _ => keeps_pure _
  refine keeps_bind ?_ fun _ => keeps_pure _
  exact keeps_bind ((keeps_reads_warn _).mono hreads) fun _ => htext (isTextFile_json script.name) _

end Stages

/-- After reading the table of the maps and the scripts the conversion continues. -/
theorem keeps_continues_gather (o : Options) : Keeps (Continues o) (gather o) :=
  keeps_gather Reads.continues continues_of_put

/-- After writing the texts the conversion continues. -/
theorem keeps_continues_saveTexts (o : Options) (now : String) (maps : MapTable)
    (scripts : List Script) : Keeps (Continues o) (saveTexts o now maps scripts) :=
  keeps_saveTexts Reads.continues (keeps_continues_writeText o) now maps scripts

end Converting

end Interlude
