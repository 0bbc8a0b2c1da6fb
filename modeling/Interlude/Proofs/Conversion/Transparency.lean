import Mathlib
import Interlude.Proofs.Conversion.Beside
import Interlude.Proofs.Conversion.Containment
import Interlude.Proofs.Conversion.Pictures
import Interlude.Proofs.Conversion.Rerun
import Interlude.Proofs.MapTable.Declarations

/-!
# With and without a cache

A conversion that begins without a cache folder does the same with a cache as without, outside the
folder of the cache, if the lumps that it reads have files of their own there and none of its other
paths leads there. The files of the cache do not tell apart the names that differ in slashes and
colons, so without the first condition a script may be taken for another one.
-/

namespace Interlude

namespace Converting

open Interlude.Path (destination IsName)
open FileTree (AgreeOutside OpensAt)

variable {o : Options} {here : Place} {names : List String} {name file : String}
  {maps : MapTable} {script : Script} {scripts : List Script} {w v : World} {t : FileTree}

/-! ### Reading -/

/-- What is made of a text lump is so in lockstep. -/
theorem lockstep_readText {α : Type} (hfits : FitsCache o names) (hsources : SourcesAvoid o here)
    (hname : name ∈ names) (made : Option String → α × List ConversionWarning) :
    Lockstep (Beside o here names) (readText { o with cache := true } name made)
      (readText { o with cache := false } name made) := by
  refine lockstep_bind (lockstep_textLump hfits hsources hname) fun found => ?_
  exact lockstep_bind (lockstep_warn _) fun _ => lockstep_pure _

/-- The table of the maps is read in lockstep. -/
theorem lockstep_readMaps (hfits : FitsCache o names) (hsources : SourcesAvoid o here)
    (hname : o.mapLump ∈ names) :
    Lockstep (Beside o here names) (readMaps { o with cache := true })
      (readMaps { o with cache := false }) := by
  rw [readMaps_eq, readMaps_eq]
  exact lockstep_readText hfits hsources hname (madeMaps o)

/-- A script is read in lockstep. -/
theorem lockstep_readScript (hfits : FitsCache o names) (hsources : SourcesAvoid o here)
    (hname : name ∈ names) :
    Lockstep (Beside o here names) (readScript { o with cache := true } name)
      (readScript { o with cache := false } name) := by
  rw [readScript_eq, readScript_eq]
  exact lockstep_readText hfits hsources hname (madeScript name)

/-! ### Writing -/

/-- A file in the output folder lies outside the cache. -/
def TargetAvoids (o : Options) (here : Place) (file : String) : Prop :=
  Path.Avoids here (cachePlace o here) (o.target file)

/-- A text is written in lockstep. -/
theorem lockstep_writeText (havoids : TargetAvoids o here file) (text : String) :
    Lockstep (Beside o here names) (writeText (m := StateM FileTree) o file text)
      (writeText o file text) :=
  lockstep_writeFile havoids _

/-- The texts are written in lockstep. -/
theorem lockstep_saveTexts {images : List String} (now : String) (maps : MapTable)
    (havoids : ∀ file ∈ outputFiles (scripts.map Script.name) images, TargetAvoids o here file) :
    Lockstep (Beside o here names) (saveTexts o now maps scripts) (saveTexts o now maps scripts) := by
  have hmaps := havoids mapFile (mem_outputFiles.mpr (Or.inl rfl))
  have hcredits := havoids creditsFile (mem_outputFiles.mpr (Or.inr (Or.inl rfl)))
  refine lockstep_bind (lockstep_writeText hmaps _) fun _ => ?_
  refine lockstep_bind (lockstep_writeText hcredits _) fun _ => ?_
  refine lockstep_bind (lockstep_forIn (fun script hscript _ => ?_) _) fun _ => lockstep_pure _
  refine lockstep_bind ?_ fun _ => lockstep_pure _
  refine lockstep_bind (lockstep_warn _) fun _ => lockstep_writeText (havoids _ ?_) _
  exact mem_outputFiles.mpr (Or.inr (Or.inr (mem_namedFiles.mpr
    (Or.inl ⟨script.name, List.mem_map_of_mem hscript, rfl⟩))))

/-- A picture is skipped in lockstep. -/
theorem lockstep_skip (name : String) :
    Lockstep (Beside o here names) (skip (m := StateM FileTree) name) (skip name) :=
  lockstep_modify fun _ => rfl

/-- The file of a picture is made in lockstep. -/
theorem lockstep_imageFile (sorted : SortedArchive) (name : String) (content : Content) :
    Lockstep (Beside o here names) (imageFile (m := StateM FileTree) sorted name content)
      (imageFile sorted name content) := by
  cases content with
  | png bytes => exact lockstep_pure _
  | picture category picture =>
    unfold imageFile
    dsimp only
    split
    · exact lockstep_pure _
    · exact lockstep_throw _
  | _ => exact lockstep_pure _

/-- A picture that was not asked for is exported in lockstep. -/
theorem lockstep_exportNew (hsources : SourcesAvoid o here)
    (havoids : TargetAvoids o here (name ++ ".png")) (external : Bool) :
    Lockstep (Beside o here names) (exportNew (m := StateM FileTree) o name external)
      (exportNew o name external) := by
  unfold exportNew
  refine lockstep_bind (lockstep_lift (fun _ => rfl) ?_) fun there => ?_
  · rintro t t' rfl hagree
    exact hagree.isThere_eq havoids
  split
  · exact lockstep_skip name
  refine lockstep_bind (lockstep_lumps hsources) fun sorted => ?_
  refine lockstep_bind ?_ fun file => ?_
  · cases sorted.table.content? (Text.upper name) with
    | none => exact lockstep_pure none
    | some content => exact lockstep_imageFile sorted name content
  cases file with
  | none =>
    dsimp only
    split
    · exact lockstep_bind (lockstep_warn _) fun _ => lockstep_skip name
    · exact lockstep_skip name
  | some bytes =>
    exact lockstep_bind (lockstep_writeFile havoids bytes) fun _ => lockstep_modify fun _ => rfl

/-- A picture is exported in lockstep. -/
theorem lockstep_exportImage (hsources : SourcesAvoid o here)
    (havoids : TargetAvoids o here (name ++ ".png")) (external : Bool) :
    Lockstep (Beside o here names) (exportImage (m := StateM FileTree) o name external)
      (exportImage o name external) := by
  refine lockstep_bind lockstep_get fun s => ?_
  split
  · exact lockstep_bind (lockstep_modify fun _ => rfl) fun _ =>
      lockstep_exportNew hsources havoids external
  · exact lockstep_pure ()

/-- The pictures that a conversion with some maps and scripts exports. -/
def exportedImages (o : Options) (maps : MapTable) (scripts : List Script) : List String :=
  if o.saveGraphics then scripts.flatMap (listedImages maps) ++ maps.endPicture?.toList else []

/-- The pictures are exported in lockstep. -/
theorem lockstep_exportPictures (hsources : SourcesAvoid o here)
    (havoids : ∀ image ∈ exportedImages o maps scripts, TargetAvoids o here (image ++ ".png")) :
    Lockstep (Beside o here names) (exportPictures (m := StateM FileTree) o maps scripts)
      (exportPictures o maps scripts) := by
  unfold exportPictures
  split
  · rename_i hgraphics
    rw [exportedImages, if_pos hgraphics] at havoids
    have hlisted : ∀ script ∈ scripts, ∀ image ∈ listedImages maps script,
        TargetAvoids o here (image ++ ".png") := fun script hscript image himage =>
      havoids image (List.mem_append_left _ (List.mem_flatMap.mpr ⟨script, hscript, himage⟩))
    refine lockstep_bind (lockstep_forIn (fun script hscript _ => ?_) _) fun _ => ?_
    · refine lockstep_bind ?_ fun _ => lockstep_pure _
      refine lockstep_bind (lockstep_forIn (fun image himage _ => ?_) _) fun _ => ?_
      · exact lockstep_bind (lockstep_exportImage hsources
          (hlisted script hscript image (List.mem_append_left _ himage)) _) fun _ => lockstep_pure _
      · refine lockstep_bind (lockstep_forIn (fun image himage _ => ?_) _) fun _ => lockstep_pure _
        exact lockstep_bind (lockstep_exportImage hsources
          (hlisted script hscript image (List.mem_append_right _ himage)) _) fun _ => lockstep_pure _
    · rw [← Option.forIn_toList]
      refine lockstep_bind (lockstep_forIn (fun image himage _ => ?_) _) fun _ => lockstep_pure _
      exact lockstep_bind (lockstep_exportImage hsources
        (havoids image (List.mem_append_right _ himage)) _) fun _ => lockstep_pure _
  · exact lockstep_pure _

/-- A conversion is finished in lockstep. -/
theorem lockstep_finish (hsources : SourcesAvoid o here)
    (havoids : ∀ image ∈ exportedImages o maps scripts, TargetAvoids o here (image ++ ".png")) :
    Lockstep (Beside o here names) (finish o maps scripts) (finish o maps scripts) :=
  lockstep_bind (lockstep_exportPictures hsources havoids) fun _ =>
    lockstep_bind lockstep_get fun _ => lockstep_pure _

/-! ### Both conversions -/

/-- The lumps that a conversion without a cache looks up. -/
def lookedUp (o : Options) (t : FileTree) : List String :=
  o.mapLump :: tableScripts { o with cache := false } t

/-- The files that a conversion without a cache may write to its output folder. -/
def filesWithout (o : Options) (t : FileTree) : List String :=
  match gathered { o with cache := false } t with
  | .ok (maps, scripts) => outputFiles (scripts.map Script.name) (exportedImages o maps scripts)
  | .error _ => []

/-- The paths that a conversion without a cache uses. -/
def pathsWithout (o : Options) (t : FileTree) : List String :=
  [o.output, o.archive] ++ o.palette.toList ++ (filesWithout o t).map o.target

/-- A cache would be a folder of its own: nothing is there, the lumps have files of their own in it,
and no path of the conversion leads there. If the output folder has the empty path, it is the one in
which relative paths begin, which is not made. -/
structure CacheApart (o : Options) (t : FileTree) : Prop where
  start : o.output = "" → t.HasFolder t.here
  fresh : ∀ place, cachePlace o t.here <+: place → t.node? place = none
  fits : FitsCache o (lookedUp o t)
  avoids : ∀ path ∈ pathsWithout o t, Path.Avoids t.here (cachePlace o t.here) path

/-- The cache is directly in the output folder. -/
theorem cachePlace_eq (o : Options) (here : Place) :
    cachePlace o here = destination here o.output ++ ["_tmp"] :=
  Path.destination_join_name (by decide) here o.output

/-- The folder of the cache has a path. -/
theorem cacheFolder_ne_empty (o : Options) : o.cacheFolder ≠ "" := by
  obtain ⟨before, hparts⟩ := Path.exists_parts_join o.output "_tmp"
  have hslash : '/' ∉ "_tmp".toList := by decide
  rw [Path.parts_of_no_slash hslash, ← Options.cacheFolder] at hparts
  intro hempty
  have hlast := congrArg List.getLast? hparts
  rw [hempty, List.getLast?_concat] at hlast
  exact absurd hlast (by decide)

/-- Making the output folder puts nothing where the cache would be. -/
theorem CacheApart.node?_createFolders (h : CacheApart o t) {place : Place}
    (hplace : cachePlace o t.here <+: place) :
    ((FileStore.createFolders o.output : StateM FileTree _).run t).2.node? place = none := by
  obtain ⟨hfolder, hfile⟩ := FileTree.node?_eq_none_iff.mp (h.fresh place hplace)
  refine FileTree.node?_eq_none_iff.mpr ⟨fun hmade => ?_, ?_⟩
  · rcases (FileTree.addsOnWay_createFolders o.output t).hasFolder place hmade with
      hbefore | ⟨start, hstart, rfl⟩
    · exact hfolder hbefore
    · obtain ⟨way, hway, hdestination⟩ := FileTree.destination_of_isStart hstart t.here
      rw [hdestination] at hplace
      exact ((h.avoids o.output List.mem_cons_self).of_first hway).resolve hplace
  · rw [(FileTree.changes_createFolders o.output t).file?_eq place id, hfile]

/-- The output folder that was made is open. -/
theorem CacheApart.opensAt_output {t₁ : FileTree} (h : CacheApart o t)
    (hmade : (FileStore.createFolders o.output : StateM FileTree _).run t = (.ok (), t₁)) :
    t₁.OpensAt o.output (destination t.here o.output) := by
  have hext : FileTree.Extends t t₁ := by
    have hext := FileTree.extends_createFolders o.output t
    rwa [hmade] at hext
  rcases FileTree.isFolder_of_run_createFolders hmade with hempty | hfolder
  · have hplace : destination t.here o.output = t.here := by rw [hempty]; rfl
    rw [hplace]
    exact ⟨hext.hasFolder (h.start hempty), Or.inl ⟨hempty, hext.here_eq.symm⟩⟩
  · obtain ⟨place, hplace, hfolder⟩ := FileTree.isFolder_iff.mp hfolder
    have hdestination := FileTree.destination_of_placeOf hplace
    rw [hext.here_eq] at hdestination
    rw [← hdestination]
    exact ⟨hfolder, Or.inr hplace⟩

/-- The folder of the cache can be asked for where the file of a lump can. -/
theorem FitsCache.checkPath_cacheFolder (h : FitsCache o names) (hname : name ∈ names) :
    FileTree.checkPath o.cacheFolder = .ok () := by
  have hlump := h.checkPath_eq name hname
  rw [cachePath_eq] at hlump
  exact FileTree.checkPath_of_join hlump (slash_not_mem_lumpFile _) (cacheFolder_ne_empty o)

/-- Where nothing is at the place of the cache, making its folder begins a conversion beside. -/
theorem beside_of_opensAt (s : Session) (names : List String) (hhere : t.here = here)
    (hopen : t.OpensAt o.output (destination here o.output))
    (hcheck : FileTree.checkPath o.cacheFolder = .ok ())
    (hnone : ∀ place, cachePlace o here <+: place → t.node? place = none) :
    ∃ u, (FileStore.createFolders o.cacheFolder : StateM FileTree _).run t = (.ok (), u) ∧
      Beside o here names ⟨s, u⟩ ⟨s, t⟩ := by
  have htmp : Path.IsName "_tmp" := by decide
  have hsize : "_tmp".utf8ByteSize ≤ FileTree.longestName := by decide
  have hcreate := hopen.run_createFolders_join htmp hsize hcheck
    (cachePlace_eq o here ▸ hnone _ (List.prefix_refl _))
  rw [← Options.cacheFolder, ← cachePlace_eq] at hcreate
  have hext : FileTree.Extends t { t with folders := cachePlace o here :: t.folders } :=
    ⟨rfl, List.subset_cons_self _ _⟩
  have hplace := (hopen.of_extends hext).placeOf_join htmp hsize hcheck
  rw [← cachePlace_eq] at hplace
  have hinner : ∀ key, ({ t with folders := cachePlace o here :: t.folders } : FileTree).node?
      (cachePlace o here ++ [key]) = none := by
    intro key
    rw [FileTree.node?_cons_folders (by simp)]
    exact hnone _ (List.prefix_append _ _)
  refine ⟨_, hcreate, rfl, hhere, ⟨rfl, ?_⟩, ⟨Or.inr List.mem_cons_self, Or.inr hplace⟩, ?_, ?_⟩
  · intro place houtside
    rw [FileTree.node?_cons_folders]
    rintro rfl
    exact houtside (List.prefix_refl _)
  · exact fun key => (FileTree.node?_eq_none_iff.mp (hinner key)).1
  · intro name _ bytes hfile
    rw [lumpPlace, (FileTree.node?_eq_none_iff.mp (hinner _)).2] at hfile
    cases hfile

/-- After the output folder was made, a conversion with a cache makes that of the cache, and the two
begin beside each other. -/
theorem CacheApart.exists_beside {t₁ : FileTree} (h : CacheApart o t) (s : Session)
    (hmade : (FileStore.createFolders o.output : StateM FileTree _).run t = (.ok (), t₁)) :
    ∃ t₂, (FileStore.createFolders o.cacheFolder : StateM FileTree _).run t₁ = (.ok (), t₂) ∧
      Beside o t.here (lookedUp o t) ⟨s, t₂⟩ ⟨s, t₁⟩ := by
  have hchanges := FileTree.changes_createFolders o.output t
  rw [hmade] at hchanges
  refine beside_of_opensAt s _ hchanges.here_eq (h.opensAt_output hmade)
    (h.fits.checkPath_cacheFolder List.mem_cons_self) ?_
  intro place hplace
  have hnone := h.node?_createFolders hplace
  rwa [hmade] at hnone

/-- With a cache, a conversion makes its output folder and then that of the cache. -/
theorem exec_openFolders_of_cache {t₁ t₂ : FileTree} (hcache : o.cache = true)
    (houtput : (FileStore.createFolders o.output : StateM FileTree _).run t = (.ok (), t₁))
    (hfolder : (FileStore.createFolders o.cacheFolder : StateM FileTree _).run t₁ = (.ok (), t₂))
    (s : Session) : exec (openFolders o) ⟨s, t⟩ = (.ok (), ⟨s, t₂⟩) := by
  rw [openFolders, exec_bind, exec_onPath, houtput]
  dsimp only [Except.mapError]
  rw [if_pos hcache, exec_bind, exec_onPath, run_openIn, hfolder]
  rfl

/-- The two conversions fail together when they make their folders, or they go on beside each other. -/
theorem CacheApart.exec_openFolders (h : CacheApart o t) :
    (∃ e u, exec (openFolders { o with cache := true }) ⟨.start, t⟩ = (.error e, u) ∧
      exec (openFolders { o with cache := false }) ⟨.start, t⟩ = (.error e, u)) ∨
    ∃ w v, exec (openFolders { o with cache := true }) ⟨.start, t⟩ = (.ok (), w) ∧
      exec (openFolders { o with cache := false }) ⟨.start, t⟩ = (.ok (), v) ∧
      Beside o t.here (lookedUp o t) w v := by
  have hmake : exec (onPath o.output (FileStore.createFolders o.output)) ⟨.start, t⟩ =
      (((FileStore.createFolders o.output : StateM FileTree _).run t).1.mapError (.file o.output),
        ⟨.start, ((FileStore.createFolders o.output : StateM FileTree _).run t).2⟩) :=
    exec_onPath _ _ _
  rcases hmade : (FileStore.createFolders o.output : StateM FileTree _).run t with ⟨fault | _, t₁⟩
  · rw [hmade] at hmake
    refine Or.inl ⟨.file o.output fault, ⟨.start, t₁⟩, ?_, ?_⟩
    · rw [openFolders, exec_bind, hmake]
      rfl
    · rw [openFolders, exec_bind, hmake]
      rfl
  · rw [hmade] at hmake
    obtain ⟨t₂, hcache, hbeside⟩ := h.exists_beside .start hmade
    refine Or.inr ⟨⟨.start, t₂⟩, ⟨.start, t₁⟩, ?_, ?_, hbeside⟩
    · exact exec_openFolders_of_cache (o := { o with cache := true }) rfl hmade hcache .start
    · rw [openFolders, exec_bind, hmake]
      rfl

/-- The texts are written alike with and without a cache. -/
theorem saveTexts_cache (o : Options) (cache : Bool) : saveTexts { o with cache } = saveTexts o :=
  rfl

/-- A conversion is finished alike with and without a cache. -/
theorem finish_cache (o : Options) (cache : Bool) : finish { o with cache } = finish o :=
  rfl

/-- The maps and scripts are read together. -/
theorem CacheApart.together_gather (h : CacheApart o t) (hsources : SourcesAvoid o t.here)
    (hfolders : exec (openFolders { o with cache := false }) ⟨.start, t⟩ = (.ok (), v))
    (hbeside : Beside o t.here (lookedUp o t) w v) :
    Together (Beside o t.here (lookedUp o t)) (exec (gather { o with cache := true }) w)
      (exec (gather { o with cache := false }) v) := by
  refine together_bind (lockstep_readMaps h.fits hsources List.mem_cons_self w v hbeside) ?_
  intro maps w' v' hmaps hbeside'
  have hscripts : tableScripts { o with cache := false } t = maps.scripts := by
    rw [tableScripts, prepare_eq, exec_bind, hfolders]
    dsimp only
    rw [hmaps]
  refine lockstep_bind (lockstep_mapM fun name hname => ?_) (fun _ => lockstep_pure _) w' v' hbeside'
  refine lockstep_readScript h.fits hsources (List.mem_cons_of_mem _ ?_)
  rwa [hscripts]

/-- The archive and the palette are not in the cache. -/
theorem CacheApart.sourcesAvoid (h : CacheApart o t) : SourcesAvoid o t.here where
  archive := h.avoids o.archive (by simp [pathsWithout])
  palette := fun path hpath => h.avoids path (by simp [pathsWithout, Option.mem_def.mp hpath])

/-- No file that is written without a cache is in the cache. -/
theorem CacheApart.targetAvoids (h : CacheApart o t) {maps : MapTable} {scripts : List Script}
    (hgathered : gathered { o with cache := false } t = .ok (maps, scripts)) :
    ∀ file ∈ outputFiles (scripts.map Script.name) (exportedImages o maps scripts),
      TargetAvoids o t.here file := by
  intro file hfile
  refine h.avoids (o.target file) (List.mem_append_right _ (List.mem_map_of_mem ?_))
  rwa [filesWithout, hgathered]

/-- The two conversions run together. -/
theorem CacheApart.together_run (h : CacheApart o t) (htime : o.timestamp.isSome = true)
    (now now' : String) :
    Together (fun w v => v.session = w.session ∧ AgreeOutside (cachePlace o t.here) w.files v.files)
      (exec (run { o with cache := true } now) ⟨.start, t⟩)
      (exec (run { o with cache := false } now') ⟨.start, t⟩) := by
  rw [run_eq, run_eq, exec_bind, exec_bind]
  rcases h.exec_openFolders with ⟨e, u, hcached, hdirect⟩ | ⟨w, v, hcached, hdirect, hbeside⟩
  · rw [hcached, hdirect]
    exact ⟨rfl, rfl, AgreeOutside.refl _ _⟩
  rw [hcached, hdirect]
  dsimp only
  suffices hrest : Together (Beside o t.here (lookedUp o t)) _ _ from
    ⟨hrest.1, hrest.2.session_eq, hrest.2.agree⟩
  refine together_bind (h.together_gather h.sourcesAvoid hdirect hbeside) ?_
  rintro ⟨maps, scripts⟩ w' v' hgather hbeside'
  have hgathered : gathered { o with cache := false } t = .ok (maps, scripts) := by
    rw [gathered_eq, exec_bind, hdirect]
    dsimp only
    rw [hgather]
  have havoids := h.targetAvoids hgathered
  dsimp only
  rw [saveTexts_cache, saveTexts_cache, finish_cache, finish_cache, saveTexts_of_timestamp htime now now']
  refine lockstep_bind (lockstep_saveTexts now' maps havoids) (fun _ => ?_) w' v' hbeside'
  refine lockstep_finish h.sourcesAvoid fun image himage => havoids _ ?_
  exact mem_outputFiles.mpr (Or.inr (Or.inr (mem_namedFiles.mpr (Or.inr ⟨image, himage, rfl⟩))))

end Converting

open Converting

/-- Where the folder of the cache would be new and apart from everything that a conversion without a
cache uses, and where no two lumps that it looks up would share a file there, a conversion with a
cache gives the same result and the same warnings, and leaves the same files outside that folder. -/
theorem convert_cache_transparent (o : Options) (now now' : String) (t : FileTree)
    (htime : o.timestamp.isSome = true) (h : CacheApart o t) :
    let cached := (convert { o with cache := true } now : StateM FileTree _).run t
    let direct := (convert { o with cache := false } now' : StateM FileTree _).run t
    cached.1 = direct.1 ∧
      ∀ place, ¬ cachePlace o t.here <+: place → cached.2.file? place = direct.2.file? place := by
  intro cached direct
  obtain ⟨hresult, hsession, hagree⟩ := h.together_run htime now now'
  refine ⟨Prod.ext hresult hsession.symm, ?_⟩
  intro place hplace
  exact (hagree.file?_eq hplace).symm

/-- A conversion reads an archive with one map and one script, whose picture is missing. It has the
script in its cache afterwards. -/
theorem convert_cache_transparent_one_script :
    let wad : ByteArray := ("PWAD\x02\x00\x00\x00:\x00\x00\x00" ++
      "map MAP01\n\x7b\nexitpic = \"$INTER\"\n\x7d" ++ "BACKGROUND SKY" ++
      "\x0c\x00\x00\x00 \x00\x00\x00MAPINFO\x00,\x00\x00\x00\x0e\x00\x00\x00INTER\x00\x00\x00").toUTF8
    let o : Options := { Options.standard "mod.wad" "out" with timestamp := some "noon" }
    let t : FileTree := { files := [(["home", "mod.wad"], wad)], folders := [["home"]], here := ["home"] }
    let cached := (convert { o with cache := true } "" : StateM FileTree _).run t
    let direct := (convert { o with cache := false } "" : StateM FileTree _).run t
    cached.1.1 = .ok ⟨1, ["INTER"], [], ["SKY"]⟩ ∧
      cached.2.file? ["home", "out", "_tmp", "INTER"] = some "BACKGROUND SKY".toUTF8 ∧
      cached.1 = direct.1 ∧
      ∀ place, ¬ cachePlace o t.here <+: place → cached.2.file? place = direct.2.file? place := by
  intro wad o t
  obtain ⟨hreport, hkept, hplace, hlumps, hpaths⟩ :
      ((convert { o with cache := true } "" : StateM FileTree _).run t).1.1 =
        .ok ⟨1, ["INTER"], [], ["SKY"]⟩ ∧
      ((convert { o with cache := true } "" : StateM FileTree _).run t).2.file?
        ["home", "out", "_tmp", "INTER"] = some "BACKGROUND SKY".toUTF8 ∧
      cachePlace o t.here = ["home", "out", "_tmp"] ∧ lookedUp o t = ["MAPINFO", "INTER"] ∧
      ∀ path ∈ pathsWithout o t, Path.Avoids t.here (cachePlace o t.here) path := by
    decide +kernel
  have hapart : CacheApart o t := by
    refine ⟨fun _ => by decide, ?_, ?_, hpaths⟩
    · rw [hplace]
      rintro place ⟨rest, rfl⟩
      simp [FileTree.node?, t, List.lookup]
    · rw [hlumps]
      exact ⟨by decide +kernel, by decide +kernel, by decide +kernel, by decide +kernel⟩
  exact ⟨hreport, hkept, convert_cache_transparent o "" "" t rfl hapart⟩

/-- The maps name two scripts of which one has a caret where the other has a backslash. With a cache
both are read from one file, and the picture of the second is not looked for. -/
theorem convert_cache_differs :
    let wad : ByteArray := ("PWAD\x03\x00\x00\x00V\x00\x00\x00" ++
      "map MAP01\n\x7b\nenterpic = \"$IN\\A\"\nexitpic = \"$IN^A\"\n\x7d" ++
      "BACKGROUND ABACKGROUND B" ++
      "\x0c\x00\x00\x002\x00\x00\x00MAPINFO\x00>\x00\x00\x00\x0c\x00\x00\x00IN\\A\x00\x00\x00\x00" ++
      "J\x00\x00\x00\x0c\x00\x00\x00IN^A\x00\x00\x00\x00").toUTF8
    let o : Options := { Options.standard "mod.wad" "out" with timestamp := some "noon" }
    let t : FileTree := { files := [(["home", "mod.wad"], wad)], folders := [["home"]], here := ["home"] }
    let cached := (convert { o with cache := true } "" : StateM FileTree _).run t
    let direct := (convert { o with cache := false } "" : StateM FileTree _).run t
    t.node? ["home", "out", "_tmp"] = none ∧
      cached.1.1 = .ok ⟨1, ["IN\\A", "IN^A"], [], ["A"]⟩ ∧
      direct.1.1 = .ok ⟨1, ["IN\\A", "IN^A"], [], ["A", "B"]⟩ := by
  -- Sorting by merging does not evaluate in the kernel, so the scripts are sorted by insertion.
  simp only [convert, run, produce, MapTable.scripts_eq_insertionSort]
  decide +kernel

end Interlude
