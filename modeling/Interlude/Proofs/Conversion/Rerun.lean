import Mathlib
import Interlude.Proofs.Conversion.Continuing

/-!
# Converting again

With a cache, all texts of a conversion that has found them are in the cache at its end. A later
conversion with the same options finds them there, so it does not open the archive, reads the same
maps and scripts, and writes the same outputs over the ones that are there.
-/

namespace Interlude

/-- Whether a warning tells that the lump with the maps or a script was not found. -/
def ConversionWarning.isMissing : ConversionWarning → Bool
  | .noMapLump _ => true
  | .noScript _ => true
  | _ => false

namespace Converting

open Interlude.Path (destination)

variable {α β : Type} {o : Options} {now name file : String} {files more : List String}
  {maps : MapTable} {script : Script} {scripts : List Script} {w v : World} {s : Session}
  {t : FileTree} {bytes : ByteArray}

/-! ### Parts that find everything in the files -/

/-- A part of a conversion gives a result in some files and leaves them, in any session. -/
def Recalls (t : FileTree) (x : Converting (StateM FileTree) α) (a : α) : Prop :=
  ∀ s, ∃ s', Quiet s s' ∧ exec x ⟨s, t⟩ = (.ok a, ⟨s', t⟩)

/-- A value is given at once. -/
theorem recalls_pure (t : FileTree) (a : α) : Recalls t (pure a) a :=
  fun s => ⟨s, Quiet.refl s, rfl⟩

/-- One part after the other gives the result of the second one. -/
theorem recalls_bind {x : Converting (StateM FileTree) α} {f : α → Converting (StateM FileTree) β}
    {a : α} {b : β} (hx : Recalls t x a) (hf : Recalls t (f a) b) : Recalls t (x >>= f) b := by
  intro s
  obtain ⟨s₁, hfirst, hx⟩ := hx s
  obtain ⟨s₂, hsecond, hf⟩ := hf s₁
  refine ⟨s₂, hfirst.trans hsecond, ?_⟩
  rw [exec_bind, hx]
  exact hf

/-- Parts for items give their results. -/
theorem recalls_mapM {items : List α} {f : α → Converting (StateM FileTree) β} {bs : List β}
    (h : List.Forall₂ (fun a b => Recalls t (f a) b) items bs) : Recalls t (items.mapM f) bs := by
  induction h with
  | nil => exact recalls_pure t []
  | cons hb _ ih =>
    rw [List.mapM_cons]
    exact recalls_bind hb (recalls_bind ih (recalls_pure t _))

/-- Warnings are given in any session. -/
theorem recalls_warn (t : FileTree) (warnings : List ConversionWarning) :
    Recalls t (warn warnings) () :=
  fun s => ⟨_, Quiet.warn s warnings, rfl⟩

/-- A lump that the cache holds is fetched from there. -/
theorem recalls_textLump (hcache : o.cache = true) (hread : t.read (cachePath o name) = .ok bytes) :
    Recalls t (textLump o name) (some bytes) := by
  intro s
  refine ⟨s, Quiet.refl s, ?_⟩
  rw [textLump, if_pos hcache, exec_bind, exec_cacheGet, hread]
  rfl

/-- What is made of a lump that the cache holds is made of what is there. -/
theorem recalls_readText {made : Option String → α × List ConversionWarning} (hcache : o.cache = true)
    (hread : t.read (cachePath o name) = .ok bytes) :
    Recalls t (readText o name made) (made (some (Utf8.text bytes.data.toList))).1 :=
  recalls_bind (recalls_textLump hcache hread) (recalls_bind (recalls_warn t _) (recalls_pure t _))

/-! ### What the first conversion leaves in the cache -/

/-- What was written is in its file. -/
theorem read_of_exec_writeFile {path told : String}
    (h : exec (onPath told (FileStore.writeFile path bytes)) w = (.ok (), v)) :
    v.files.read path = .ok bytes := by
  obtain ⟨hwrite, rfl⟩ := of_exec_onPath h
  exact FileTree.read_of_write (FileTree.of_run_writeFile hwrite)

/-- A lump that was found is in the cache. -/
theorem read_of_exec_textLump (hcache : o.cache = true)
    (h : exec (textLump (m := StateM FileTree) o name) w = (.ok (some bytes), v)) :
    v.files.read (cachePath o name) = .ok bytes := by
  rw [textLump, if_pos hcache] at h
  obtain ⟨cached, u, hget, h⟩ := exists_exec_of_bind h
  obtain ⟨hfound, rfl⟩ := exec_cacheGet_eq_ok hget
  cases cached with
  | some old =>
    obtain ⟨hbytes, rfl⟩ := Prod.mk.inj h
    obtain rfl := Option.some.inj (Except.ok.inj hbytes)
    exact foundIn_eq_some_iff.mp hfound
  | none =>
    obtain ⟨found, u', _, h⟩ := exists_exec_of_bind h
    cases found with
    | none => cases (Prod.mk.inj h).1
    | some new =>
      obtain ⟨_, x, hput, h⟩ := exists_exec_of_bind h
      obtain ⟨hbytes, rfl⟩ := Prod.mk.inj h
      obtain rfl := Option.some.inj (Except.ok.inj hbytes)
      rw [LumpCache.put, ← cachePath] at hput
      exact read_of_exec_writeFile hput

/-- What is given with warnings is given in the same files, and the warnings are there. -/
theorem of_exec_warn_pure {warnings : List ConversionWarning} {a b : α}
    (h : exec (warn warnings >>= fun _ => pure a) w = (.ok b, v)) :
    b = a ∧ v.files = w.files ∧ warnings ⊆ v.session.warnings := by
  obtain ⟨_, u, hwarn, h⟩ := exists_exec_of_bind h
  rw [warn, exec_modify] at hwarn
  obtain ⟨-, rfl⟩ := Prod.mk.inj hwarn
  rw [exec_pure] at h
  obtain ⟨hresult, rfl⟩ := Prod.mk.inj h
  exact ⟨(Except.ok.inj hresult).symm, rfl, List.subset_append_right _ _⟩

/-- What was made without the warnings about a missing lump was made of a lump in the cache. -/
theorem of_exec_readText {made : Option String → α × List ConversionWarning} {a : α}
    (hcache : o.cache = true) (h : exec (readText o name made) w = (.ok a, v))
    (hfound : ¬ (made none).2 ⊆ v.session.warnings) :
    ∃ bytes, v.files.read (cachePath o name) = .ok bytes ∧
      a = (made (some (Utf8.text bytes.data.toList))).1 := by
  obtain ⟨found, u, hlump, h⟩ := exists_exec_of_bind h
  obtain ⟨rfl, hfiles, hwarned⟩ := of_exec_warn_pure h
  cases found with
  | none => exact absurd hwarned hfound
  | some bytes => exact ⟨bytes, hfiles ▸ read_of_exec_textLump hcache hlump, rfl⟩

/-- What was gathered with nothing missing is gathered from any files that hold what is in the cache
afterwards. -/
theorem recalls_gather (hcache : o.cache = true)
    (h : exec (gather o) w = (.ok (maps, scripts), v))
    (hfound : ∀ warning ∈ v.session.warnings, warning.isMissing = false)
    (hcached : ∀ name bytes, v.files.read (cachePath o name) = .ok bytes →
      t.read (cachePath o name) = .ok bytes) :
    Recalls t (gather o) (maps, scripts) := by
  obtain ⟨maps', u, hmaps, h⟩ := exists_exec_of_bind h
  obtain ⟨scripts', u', hscripts, h⟩ := exists_exec_of_bind h
  rw [exec_pure] at h
  obtain ⟨hresult, rfl⟩ := Prod.mk.inj h
  obtain ⟨rfl, rfl⟩ := Prod.mk.inj (Except.ok.inj hresult).symm
  have hkeeps : ∀ name ∈ maps.scripts, Keeps (Continues o) (readScript (m := StateM FileTree) o name) :=
    fun name _ => keeps_continues_readScript o name
  have hafter : Continues o u u' := (keeps_mapM hkeeps).of_exec hscripts
  -- A warning that is given stays, so none that something is missing is given on the way.
  have hquiet : ∀ {x : World}, Continues o x u' → ∀ warning, warning.isMissing = true →
      ¬ [warning] ⊆ x.session.warnings := by
    intro x hx warning hmissing hmem
    rw [hfound warning (hx.quiet.warnings_subset (hmem List.mem_cons_self))] at hmissing
    cases hmissing
  rw [readMaps_eq] at hmaps
  obtain ⟨bytes, hread, rfl⟩ := of_exec_readText hcache hmaps (hquiet hafter _ rfl)
  rw [gather, readMaps_eq]
  refine recalls_bind (recalls_readText hcache (hcached _ _ (hafter.cached _ _ hread))) ?_
  refine recalls_bind (recalls_mapM ?_) (recalls_pure t _)
  refine (forall₂_of_exec_mapM hkeeps hscripts).imp ?_
  rintro name script ⟨x, x', hexec, _, hrest⟩
  rw [readScript_eq] at hexec ⊢
  obtain ⟨bytes, hread, rfl⟩ := of_exec_readText hcache hexec (hquiet hrest _ rfl)
  exact recalls_readText hcache (hcached _ _ (hrest.cached _ _ hread))

/-! ### Writing the outputs over others -/

/-- A place is that of one of some files in the output folder. -/
def NamedBy (o : Options) (files : List String) (here place : Place) : Prop :=
  ∃ file ∈ files, place = destination here (o.target file)

/-- A part that succeeds in some files succeeds in all files with the same folders. It writes the same
to some outputs and leaves everything else. -/
def Overwrites (o : Options) (files : List String) (x : Converting (StateM FileTree) Unit) : Prop :=
  ∀ w v, exec x w = (.ok (), v) →
    ∀ s t, t.here = w.files.here → t.folders = w.files.folders →
      ∃ s' t', exec x ⟨s, t⟩ = (.ok (), ⟨s', t'⟩) ∧ Quiet s s' ∧ t'.here = t.here ∧
        t'.folders = t.folders ∧
        ∀ place, (NamedBy o files t.here place → t'.file? place = v.files.file? place) ∧
          (¬ NamedBy o files t.here place → t'.file? place = t.file? place)

/-- A part that writes over some outputs leaves the folders and all other files. -/
theorem Overwrites.frame {x : Converting (StateM FileTree) Unit} (hx : Overwrites o files x)
    (h : exec x w = (.ok (), v)) :
    v.files.here = w.files.here ∧ v.files.folders = w.files.folders ∧
      ∀ place, ¬ NamedBy o files w.files.here place → v.files.file? place = w.files.file? place := by
  obtain ⟨s', t', hexec, _, hhere, hfolders, hfiles⟩ := hx w v h w.session w.files rfl rfl
  obtain rfl : v = ⟨s', t'⟩ := (Prod.mk.inj (h.symm.trans hexec)).2
  exact ⟨hhere, hfolders, fun place => (hfiles place).2⟩

/-- A part that leaves all files writes over nothing. -/
theorem overwrites_of_recalls {x : Converting (StateM FileTree) Unit} (o : Options)
    (h : ∀ t, Recalls t x ()) : Overwrites o [] x := by
  intro w v _ s t _ _
  obtain ⟨s', hquiet, hexec⟩ := h t s
  refine ⟨s', t, hexec, hquiet, rfl, rfl, fun place => ⟨?_, fun _ => rfl⟩⟩
  rintro ⟨file, hfile, _⟩
  exact absurd hfile List.not_mem_nil

/-- Two parts write over what each of them does. -/
theorem overwrites_bind {x : Converting (StateM FileTree) Unit}
    {f : Unit → Converting (StateM FileTree) Unit} (hx : Overwrites o files x)
    (hf : Overwrites o more (f ())) : Overwrites o (files ++ more) (x >>= f) := by
  intro w v h s t hhere hfolders
  obtain ⟨_, u, hfirst, hsecond⟩ := exists_exec_of_bind h
  obtain ⟨hhereU, hfoldersU, _⟩ := hx.frame hfirst
  obtain ⟨_, _, hframe⟩ := hf.frame hsecond
  obtain ⟨s₁, t₁, hexec₁, hquiet₁, hhere₁, hfolders₁, hfiles₁⟩ := hx w u hfirst s t hhere hfolders
  obtain ⟨s₂, t₂, hexec₂, hquiet₂, hhere₂, hfolders₂, hfiles₂⟩ := hf u v hsecond s₁ t₁
    (by rw [hhere₁, hhere, hhereU]) (by rw [hfolders₁, hfolders, hfoldersU])
  rw [hhere₁] at hfiles₂
  rw [hhereU, ← hhere] at hframe
  have hnamed : ∀ place, NamedBy o (files ++ more) t.here place ↔
      NamedBy o files t.here place ∨ NamedBy o more t.here place := by
    intro place
    simp only [NamedBy, List.mem_append, or_and_right, exists_or]
  refine ⟨s₂, t₂, ?_, hquiet₁.trans hquiet₂, hhere₂.trans hhere₁, hfolders₂.trans hfolders₁, ?_⟩
  · rw [exec_bind, hexec₁]
    exact hexec₂
  · intro place
    rw [hnamed]
    by_cases hmore : NamedBy o more t.here place
    · exact ⟨fun _ => (hfiles₂ place).1 hmore, fun h => absurd (Or.inr hmore) h⟩
    · -- What only the first part writes the second one leaves, in both runs.
      rw [(hfiles₂ place).2 hmore, hframe place hmore]
      exact ⟨fun h => (hfiles₁ place).1 (h.resolve_right hmore),
        fun h => (hfiles₁ place).2 fun hfirst => h (Or.inl hfirst)⟩

/-- Parts for items write over the outputs of all of them. -/
theorem overwrites_forIn {items : List α} {f : α → Converting (StateM FileTree) Unit}
    {fileOf : α → String} (hf : ∀ a, Overwrites o [fileOf a] (f a)) :
    Overwrites o (items.map fileOf)
      (forIn items PUnit.unit fun a _ => do f a; pure (.yield PUnit.unit)) := by
  induction items with
  | nil => exact overwrites_of_recalls o fun t => recalls_pure t _
  | cons a items ih =>
    rw [forIn_cons_yield]
    exact overwrites_bind (hf a) ih

/-- Writing a text writes over its file. -/
theorem overwrites_writeText (o : Options) (file text : String) :
    Overwrites o [file] (writeText o file text) := by
  intro w v h s t hhere hfolders
  obtain ⟨hrun, rfl⟩ := of_exec_onPath h
  have hwrite := FileTree.of_run_writeFile hrun
  obtain ⟨place, hplace, hfolder, -⟩ := FileTree.write_eq_ok_iff.mp hwrite
  have hext : FileTree.Extends w.files t := ⟨hhere, by rw [hfolders]; exact List.Subset.refl _⟩
  have hfolder : ¬ t.HasFolder place := by rwa [FileTree.HasFolder, hfolders]
  obtain ⟨t', hwrite'⟩ := FileTree.exists_write (hext.newPlace hplace) hfolder text.toUTF8
  refine ⟨s, t', ?_, Quiet.refl s, FileTree.here_write hwrite', FileTree.folders_write hwrite', ?_⟩
  · rw [writeText, exec_onPath, FileTree.run_writeFile, hwrite']
    rfl
  · intro p
    have hnamed : NamedBy o [file] t.here p ↔ p = destination t.here (o.target file) := by
      simp [NamedBy]
    rw [hnamed, FileTree.file?_write hwrite', FileTree.file?_write hwrite, hhere]
    exact ⟨fun heq => by rw [if_pos heq, if_pos heq], fun hne => if_neg hne⟩

/-- Writing the document of a script writes over its file. -/
theorem overwrites_writeDocument (o : Options) (maps : MapTable) (metadata : Interlevel.Metadata)
    (script : Script) :
    Overwrites o [script.name ++ ".json"] (writeDocument o maps metadata script) :=
  overwrites_bind (overwrites_of_recalls o fun t => recalls_warn t _) (overwrites_writeText o _ _)

/-- Writing the texts writes over the outputs for the scripts. -/
theorem overwrites_saveTexts (o : Options) (now : String) (maps : MapTable) (scripts : List Script) :
    Overwrites o (outputFiles (scripts.map Script.name) []) (saveTexts o now maps scripts) := by
  have hfiles : outputFiles (scripts.map Script.name) [] =
      [mapFile] ++ ([creditsFile] ++ (scripts.map (fun script => script.name ++ ".json") ++ [])) := by
    simp [outputFiles, namedFiles, Function.comp_def]
  rw [hfiles]
  refine overwrites_bind (overwrites_writeText o _ _) ?_
  refine overwrites_bind (overwrites_writeText o _ _) ?_
  refine overwrites_bind ?_ (overwrites_of_recalls o fun t => recalls_pure t _)
  exact overwrites_forIn fun script => overwrites_writeDocument o maps _ script

/-! ### Both conversions -/

/-- Opening the cache makes its folder. -/
theorem run_openIn (folder : String) (t : FileTree) :
    (LumpCache.openIn folder : StateM FileTree _).run t =
      (((FileStore.createFolders folder : StateM FileTree _).run t).1.map fun () => ⟨folder⟩,
        ((FileStore.createFolders folder : StateM FileTree _).run t).2) :=
  rfl

/-- The cache is open only if its folder was made. -/
theorem of_run_openIn {folder : String} {cache : LumpCache}
    (h : ((LumpCache.openIn folder : StateM FileTree _).run t).1 = .ok cache) :
    ((FileStore.createFolders folder : StateM FileTree _).run t).1 = .ok () := by
  rw [run_openIn] at h
  cases hrun : ((FileStore.createFolders folder : StateM FileTree _).run t).1 with
  | error e =>
    rw [hrun] at h
    cases h
  | ok _ => rfl

/-- There is a folder at a path, or the path is empty, which asks for none. -/
def IsOpen (t : FileTree) (path : String) : Prop :=
  path = "" ∨ t.isFolder path = true

/-- What is open is open where there are more folders. -/
theorem IsOpen.of_extends {t' : FileTree} {path : String} (h : IsOpen t path)
    (hext : FileTree.Extends t t') : IsOpen t' path :=
  h.imp_right hext.isFolder

/-- A folder was made if making it succeeds. -/
theorem of_run_createFolders {path : String}
    (h : ((FileStore.createFolders path : StateM FileTree _).run t).1 = .ok ()) :
    FileTree.Extends t ((FileStore.createFolders path : StateM FileTree _).run t).2 ∧
      IsOpen ((FileStore.createFolders path : StateM FileTree _).run t).2 path :=
  ⟨FileTree.extends_createFolders path t, FileTree.isFolder_of_run_createFolders (Prod.ext h rfl)⟩

/-- A conversion that goes on has its folders. -/
theorem of_exec_openFolders (hcache : o.cache = true)
    (h : exec (openFolders o) w = (.ok (), v)) :
    FileTree.Extends w.files v.files ∧ IsOpen v.files o.output ∧ IsOpen v.files o.cacheFolder := by
  obtain ⟨_, u, houtput, h⟩ := exists_exec_of_bind h
  rw [if_pos hcache] at h
  obtain ⟨_, u', hfolder, h⟩ := exists_exec_of_bind h
  rw [exec_pure] at h
  obtain ⟨-, rfl⟩ := Prod.mk.inj h
  obtain ⟨hrunOutput, rfl⟩ := of_exec_onPath houtput
  obtain ⟨hrunFolder, rfl⟩ := of_exec_onPath hfolder
  obtain ⟨hfirst, hopenOutput⟩ := of_run_createFolders hrunOutput
  obtain ⟨hsecond, hopenFolder⟩ := of_run_createFolders (of_run_openIn hrunFolder)
  exact ⟨hfirst.trans hsecond, hopenOutput.of_extends hsecond, hopenFolder⟩

/-- A conversion goes on where its folders are. -/
theorem recalls_openFolders (houtput : IsOpen t o.output) (hfolder : IsOpen t o.cacheFolder) :
    Recalls t (openFolders o) () := by
  have houtput : Recalls t (onPath o.output (FileStore.createFolders o.output)) () := by
    intro s
    refine ⟨s, Quiet.refl s, ?_⟩
    rw [exec_onPath, FileTree.run_createFolders_of_isFolder houtput]
    rfl
  refine recalls_bind houtput ?_
  split
  · refine recalls_bind (a := ⟨o.cacheFolder⟩) ?_ (recalls_pure t _)
    intro s
    refine ⟨s, Quiet.refl s, ?_⟩
    rw [exec_onPath, run_openIn, FileTree.run_createFolders_of_isFolder hfolder]
    rfl
  · exact recalls_pure t _

/-- Where no pictures are to be written, finishing changes nothing. -/
theorem exec_finish (hgraphics : o.saveGraphics = false) (maps : MapTable) (scripts : List Script)
    (w : World) :
    exec (finish o maps scripts) w =
      (.ok ⟨maps.maps.length, scripts.map Script.name, w.session.written, w.session.skipped⟩, w) := by
  rw [finish, exportPictures, hgraphics]
  rfl

/-- The texts do not depend on the present time if the time is fixed. -/
theorem saveTexts_of_timestamp (htime : o.timestamp.isSome = true) (now now' : String) (maps : MapTable)
    (scripts : List Script) : saveTexts o now maps scripts = saveTexts o now' maps scripts := by
  obtain ⟨time, htime⟩ := Option.isSome_iff_exists.mp htime
  simp only [saveTexts, htime, Option.getD_some]

/-- A conversion without pictures that finds its folders and the texts in the files writes over its
outputs what the first one has written there. -/
theorem exec_run_of_recalls (now' : String) (hgraphics : o.saveGraphics = false)
    (htime : o.timestamp.isSome = true) (hfolders : Recalls t (openFolders o) ())
    (hgather : Recalls t (gather o) (maps, scripts))
    (htexts : exec (saveTexts o now maps scripts) w = (.ok (), v))
    (hhere : t.here = w.files.here) (hsame : t.folders = w.files.folders) :
    ∃ s' t', exec (run o now') ⟨.start, t⟩ =
        (.ok ⟨maps.maps.length, scripts.map Script.name, [], []⟩, ⟨s', t'⟩) ∧
      ∀ place,
        (NamedBy o (outputFiles (scripts.map Script.name) []) t.here place →
          t'.file? place = v.files.file? place) ∧
        (¬ NamedBy o (outputFiles (scripts.map Script.name) []) t.here place →
          t'.file? place = t.file? place) := by
  obtain ⟨s₁, hquiet₁, hexec₁⟩ := hfolders .start
  obtain ⟨s₂, hquiet₂, hexec₂⟩ := hgather s₁
  obtain ⟨s₃, t', hexec₃, hquiet₃, _, _, hfiles⟩ :=
    overwrites_saveTexts o now maps scripts w v htexts s₂ t hhere hsame
  have hquiet := (hquiet₁.trans hquiet₂).trans hquiet₃
  refine ⟨s₃, t', ?_, hfiles⟩
  rw [run_eq, exec_bind, hexec₁]
  dsimp only
  rw [exec_bind, hexec₂]
  dsimp only
  rw [saveTexts_of_timestamp htime now' now, exec_bind, hexec₃]
  dsimp only
  rw [exec_finish hgraphics, hquiet.written_eq, hquiet.skipped_eq]
  rfl

/-- A lump that can be read can be read where there are more folders and the cache holds the same. -/
theorem read_of_extends {t' : FileTree} (hext : FileTree.Extends t t')
    (hcached : ∀ place, Place.Below (cachePlace o t.here) place → t'.file? place = t.file? place)
    (h : t.read (cachePath o name) = .ok bytes) : t'.read (cachePath o name) = .ok bytes := by
  obtain ⟨hplace, hfile⟩ := placeOf_of_read h
  refine FileTree.read_eq_ok_iff.mpr ⟨_, hext.placeOf hplace, ?_⟩
  rw [← hfile]
  exact hcached _ (Place.below_append_singleton _ _)

/-- After a conversion that has found everything, another one with the same options gives the same
report in all files that have its folders and its cache. -/
theorem exec_run_again {t' : FileTree} {report : Report} (now' : String) (hcache : o.cache = true)
    (hgraphics : o.saveGraphics = false) (htime : o.timestamp.isSome = true)
    (h : exec (run o now) ⟨.start, t⟩ = (.ok report, v))
    (hfound : ∀ warning ∈ v.session.warnings, warning.isMissing = false)
    (hhere : t'.here = v.files.here) (hfolders : t'.folders = v.files.folders)
    (hcached : ∀ place, Place.Below (destination t.here o.cacheFolder) place →
      t'.file? place = v.files.file? place) :
    t'.here = t.here ∧ ∃ s' u, exec (run o now') ⟨.start, t'⟩ = (.ok report, ⟨s', u⟩) ∧
      ∀ place,
        (NamedBy o (outputFiles report.scripts []) t'.here place →
          u.file? place = v.files.file? place) ∧
        (¬ NamedBy o (outputFiles report.scripts []) t'.here place →
          u.file? place = t'.file? place) := by
  obtain ⟨maps, scripts, w₁, w₂, w₃, hopen, hgather, htexts, hfinish⟩ := exists_exec_of_run h
  rw [exec_finish hgraphics] at hfinish
  obtain ⟨hreport, rfl⟩ := Prod.mk.inj hfinish
  obtain ⟨hext, houtput, hfolder⟩ := of_exec_openFolders hcache hopen
  have hread : Continues o w₁ w₂ := (keeps_continues_gather o).of_exec hgather
  have hsaved : Continues o w₂ w₃ := (keeps_continues_saveTexts o now maps scripts).of_exec htexts
  have hwhole := trans_of (Continues o) hread hsaved
  have hstart : w₃.files.here = t.here := hwhole.here_eq.trans hext.here_eq
  -- The later files have the folders that the first conversion has left, and the lumps in the cache.
  have hlater : FileTree.Extends w₃.files t' := ⟨hhere, hfolders ▸ List.Subset.refl _⟩
  have hextends : FileTree.Extends w₁.files t' := hwhole.extends.trans hlater
  have hlumps : ∀ name bytes, w₂.files.read (cachePath o name) = .ok bytes →
      t'.read (cachePath o name) = .ok bytes := fun name bytes hname =>
    read_of_extends hlater (by rwa [hstart]) (hsaved.cached name bytes hname)
  have hquiet : ∀ warning ∈ w₂.session.warnings, warning.isMissing = false :=
    fun warning hwarning => hfound warning (hsaved.quiet.warnings_subset hwarning)
  obtain ⟨s', u, hagain, hfiles⟩ := exec_run_of_recalls now' hgraphics htime
    (recalls_openFolders (houtput.of_extends hextends) (hfolder.of_extends hextends))
    (recalls_gather hcache hgather hquiet hlumps) htexts
    (hhere.trans hsaved.here_eq) (hfolders.trans hsaved.folders_eq)
  have hsession : w₁.session = .start := by
    have hsession := session_exec_openFolders o ⟨.start, t⟩
    rwa [hopen] at hsession
  rw [hwhole.quiet.written_eq, hwhole.quiet.skipped_eq, hsession] at hreport
  obtain rfl := Except.ok.inj hreport
  exact ⟨hhere.trans hstart, s', u, hagain, hfiles⟩

end Converting

open Converting

/-- Where a conversion with a cache and without pictures has found the lump with the maps and all
scripts, a conversion with the same options and a fixed time gives the same report later on and
leaves the outputs as they are, whatever has become of other files, such as the archive, as long as
the folders and what is in the folder of the cache stay. It changes no other file. -/
theorem convert_again (o : Options) (now now' : String) (t t' : FileTree) (report : Report)
    (hcache : o.cache = true) (hgraphics : o.saveGraphics = false)
    (htime : o.timestamp.isSome = true)
    (hran : ((convert o now : StateM FileTree _).run t).1.1 = .ok report)
    (hfound : ∀ warning ∈ ((convert o now : StateM FileTree _).run t).1.2.warnings,
      warning.isMissing = false)
    (hhere : t'.here = ((convert o now : StateM FileTree _).run t).2.here)
    (hfolders : t'.folders = ((convert o now : StateM FileTree _).run t).2.folders)
    (hcached : ∀ place, Place.Below (Path.destination t.here o.cacheFolder) place →
      t'.file? place = ((convert o now : StateM FileTree _).run t).2.file? place) :
    let first := (convert o now : StateM FileTree _).run t
    let again := (convert o now' : StateM FileTree _).run t'
    again.1.1 = .ok report ∧
      ∀ place, (NamedBy o (outputFiles report.scripts []) t.here place →
          again.2.file? place = first.2.file? place) ∧
        (¬ NamedBy o (outputFiles report.scripts []) t.here place →
          again.2.file? place = t'.file? place) := by
  intro first again
  have hexec : exec (run o now) ⟨.start, t⟩ = (.ok report, ⟨first.1.2, first.2⟩) := Prod.ext hran rfl
  obtain ⟨hstart, s', u, hagain, hfiles⟩ :=
    exec_run_again now' hcache hgraphics htime hexec hfound hhere hfolders hcached
  rw [hstart] at hfiles
  have hresult : again.1.1 = .ok report := congrArg Prod.fst hagain
  have htree : again.2 = u := congrArg (fun ran => ran.2.files) hagain
  rw [htree]
  exact ⟨hresult, hfiles⟩

/-- A conversion reads an archive with one map and one script. When the archive was overwritten with
nothing, it gives the same report again. -/
theorem convert_again_without_archive :
    let wad : ByteArray := ("PWAD\x02\x00\x00\x00:\x00\x00\x00" ++
      "map MAP01\n\x7b\nexitpic = \"$INTER\"\n\x7d" ++ "BACKGROUND SKY" ++
      "\x0c\x00\x00\x00 \x00\x00\x00MAPINFO\x00,\x00\x00\x00\x0e\x00\x00\x00INTER\x00\x00\x00").toUTF8
    let o : Options := { Options.standard "mod.wad" "out" with
      saveGraphics := false, cache := true, timestamp := some "noon" }
    let t : FileTree := { files := [(["home", "mod.wad"], wad)], folders := [["home"]], here := ["home"] }
    let report : Report := ⟨1, ["INTER"], [], []⟩
    let first := (convert o "morning" : StateM FileTree _).run t
    let t' := ((FileStore.writeFile o.archive ByteArray.empty : StateM FileTree _).run first.2).2
    let again := (convert o "evening" : StateM FileTree _).run t'
    t'.file? ["home", "mod.wad"] = some ByteArray.empty ∧ first.1.1 = .ok report ∧
      again.1.1 = .ok report ∧
      ∀ place, (NamedBy o (outputFiles report.scripts []) t.here place →
          again.2.file? place = first.2.file? place) ∧
        (¬ NamedBy o (outputFiles report.scripts []) t.here place →
          again.2.file? place = t'.file? place) := by
  intro wad o t report
  obtain ⟨hran, hfound, hwritten, harchive⟩ :
      ((convert o "morning" : StateM FileTree _).run t).1.1 = .ok report ∧
      (((convert o "morning" : StateM FileTree _).run t).1.2.warnings.all fun warning =>
        !warning.isMissing) = true ∧
      ((FileStore.writeFile o.archive ByteArray.empty : StateM FileTree _).run
        ((convert o "morning" : StateM FileTree _).run t).2).1 = .ok () ∧
      Path.destination ((convert o "morning" : StateM FileTree _).run t).2.here o.archive =
        ["home", "mod.wad"] := by
    decide +kernel
  intro first t' again
  have hwrite := FileTree.of_run_writeFile hwritten
  have hcached : ∀ place, Place.Below (Path.destination t.here o.cacheFolder) place →
      t'.file? place = first.2.file? place := by
    intro place hplace
    rw [FileTree.file?_write hwrite, harchive]
    refine if_neg ?_
    rintro rfl
    revert hplace
    decide +kernel
  refine ⟨?_, hran, convert_again o "morning" "evening" t t' report rfl rfl rfl hran ?_
    (FileTree.here_write hwrite) (FileTree.folders_write hwrite) hcached⟩
  · rw [FileTree.file?_write hwrite, harchive, if_pos rfl]
  · intro warning hwarning
    simpa using List.all_eq_true.mp hfound warning hwarning

end Interlude
