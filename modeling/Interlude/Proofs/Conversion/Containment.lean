import Mathlib
import Interlude.Proofs.Conversion.Writes

/-!
# What stays in the output folder

The names of scripts and pictures come from the archive and become file names as they are, so with
slashes in them they may lead out of the output folder. They are all that can: every other file of
a conversion lies below the folder. A conversion therefore keeps to its folder exactly if no script
of its table and no picture that it wrote has a name that leads out and a file that changed; and
where it succeeds there is a file at the end of each of these names.
-/

namespace Interlude

namespace Converting

open Interlude.Path (destination)
open Place (Below)

variable {o : Options} {now name file : String} {here place : Place} {scripts images : List String}
  {maps : MapTable} {report : Report} {script : Script} {w v : World} {t : FileTree}

/-! ### Stages -/

/-- Preparing a conversion writes into the folder of the cache at most. -/
theorem keeps_writes_prepare (o : Options) (scripts : List String) :
    Keeps (Writes o scripts) (prepare (m := StateM FileTree) o) := by
  have hfolders : ∀ path t, FileTree.Changes (MayWrite o t.here scripts []) t
      ((FileStore.createFolders path : StateM FileTree _).run t).2 := by
    intro path t
    exact (FileTree.changes_createFolders path t).mono fun _ hplace => hplace.elim
  unfold prepare
  refine keeps_bind (keeps_writes_onPath o scripts (hfolders o.output) _) fun _ => ?_
  split
  · refine keeps_bind (keeps_writes_onPath o scripts (fun t => ?_) _) fun _ =>
      keeps_writes_readMaps o scripts
    exact hfolders o.cacheFolder t
  · exact keeps_writes_readMaps o scripts

/-- Following statements leaves the name of a script. -/
theorem name_foldl_follow (sts : List Script.Statement) (s : Script) :
    (sts.foldl Script.follow s).name = s.name := by
  induction sts generalizing s with
  | nil => rfl
  | cons st sts ih =>
    rw [List.foldl_cons, ih]
    unfold Script.follow
    split <;> try rfl
    split <;> rfl

/-- A script has the name under which it was read. -/
theorem name_of_exec_readScript
    (h : exec (readScript (m := StateM FileTree) o name) w = (.ok script, v)) : script.name = name := by
  rw [readScript_eq] at h
  obtain ⟨found, _, _, h⟩ := exists_exec_of_bind h
  obtain ⟨_, _, _, h⟩ := exists_exec_of_bind h
  obtain rfl := Except.ok.inj (Prod.mk.inj h).1
  cases found with
  | none => exact name_foldl_follow _ _
  | some bytes => exact name_foldl_follow _ _

/-- The scripts that were read have the names under which they were asked for. -/
theorem map_name_of_exec_mapM {names : List String} {scripts : List Script}
    (h : exec (names.mapM (readScript (m := StateM FileTree) o)) w = (.ok scripts, v)) :
    scripts.map Script.name = names := by
  have hforall := forall₂_of_exec_mapM (fun name _ => keeps_writes_readScript o [] name) h
  clear h
  induction hforall with
  | nil => rfl
  | cons hread _ ih =>
    obtain ⟨_, _, hread, -⟩ := hread
    rw [List.map_cons, name_of_exec_readScript hread, ih]

/-- The scripts that were read are among those that were asked for. -/
theorem name_mem_of_exec_mapM {names : List String} {scripts : List Script}
    (h : exec (names.mapM (readScript (m := StateM FileTree) o)) w = (.ok scripts, v))
    (hscript : script ∈ scripts) : script.name ∈ names := by
  rw [← map_name_of_exec_mapM h]
  exact List.mem_map_of_mem hscript

/-- Reading the scripts and writing everything writes where the scripts of the table may. -/
theorem keeps_writes_produce (o : Options) (now : String) (maps : MapTable) :
    Keeps (Writes o maps.scripts) (produce (m := StateM FileTree) o now maps) := by
  refine keeps_bind_of_exec (keeps_mapM fun name _ => keeps_writes_readScript o _ name) ?_
  intro w scripts v hscripts
  suffices hrest : Keeps (Writes o maps.scripts) _ from hrest v
  refine keeps_bind (keeps_writes_writeText o _ List.mem_cons_self _) fun _ => ?_
  refine keeps_bind
    (keeps_writes_writeText o _ (List.mem_cons_of_mem _ List.mem_cons_self) _) fun _ => ?_
  refine keeps_bind (keeps_forIn (fun script hscript _ => ?_) _) fun _ => ?_
  · have hname := name_mem_of_exec_mapM hscripts hscript
    exact keeps_bind (keeps_writes_writeDocument o _ hname maps _) fun _ => keeps_pure _
  refine keeps_bind (keeps_writes_exportPictures o _ maps scripts) fun _ => ?_
  exact keeps_bind keeps_get fun _ => keeps_pure _

/-! ### Success -/

/-- A text that was written is in its file. -/
theorem isSome_file?_of_exec_writeText {text : String}
    (h : exec (writeText (m := StateM FileTree) o file text) w = (.ok (), v)) :
    (v.files.file? (destination w.files.here (o.target file))).isSome = true := by
  unfold writeText at h
  rw [exec_onPath, FileTree.run_writeFile] at h
  cases hwrite : w.files.write (o.target file) text.toUTF8 with
  | error fault =>
    rw [hwrite] at h
    cases (Prod.mk.inj h).1
  | ok t =>
    rw [hwrite] at h
    rw [← (Prod.mk.inj h).2, FileTree.file?_write hwrite, if_pos rfl]
    rfl

/-- A document that was written is in the file of its script. -/
theorem isSome_file?_of_exec_writeDocument {metadata : Interlevel.Metadata}
    (h : exec (writeDocument (m := StateM FileTree) o maps metadata script) w = (.ok (), v)) :
    (v.files.file? (destination w.files.here (o.target (script.name ++ ".json")))).isSome = true := by
  obtain ⟨_, u, hwarn, h⟩ := exists_exec_of_bind h
  have hfile := isSome_file?_of_exec_writeText h
  rwa [← (Prod.mk.inj hwarn).2] at hfile

/-- A conversion that succeeds has a file for each script of its table, and reports these scripts and
the pictures that it wrote. -/
theorem of_exec_produce (h : exec (produce (m := StateM FileTree) o now maps) w = (.ok report, v)) :
    report.scripts = maps.scripts ∧ report.images = v.session.written ∧
      ∀ name ∈ maps.scripts,
        (v.files.file? (destination w.files.here (o.target (name ++ ".json")))).isSome = true := by
  obtain ⟨scripts, w₁, hscripts, h⟩ := exists_exec_of_bind h
  obtain ⟨_, w₂, hmaps, h⟩ := exists_exec_of_bind h
  obtain ⟨_, w₃, hcredits, h⟩ := exists_exec_of_bind h
  obtain ⟨_, w₄, hloop, h⟩ := exists_exec_of_bind h
  obtain ⟨_, w₅, hpictures, h⟩ := exists_exec_of_bind h
  obtain ⟨s, w₆, hsession, h⟩ := exists_exec_of_bind h
  obtain ⟨hs, rfl⟩ := Prod.mk.inj hsession
  obtain ⟨hreport, rfl⟩ := Prod.mk.inj h
  obtain rfl := Except.ok.inj hs
  obtain rfl := Except.ok.inj hreport
  have hnames := map_name_of_exec_mapM hscripts
  refine ⟨hnames, rfl, ?_⟩
  intro name hname
  rw [← hnames] at hname
  obtain ⟨script, hscript, rfl⟩ := List.mem_map.mp hname
  have hread :=
    (keeps_mapM fun name _ => keeps_writes_readScript o maps.scripts name).of_exec hscripts
  have hwrite : ∀ file ∈ outputFiles maps.scripts [], ∀ text,
      Keeps (Writes o maps.scripts) (writeText (m := StateM FileTree) o file text) :=
    fun file hfile text => keeps_writes_writeText o maps.scripts hfile text
  have hbefore := hread.trans (((hwrite _ (mem_outputFiles.mpr (Or.inl rfl)) _).of_exec hmaps).trans
    ((hwrite _ (mem_outputFiles.mpr (Or.inr (Or.inl rfl))) _).of_exec hcredits))
  obtain ⟨u, u', hexec, hfirst, hlast⟩ := exists_exec_of_forIn (R := Writes o maps.scripts)
    (fun script hscript => (keeps_writes_writeDocument o maps.scripts
      (name_mem_of_exec_mapM hscripts hscript) maps _).meets) hloop script hscript
  have hfile := isSome_file?_of_exec_writeDocument hexec
  rw [(hbefore.trans hfirst).changes.here_eq] at hfile
  have hafter :=
    hlast.trans ((keeps_writes_exportPictures o maps.scripts maps scripts).of_exec hpictures)
  exact hafter.changes.kept _ hfile

/-! ### The output folder -/

/-- A file with a name lies in the output folder. -/
theorem below_target (hname : Path.IsName file) (o : Options) (here : Place) :
    Below (destination here o.output) (destination here (o.target file)) := by
  rw [Options.target, Path.destination_join_name hname]
  exact Place.below_append_singleton _ _

/-- With an ending of some length, a text without a slash is a name. -/
theorem isName_append {ending : String} (hslash : '/' ∉ name.toList)
    (hending : '/' ∉ ending.toList) (hlength : 2 < ending.length) :
    Path.IsName (name ++ ending) := by
  have hlong : ∀ short : String, short.length ≤ 2 → name ++ ending ≠ short := by
    intro short hshort h
    have := congrArg String.length h
    rw [String.length_append] at this
    omega
  refine ⟨?_, hlong "" (by decide), hlong "." (by decide), hlong ".." (by decide)⟩
  rw [String.toList_append, List.mem_append]
  exact not_or.mpr ⟨hslash, hending⟩

/-- What a conversion may write that is not named for a script or a picture lies in the folder. -/
theorem MayWrite.below_or_named (h : MayWrite o here scripts images place) :
    Below (destination here o.output) place ∨
      ∃ file ∈ namedFiles scripts images, place = destination here (o.target file) := by
  rcases h with ⟨file, hfile, rfl⟩ | ⟨key, rfl⟩
  · rcases mem_outputFiles.mp hfile with rfl | rfl | hnamed
    · exact Or.inl (below_target (by decide) o here)
    · exact Or.inl (below_target (by decide) o here)
    · exact Or.inr ⟨file, hnamed, rfl⟩
  · rw [Options.cacheFolder, Path.destination_join_name (by decide)]
    exact Or.inl (Place.below_append_singleton _ key).append

/-- The scripts of the table that a conversion reads, if it gets so far. -/
def tableScripts (o : Options) (t : FileTree) : List String :=
  match (exec (prepare o) ⟨.start, t⟩).1 with
  | .ok maps => maps.scripts
  | .error _ => []

/-- A conversion writes where the scripts of its table may. -/
theorem writes_run (o : Options) (now : String) (t : FileTree) :
    Writes o (tableScripts o t) ⟨.start, t⟩ (exec (run o now) ⟨.start, t⟩).2 := by
  have hprepare := keeps_writes_prepare o (tableScripts o t) ⟨.start, t⟩
  unfold run
  rw [exec_bind]
  rcases hexec : exec (prepare o) ⟨.start, t⟩ with ⟨_ | maps, v⟩
  · rw [hexec] at hprepare
    exact hprepare
  · rw [hexec] at hprepare
    have hscripts : tableScripts o t = maps.scripts := by rw [tableScripts, hexec]
    rw [hscripts] at hprepare ⊢
    exact hprepare.trans (keeps_writes_produce o now maps v)

/-- A conversion that succeeds reports the scripts of its table and has a file for each of them. -/
theorem of_exec_run (h : exec (run o now) ⟨.start, t⟩ = (.ok report, v)) :
    report.scripts = tableScripts o t ∧ report.images = v.session.written ∧
      ∀ name ∈ tableScripts o t,
        (v.files.file? (destination t.here (o.target (name ++ ".json")))).isSome = true := by
  obtain ⟨maps, u, hprepare, hproduce⟩ := exists_exec_of_bind h
  have hscripts : tableScripts o t = maps.scripts := by rw [tableScripts, hprepare]
  have hhere := ((keeps_writes_prepare o []).of_exec hprepare).changes.here_eq
  rw [hscripts, ← hhere]
  exact of_exec_produce hproduce

end Converting

open Converting

/-- The files that a conversion changes lie below its output folder exactly if those do that are
named for the scripts of its table and for the pictures that it wrote. A conversion that succeeds
has a file for each of these names wherever it leads, and a name without a slash leads nowhere else
than into the folder. -/
theorem convert_changes_below_output_iff (o : Options) (now : String) (t : FileTree) :
    let ran := (convert o now : StateM FileTree _).run t
    let output := Path.destination t.here o.output
    let placeOf := fun file => Path.destination t.here (o.target file)
    ((∀ place, ran.2.file? place ≠ t.file? place → Place.Below output place) ↔
      ∀ file ∈ namedFiles (tableScripts o t) ran.1.2.written,
        ran.2.file? (placeOf file) ≠ t.file? (placeOf file) → Place.Below output (placeOf file)) ∧
    (∀ report, ran.1.1 = .ok report →
      report.scripts = tableScripts o t ∧ report.images = ran.1.2.written ∧
        ∀ file ∈ namedFiles report.scripts report.images,
          (ran.2.file? (placeOf file)).isSome = true) ∧
    ∀ name : String, '/' ∉ name.toList →
      Place.Below output (placeOf (name ++ ".json")) ∧ Place.Below output (placeOf (name ++ ".png")) := by
  intro ran output placeOf
  have hwrites : Writes o (tableScripts o t) ⟨.start, t⟩ ⟨ran.1.2, ran.2⟩ := writes_run o now t
  refine ⟨⟨fun h file _ hchanged => h (placeOf file) hchanged, ?_⟩, ?_, ?_⟩
  · intro h place hchanged
    rcases (hwrites.changes.of_ne hchanged).below_or_named with hbelow | ⟨file, hfile, rfl⟩
    · exact hbelow
    · exact h file hfile hchanged
  · intro report hreport
    have hexec : exec (run o now) ⟨.start, t⟩ = (.ok report, ⟨ran.1.2, ran.2⟩) :=
      Prod.ext hreport rfl
    obtain ⟨hscripts, himages, hfiles⟩ := of_exec_run hexec
    refine ⟨hscripts, himages, ?_⟩
    intro file hfile
    rcases mem_namedFiles.mp hfile with ⟨name, hname, rfl⟩ | ⟨image, himage, rfl⟩
    · exact hfiles name (hscripts ▸ hname)
    · rcases hwrites.present image (himages ▸ himage) with hstart | hpresent
      · exact absurd hstart List.not_mem_nil
      · exact hpresent
  · intro name hslash
    exact ⟨below_target (isName_append hslash (by decide) (by decide)) o t.here,
      below_target (isName_append hslash (by decide) (by decide)) o t.here⟩

/-- With a step up in the name of a script, a conversion that succeeds makes a file beside its output
folder. -/
theorem convert_changes_beside_output :
    let o : Options := { Options.standard "mod.wad" "out" with saveGraphics := false, cache := true }
    let t : FileTree :=
      { files := [(["home", "out", "_tmp", "MAPINFO"],
            "map MAP01 \x7b\nexitpic = \"$../evil\"\n\x7d".toUTF8),
          (["home", "out", "_tmp", "..^EVIL"], ByteArray.empty)]
        folders := [["home"], ["home", "out"], ["home", "out", "_tmp"]]
        here := ["home"] }
    let ran := (convert o "" : StateM FileTree _).run t
    ran.1.1 = .ok ⟨1, ["../evil"], [], []⟩ ∧
      t.file? ["home", "evil.json"] = none ∧ (ran.2.file? ["home", "evil.json"]).isSome = true ∧
      ¬ Place.Below (Path.destination t.here o.output) ["home", "evil.json"] := by
  intro o t ran
  refine ⟨?_, ?_, ?_, ?_⟩
  · decide +kernel
  · decide +kernel
  · decide +kernel
  · decide +kernel

end Interlude
