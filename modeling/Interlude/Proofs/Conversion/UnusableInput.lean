import Mathlib
import Interlude.Proofs.Conversion.Beside
import Interlude.Proofs.Conversion.Guards
import Interlude.Proofs.Files.Making

/-!
# Input that cannot be used

Without a cache a conversion reads the archive, and the palette for archives that have none, before it
writes anything, since the table of the maps is what it needs first. Both are read once, and a palette
that was read is still there when a file is written, so that no later fault is about them. A conversion
that fails for the sake of its input has therefore made its folder at most.
-/

namespace Interlude

open Interlude.Path (parts)

/-- Whether a conversion fails for the sake of its input: the archive, or the file with the palette. -/
def ConversionError.OnInput (o : Options) : ConversionError → Prop
  | .opening _ => True
  | .file path _ => o.palette = some path
  | .image _ => False

namespace FileTree

variable {t t' : FileTree} {path other name : String} {before : List String} {bytes old : ByteArray}

/-- What can be read can be read after any file was written. -/
theorem exists_read_of_write (h : t.write path bytes = .ok t') (hread : t.read other = .ok old) :
    ∃ new, t'.read other = .ok new := by
  obtain ⟨place, hplace, hfile⟩ := read_eq_ok_iff.mp hread
  have hthere := (changes_write h).kept place (Option.isSome_iff_exists.mpr ⟨old, hfile⟩)
  obtain ⟨new, hnew⟩ := Option.isSome_iff_exists.mp hthere
  exact ⟨new, read_eq_ok_iff.mpr ⟨place, (extends_write h).placeOf hplace, hnew⟩⟩

/-- A file that can be read can be written, where its path ends with a name. -/
theorem exists_write_of_read (hread : t.read path = .ok old) (hparts : parts path = before ++ [name])
    (hempty : name ≠ "") (hdot : name ≠ ".") (hup : name ≠ "..") (bytes : ByteArray) :
    ∃ t', t.write path bytes = .ok t' := by
  obtain ⟨place, hplace, hfile⟩ := read_eq_ok_iff.mp hread
  obtain ⟨hcheck, hfollow⟩ := placeOf_eq_ok_iff.mp hplace
  rw [hparts, follow_append] at hfollow
  obtain ⟨parent, hbefore, hlast⟩ := exists_ok_of_bind hfollow
  have hfolder := hasFolder_of_follow_cons hlast
  have hsize : name.utf8ByteSize ≤ longestName := by
    by_contra hlong
    rw [follow_long hfolder (Nat.not_le.mp hlong)] at hlast
    cases hlast
  rw [follow_name hfolder hempty hdot hup hsize] at hlast
  obtain rfl := Except.ok.inj hlast
  obtain ⟨hsteps, hends⟩ := steps_of_parts hparts hempty
  have hnew : t.newPlace path = .ok (parent ++ [name]) := newPlace_eq_ok_iff.mpr
    ⟨hcheck, hends, before, name, parent, hsteps, hbefore, hfolder, hdot, hup, hsize, rfl⟩
  exact exists_write hnew (not_hasFolder_of_file? hfile) bytes

end FileTree

namespace Converting

variable {o : Options} {file name : String} {w v : World} {maps : MapTable}

/-- The path of a file in the output folder ends with a name. -/
theorem IsOutputFile.exists_parts (h : IsOutputFile file) (o : Options) :
    ∃ before name, parts (o.target file) = before ++ [name] ∧ name ≠ "" ∧ name ≠ "." ∧ name ≠ ".." := by
  have hendings : ∀ ending ∈ outputEndings, '/' ∉ ending.toList ∧ 3 ≤ ending.length := by
    decide +kernel
  obtain ⟨base, ending, hending, rfl⟩ := h
  obtain ⟨hslash, hlength⟩ := hendings ending hending
  obtain ⟨folders, hjoin⟩ := Path.exists_parts_join o.output (base ++ ending)
  obtain ⟨inner, start, hparts⟩ := Path.exists_parts_append hslash base
  have hne : ∀ short : String, short.length ≤ 2 → start ++ ending ≠ short := by
    rintro _ hshort rfl
    rw [String.length_append] at hshort
    omega
  refine ⟨folders ++ inner, start ++ ending, ?_, hne "" (by decide), hne "." (by decide),
    hne ".." (by decide)⟩
  rw [Options.target, hjoin, hparts, List.append_assoc]

/-! ### Once the input was read -/

/-- A world in which the archive was read, and the palette for archives that have none can be. -/
structure HasInput (o : Options) (w : World) : Prop where
  sorted : w.session.sorted.isSome = true
  palette : ∀ path ∈ o.palette, ∃ bytes, w.files.read path = .ok bytes

/-- Without a cache a text lump comes from the archive. -/
theorem textLump_of_not_cache (hcache : o.cache = false) (name : String) :
    textLump (m := StateM FileTree) o name = archivedText o (Text.upper name) := by
  rw [textLump]
  simp only [hcache, Bool.false_eq_true, if_false]

/-- An archive that was read is not opened again. -/
theorem guards_lumps (o : Options) : Guards (HasInput o) (fun e => ¬ e.OnInput o) (fun _ => True)
    (lumps (m := StateM FileTree) o) := by
  intro w hw
  obtain ⟨sorted, hsorted⟩ := Option.isSome_iff_exists.mp hw.sorted
  rw [exec_lumps_of_sorted hsorted]
  exact ⟨hw, trivial⟩

/-- Writing a file does not fail for the sake of the palette: one that can be read can be written. -/
theorem guards_writeFile (hfile : IsOutputFile file) (bytes : ByteArray) :
    Guards (HasInput o) (fun e => ¬ e.OnInput o) (fun _ => True)
      (onPath (o.target file) (FileStore.writeFile (o.target file) bytes)) := by
  intro w hw
  rw [exec_onPath, FileTree.run_writeFile]
  cases hwrite : w.files.write (o.target file) bytes with
  | ok t' =>
    refine ⟨⟨hw.sorted, fun path hpath => ?_⟩, trivial⟩
    obtain ⟨old, hread⟩ := hw.palette path hpath
    exact FileTree.exists_read_of_write hwrite hread
  | error fault =>
    refine ⟨hw, fun hpalette => ?_⟩
    obtain ⟨old, hread⟩ := hw.palette (o.target file) hpalette
    obtain ⟨_, _, hparts, hempty, hdot, hup⟩ := hfile.exists_parts o
    obtain ⟨t', hok⟩ := FileTree.exists_write_of_read hread hparts hempty hdot hup bytes
    rw [hok] at hwrite
    cases hwrite

/-- Once its input was read, a conversion without a cache does not fail for the sake of it. -/
theorem guardsParts_hasInput (hcache : o.cache = false) :
    GuardsParts o (HasInput o) (fun e => ¬ e.OnInput o) fun _ => True where
  session := fun hsorted hw => ⟨hsorted ▸ hw.sorted, hw.palette⟩
  lumps := guards_lumps o
  textLump := by
    intro name
    rw [textLump_of_not_cache hcache]
    exact guards_bind (guards_lumps o) fun _ _ => guards_pure trivial
  imageFile := by
    intro sorted _ name key
    cases sorted.table.content? key with
    | none => exact guards_pure trivial
    | some content =>
      cases content with
      | picture kind p =>
        change Guards _ _ _ (if (Png.ofPicture p sorted.palette).hasArea then _ else _)
        split
        · exact guards_pure trivial
        · exact guards_throw id
      | _ => exact guards_pure trivial
  writeFile := guards_writeFile

/-! ### Until the input was read -/

/-- A palette for archives that have none is looked for in its file, which has to be read. -/
theorem exists_read_of_exec_fallbackPalette {palette : Option Palette}
    (h : exec (fallbackPalette o) w = (.ok palette, v)) :
    ∀ path ∈ o.palette, ∃ bytes, w.files.read path = .ok bytes := by
  intro path hpath
  rw [fallbackPalette, Option.mem_def.mp hpath] at h
  obtain ⟨bytes, _, hread, _⟩ := exists_exec_of_bind h
  exact ⟨bytes, (of_exec_onPath hread).1⟩

/-- An archive is sorted only if the palette for archives that have none can be read. -/
theorem exists_read_of_exec_lumps {sorted : SortedArchive} (hnone : w.session.sorted = none)
    (h : exec (lumps o) w = (.ok sorted, v)) :
    ∀ path ∈ o.palette, ∃ bytes, w.files.read path = .ok bytes := by
  rw [lumps, exec_bind, exec_get] at h
  dsimp only at h
  rw [hnone] at h
  obtain ⟨opened, u, hopen, h⟩ := exists_exec_of_bind h
  rw [exec_lift, run_openFile] at hopen
  obtain ⟨_, rfl⟩ := Prod.mk.inj hopen
  cases opened with
  | error e => cases (Prod.mk.inj h).1
  | ok archive =>
    obtain ⟨_, _, hpalette, _⟩ := exists_exec_of_bind h
    exact exists_read_of_exec_fallbackPalette hpalette

/-- Without a cache, reading the table of the maps only reads. -/
theorem keeps_reads_readMaps (hcache : o.cache = false) :
    Keeps (Reads o) (readMaps (m := StateM FileTree) o) := by
  rw [readMaps_eq]
  refine keeps_readText id ?_
  rw [textLump_of_not_cache hcache]
  exact keeps_reads_archivedText o _

/-- Without a cache, the table of the maps is there only if the input was read. -/
theorem hasInput_of_exec_readMaps (hcache : o.cache = false) (hnone : w.session.sorted = none)
    (h : exec (readMaps o) w = (.ok maps, v)) : HasInput o v := by
  have hreads := (keeps_reads_readMaps hcache).of_exec h
  rw [readMaps_eq] at h
  obtain ⟨found, u, hlump, hmade⟩ := exists_exec_of_bind h
  rw [textLump_of_not_cache hcache] at hlump
  obtain ⟨sorted, hsorted, _⟩ := of_exec_archivedText hlump
  have hrest : Reads o u v :=
    (keeps_bind (keeps_reads_warn _) fun _ => keeps_pure _).of_exec hmade
  obtain ⟨_, _, hlumps, _⟩ := exists_exec_of_bind hlump
  refine ⟨Option.isSome_iff_exists.mpr ⟨sorted, hrest.sorted_kept sorted hsorted⟩, ?_⟩
  rw [hreads.files_eq]
  exact exists_read_of_exec_lumps hnone hlumps

/-- Without a cache, a conversion makes its folder before it has the table of the maps, and does nothing
else to files; and the table is there only if the input was read. -/
theorem of_exec_prepare (hcache : o.cache = false) {s : Session} (hnone : s.sorted = none)
    (t : FileTree) :
    (exec (prepare o) ⟨s, t⟩).2.files =
        ((FileStore.createFolders o.output : StateM FileTree _).run t).2 ∧
      ∀ maps v, exec (prepare o) ⟨s, t⟩ = (.ok maps, v) → HasInput o v := by
  have hprepare : prepare (m := StateM FileTree) o =
      onPath o.output (FileStore.createFolders o.output) >>= fun _ => readMaps o := by
    rw [prepare]
    simp only [hcache, Bool.false_eq_true, if_false]
  rw [hprepare, exec_bind, exec_onPath]
  generalize (FileStore.createFolders o.output : StateM FileTree _).run t = made
  obtain ⟨e | _, t₁⟩ := made
  · exact ⟨rfl, fun maps v h => nomatch (Prod.mk.inj h).1⟩
  · exact ⟨(keeps_reads_readMaps hcache _).files_eq,
      fun maps v h => hasInput_of_exec_readMaps hcache hnone h⟩

end Converting

open Converting in
/-- A conversion without a cache that fails because the archive cannot be read or is none, or because the
palette for archives that have none cannot be read, has done nothing but make its folder. Every file
has the content that it had, no file was made, and the only folders that were made are those to which
the path of the output folder leads on its way; that is the output folder itself where the folders above
it are there. -/
theorem convert_unusable_input (o : Options) (now : String) (t : FileTree) (e : ConversionError)
    (hcache : o.cache = false) (h : ((convert o now : StateM FileTree _).run t).1.1 = .error e)
    (hinput : e.OnInput o) :
    let t' := ((convert o now : StateM FileTree _).run t).2
    t' = ((FileStore.createFolders o.output : StateM FileTree _).run t).2 ∧
      (∀ place, t'.file? place = t.file? place) ∧ FileTree.AddsOnWay o.output t t' ∧
      ((∀ start, FileTree.IsStart start o.output → start ≠ o.output →
          t.HasFolder (Path.destination t.here start)) →
        ∀ place, t'.HasFolder place →
          t.HasFolder place ∨ place = Path.destination t.here o.output) := by
  have hmade : ((convert o now : StateM FileTree _).run t).2 =
      ((FileStore.createFolders o.output : StateM FileTree _).run t).2 := by
    have hstart : Session.start.sorted = none := rfl
    obtain ⟨hfiles, hmaps⟩ := of_exec_prepare hcache hstart t
    change (exec (run o now) ⟨.start, t⟩).2.files = _
    change (exec (run o now) ⟨.start, t⟩).1 = .error e at h
    rw [run, exec_bind] at h ⊢
    rcases hprepare : exec (prepare o) ⟨.start, t⟩ with ⟨_ | maps, v⟩
    · rw [hprepare] at hfiles
      exact hfiles
    · -- With its input a conversion does not fail for the sake of it.
      rw [hprepare] at h
      have hrest := ((guardsParts_hasInput hcache).produce now maps v (hmaps maps v hprepare)).2
      rw [h] at hrest
      exact absurd hinput hrest
  intro t'
  have hadds : FileTree.AddsOnWay o.output t t' := by
    rw [show t' = _ from hmade]
    exact FileTree.addsOnWay_createFolders o.output t
  refine ⟨hmade, fun place => ?_, hadds, fun habove place hplace => ?_⟩
  · rw [show t' = _ from hmade]
    exact (FileTree.changes_createFolders o.output t).file?_eq place id
  · rcases hadds.hasFolder place hplace with hbefore | ⟨start, hstart, rfl⟩
    · exact Or.inl hbefore
    · by_cases hself : start = o.output
      · exact Or.inr (by rw [hself])
      · exact Or.inl (habove start hstart hself)

/-- A conversion whose palette is missing, over the files of an earlier one. -/
theorem convert_unusable_input_missing_palette :
    let o := { Options.standard "mod.wad" "out" with palette := some "pal" }
    let wad : ByteArray := "PWAD".toUTF8 ++ ⟨#[0, 0, 0, 0, 12, 0, 0, 0]⟩
    let t : FileTree := ⟨[(["mod.wad"], wad), (["out", "UMAPINFO.txt"], ⟨#[7]⟩)], [["out"]], []⟩
    let ran := (convert o "noon" : StateM FileTree _).run t
    ran.1.1 = .error (.file "pal" .missing) ∧
      ran.2.file? ["out", "UMAPINFO.txt"] = some ⟨#[7]⟩ ∧ ran.2.file? ["out", "CREDITS.txt"] = none := by
  intro o wad t ran
  have hran : ran.1.1 = .error (.file "pal" .missing) := by decide +kernel
  obtain ⟨_, hfiles, _⟩ := convert_unusable_input o "noon" t _ rfl hran rfl
  refine ⟨hran, ?_, ?_⟩
  · rw [hfiles]
    decide +kernel
  · rw [hfiles]
    decide +kernel

end Interlude
