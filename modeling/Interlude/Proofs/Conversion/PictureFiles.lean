import Mathlib
import Interlude.Proofs.Conversion.Continuing
import Interlude.Proofs.LumpTable.Agreement

/-!
# Picture files stay

A conversion writes a picture only where nothing is, and puts a lump into the cache only if there is no
file for it. So every file that was there before stays as it is unless its name ends as those of texts
do, also where the conversion fails, and a picture that was written stays as it was written. Of each
picture that is asked for the session tells at most once.
-/

namespace Interlude

open FileTree (Extends)

variable {place : Place} {path : String} {bytes : ByteArray} {t t' : FileTree}

/-! ### Places of texts -/

namespace Place

/-- The places of files whose names end as those of the texts that a conversion writes. -/
def IsText (place : Place) : Prop :=
  ∃ folder base, ∃ ending ∈ Converting.textEndings, place = folder ++ [base ++ ending]

/-- No picture has such a name. -/
theorem not_isText_png (folder : Place) (base : String) :
    ¬ IsText (folder ++ [base ++ ".png"]) := by
  rintro ⟨folder', base', ending, hending, heq⟩
  have hname : base ++ ".png" = base' ++ ending := (List.append_singleton_inj.mp heq).2
  have hlast := congrArg (fun name : String => name.toList.getLast?) hname
  rcases List.mem_pair.mp hending with rfl | rfl <;> simp at hlast

end Place

namespace FileTree

/-- From one tree to the other no folder is gone, and files stay as they are, but for texts. -/
structure Spares (t t' : FileTree) : Prop where
  hasFolders : Extends t t'
  file?_eq : ∀ place bytes, ¬ place.IsText → t.file? place = some bytes → t'.file? place = some bytes

instance : IsPreorder FileTree Spares where
  refl t := ⟨Extends.refl t, fun _ _ _ h => h⟩
  trans _ _ _ h h' := ⟨h.hasFolders.trans h'.hasFolders,
    fun place bytes hplace hfile => h'.file?_eq place bytes hplace (h.file?_eq place bytes hplace hfile)⟩

/-- Where nothing is now nothing was before. -/
theorem Spares.node?_eq_none (h : Spares t t') (hplace : ¬ place.IsText)
    (hnone : t'.node? place = none) : t.node? place = none := by
  rw [node?_eq_none_iff] at hnone ⊢
  refine ⟨fun hfolder => hnone.1 (h.hasFolders.hasFolder hfolder), ?_⟩
  rw [Option.eq_none_iff_forall_not_mem]
  intro bytes hfile
  rw [h.file?_eq place bytes hplace hfile] at hnone
  cases hnone.2

/-- What could be read before can be read now. -/
theorem Spares.read_eq (h : Spares t t') (hplace : ¬ (Path.destination t.here path).IsText)
    (hread : t.read path = .ok bytes) : t'.read path = .ok bytes := by
  obtain ⟨p, hp, hfile⟩ := read_eq_ok_iff.mp hread
  refine read_eq_ok_iff.mpr ⟨p, h.hasFolders.placeOf hp, h.file?_eq p bytes ?_ hfile⟩
  rwa [destination_of_placeOf hp]

/-- Writing spares the files if it is to the place of a text or to one where no file is. -/
theorem spares_write (hwrite : t.write path bytes = .ok t')
    (hnew : ∀ place, t.newPlace path = .ok place → place.IsText ∨ t.file? place = none) :
    Spares t t' where
  hasFolders := extends_write hwrite
  file?_eq := by
    intro p old hp hold
    obtain ⟨place, hplace, -⟩ := write_eq_ok_iff.mp hwrite
    rw [file?_write hwrite, ← (of_newPlace hplace).1]
    split
    · rename_i heq
      subst heq
      rw [(hnew p hplace).resolve_left hp] at hold
      cases hold
    · exact hold

/-- Making folders spares the files. -/
theorem spares_createFolders (path : String) (t : FileTree) :
    Spares t ((FileStore.createFolders path : StateM FileTree _).run t).2 where
  hasFolders := extends_createFolders path t
  file?_eq := by
    intro place bytes _ hfile
    rw [(changes_createFolders path t).file?_eq place id, hfile]

end FileTree

namespace Converting

open FileTree (Spares)
open Interlude.Path (destination)

variable {o : Options} {name file : String} {w v u : World}
  {ran : Except ConversionError Unit × World}

/-- A text is written to the place of a text. -/
theorem isText_of_newPlace (hfile : IsTextFile file) (h : t.newPlace (o.target file) = .ok place) :
    place.IsText := by
  obtain ⟨base, ending, hending, rfl⟩ := hfile
  obtain ⟨folder, start, rfl⟩ := exists_place_of_newPlace (slash_not_mem_textEnding hending) h
  exact ⟨folder, start, ending, hending, rfl⟩

/-! ### What is told of pictures -/

/-- Each picture is told once, and only if it was asked for. -/
structure TellsOnce (s : Session) : Prop where
  nodup : (s.written ++ s.skipped).Nodup
  subset_asked : s.written ++ s.skipped ⊆ s.asked

/-- Telling of a picture that was not asked for before. -/
theorem TellsOnce.add {s s' : Session} (h : TellsOnce s) (hasked : name ∉ s.asked)
    (hadded : s'.asked = s.asked ++ [name])
    (htold : (s'.written ++ s'.skipped).Perm (name :: (s.written ++ s.skipped))) : TellsOnce s' where
  nodup := by
    rw [htold.nodup_iff, List.nodup_cons]
    exact ⟨fun hname => hasked (h.subset_asked hname), h.nodup⟩
  subset_asked := by
    intro image himage
    rw [hadded, List.mem_append, List.mem_singleton]
    rcases List.mem_cons.mp (htold.mem_iff.mp himage) with rfl | himage
    · exact Or.inr rfl
    · exact Or.inl (h.subset_asked himage)

/-- The place of the file of a picture. -/
def picturePlace (o : Options) (here : Place) (name : String) : Place :=
  destination here (o.target (name ++ ".png"))

/-- A picture was written: nothing was at its place, and now there is the file that is made of what the
archive has under its name. -/
structure Adds (o : Options) (name : String) (w v : World) : Prop where
  not_isText : ¬ (picturePlace o w.files.here name).IsText
  before : w.files.node? (picturePlace o w.files.here name) = none
  after : ∃ sorted ∈ v.session.sorted, ∃ content bytes,
    sorted.table.content? (Text.upper name) = some content ∧
      pictureFile? sorted content = some bytes ∧
      v.files.file? (picturePlace o w.files.here name) = some bytes

/-- What a part of a conversion does to pictures: it leaves the files that are there, opens the archive
among them, tells each picture that is asked for once, and notes as written those that it has added. -/
structure Exports (o : Options) (w v : World) : Prop where
  spares : Spares w.files v.files
  sorted_kept : ∀ sorted ∈ w.session.sorted, sorted ∈ v.session.sorted
  opened : ∀ sorted ∈ v.session.sorted, sorted ∈ w.session.sorted ∨
    ∃ t, Spares w.files t ∧ Opens o t sorted
  tellsOnce : TellsOnce w.session → TellsOnce v.session
  written : ∀ image ∈ v.session.written, image ∈ w.session.written ∨ Adds o image w v

/-- Pictures that were added stay. -/
theorem Adds.trans (h : Adds o name w v) (h' : Exports o v u) : Adds o name w u where
  not_isText := h.not_isText
  before := h.before
  after := by
    obtain ⟨sorted, hsorted, content, bytes, hcontent, hbytes, hfile⟩ := h.after
    exact ⟨sorted, h'.sorted_kept sorted hsorted, content, bytes, hcontent, hbytes,
      h'.spares.file?_eq _ _ h.not_isText hfile⟩

/-- Pictures that are added later were not there before. -/
theorem Adds.of_spares (h : Adds o name v u) (hspares : Spares w.files v.files) :
    Adds o name w u := by
  have hhere := hspares.hasFolders.here_eq
  obtain ⟨hname, hbefore, hafter⟩ := h
  rw [hhere] at hname hbefore hafter
  exact ⟨hname, hspares.node?_eq_none hname hbefore, hafter⟩

instance : IsPreorder World (Exports o) where
  refl w := ⟨refl_of Spares w.files, fun _ h => h, fun _ h => Or.inl h, id, fun _ h => Or.inl h⟩
  trans _ _ _ h h' := by
    refine ⟨trans_of Spares h.spares h'.spares, fun sorted hsorted => ?_, fun sorted hsorted => ?_,
      fun hw => ?_, ?_⟩
    · exact h'.sorted_kept sorted (h.sorted_kept sorted hsorted)
    · rcases h'.opened sorted hsorted with hsorted | ⟨t, hspares, hopens⟩
      · exact h.opened sorted hsorted
      · exact Or.inr ⟨t, trans_of Spares h.spares hspares, hopens⟩
    · exact h'.tellsOnce (h.tellsOnce hw)
    · intro image himage
      rcases h'.written image himage with himage | hadded
      · exact (h.written image himage).imp_right fun hadded => hadded.trans h'
      · exact Or.inr (hadded.of_spares h.spares)

/-! ### Parts -/

/-- A part that only reads adds no picture. -/
theorem exports_of_reads (h : Reads o w v) : Exports o w v := by
  obtain ⟨hasked, hwritten, hskipped, -⟩ := h.quiet
  have hspares : Spares w.files w.files := refl_of Spares w.files
  refine ⟨h.files_eq ▸ hspares, h.sorted_kept, fun sorted hsorted => ?_, fun hw => ⟨?_, ?_⟩, ?_⟩
  · exact (h.opened sorted hsorted).imp_right fun hopens => ⟨w.files, hspares, hopens⟩
  · rw [hwritten, hskipped]
    exact hw.nodup
  · rw [hwritten, hskipped, hasked]
    exact hw.subset_asked
  · intro image himage
    exact Or.inl (hwritten ▸ himage)

/-- What spares the files adds no picture. -/
theorem exports_of_spares (h : Spares w.files t) : Exports o w ⟨w.session, t⟩ :=
  ⟨h, fun _ hsorted => hsorted, fun _ hsorted => Or.inl hsorted, id, fun _ himage => Or.inl himage⟩

/-- Writing to the place of a text or to one where no file is adds no picture. -/
theorem exports_writeFile (label : String)
    (hnew : ∀ place, w.files.newPlace path = .ok place → place.IsText ∨ w.files.file? place = none) :
    Exports o w (exec (onPath label (FileStore.writeFile path bytes)) w).2 := by
  rw [exec_onPath, FileTree.run_writeFile]
  cases hwrite : w.files.write path bytes with
  | error fault => exact refl_of (Exports o) w
  | ok t => exact exports_of_spares (FileTree.spares_write hwrite hnew)

/-- Writing a text adds no picture. -/
theorem keeps_exports_writeText (o : Options) (hfile : IsTextFile file) (text : String) :
    Keeps (Exports o) (writeText (m := StateM FileTree) o file text) :=
  fun _ => exports_writeFile _ fun _ hplace => Or.inl (isText_of_newPlace hfile hplace)

/-- Keeping a lump that the cache does not hold adds no picture. -/
theorem exports_put (hmissing : w.files.read (cachePath o name) = .error .missing)
    (bytes : ByteArray) :
    Exports o w (exec (onPath o.cacheFolder
      (LumpCache.put ⟨o.cacheFolder⟩ (Text.upper name) bytes)) w).2 := by
  refine exports_writeFile _ fun place hplace => Or.inr ?_
  rw [Option.eq_none_iff_forall_not_mem]
  intro old hold
  -- A file at the place of the lump would have been found.
  have hread := FileTree.read_eq_ok_iff.mpr ⟨place, FileTree.placeOf_of_newPlace hplace, hold⟩
  rw [← cachePath, hmissing] at hread
  cases hread

/-- Making the folders adds no picture. -/
theorem keeps_exports_openFolders (o : Options) : Keeps (Exports o) (openFolders o) := by
  have hfolders (label path : String) : Keeps (Exports o)
      (onPath label (FileStore.createFolders path : StateM FileTree _)) := by
    intro w
    rw [exec_onPath]
    exact exports_of_spares (FileTree.spares_createFolders path w.files)
  refine keeps_bind (hfolders _ _) fun _ => ?_
  split
  · refine keeps_bind (fun w => ?_) fun _ => keeps_pure _
    rw [exec_onPath]
    exact exports_of_spares (FileTree.spares_createFolders o.cacheFolder w.files)
  · exact keeps_pure _

/-- Nothing is where a picture is written. -/
theorem node?_eq_none_of_isThere (hplace : t.newPlace path = .ok place)
    (hthere : t.isThere path = false) : t.node? place = none := by
  rw [FileTree.isThere, FileTree.placeOf_of_newPlace hplace] at hthere
  exact Option.isNone_iff_eq_none.mp (Option.isSome_eq_false_iff.mp hthere)

/-- Writing the file that is made of a lump adds a picture, if nothing is where it is written. -/
theorem adds_of_write {s : Session} {sorted : SortedArchive} {content : Content}
    (hthere : w.files.isThere (o.target (name ++ ".png")) = false)
    (hwrite : w.files.write (o.target (name ++ ".png")) bytes = .ok t)
    (hsorted : s.sorted = some sorted)
    (hcontent : sorted.table.content? (Text.upper name) = some content)
    (hbytes : pictureFile? sorted content = some bytes) : Adds o name w ⟨s, t⟩ := by
  obtain ⟨place, hplace, -⟩ := FileTree.write_eq_ok_iff.mp hwrite
  obtain ⟨folder, start, hname⟩ := exists_place_of_newPlace (by decide) hplace
  have hnone := node?_eq_none_of_isThere hplace hthere
  have hfile := FileTree.file?_write hwrite place
  rw [if_pos (FileTree.of_newPlace hplace).1] at hfile
  obtain rfl : place = picturePlace o w.files.here name := (FileTree.of_newPlace hplace).1
  exact ⟨hname ▸ Place.not_isText_png folder start, hnone, sorted, hsorted, content, bytes, hcontent,
    hbytes, hfile⟩

/-- Asking for a picture alone adds none. -/
theorem exports_ask (o : Options) (name : String) (w : World) :
    Exports o w ⟨{ w.session with asked := w.session.asked ++ [name] }, w.files⟩ where
  spares := refl_of Spares w.files
  sorted_kept := fun _ hsorted => hsorted
  opened := fun _ hsorted => Or.inl hsorted
  tellsOnce := fun hw =>
    ⟨hw.nodup, List.Subset.trans hw.subset_asked (List.subset_append_left _ _)⟩
  written := fun _ himage => Or.inl himage

/-- Exporting a picture that was not asked for before adds it at most. -/
theorem exports_of_export (hasked : name ∉ w.session.asked)
    (h : Export o name ⟨{ w.session with asked := w.session.asked ++ [name] }, w.files⟩ ran) :
    Exports o w ran.2 := by
  cases h with
  | failed reads e => exact trans_of (Exports o) (exports_ask o name w) (exports_of_reads reads)
  | skipped reads =>
    obtain ⟨hspares, hkept, hopened, -, -⟩ :=
      trans_of (Exports o) (exports_ask o name w) (exports_of_reads reads)
    obtain ⟨hadded, hsame, hskipped, -⟩ := reads.quiet
    refine ⟨hspares, hkept, hopened, fun hw => hw.add hasked hadded ?_,
      fun image himage => Or.inl (hsame ▸ himage)⟩
    dsimp only at hsame hskipped ⊢
    rw [hsame, hskipped, ← List.append_assoc]
    exact List.perm_append_singleton _ _
  | @written u sorted content bytes t reads hthere hsorted hcontent hbytes hwrite =>
    obtain ⟨-, hkept, hopened, -, -⟩ :=
      trans_of (Exports o) (exports_ask o name w) (exports_of_reads reads)
    obtain ⟨hadded, hsame, hskipped, -⟩ := reads.quiet
    refine ⟨?_, hkept, hopened, fun hw => hw.add hasked hadded ?_, fun image himage => ?_⟩
    · refine FileTree.spares_write hwrite fun place hplace => Or.inr ?_
      exact (FileTree.node?_eq_none_iff.mp (node?_eq_none_of_isThere hplace hthere)).2
    · dsimp only at hsame hskipped ⊢
      rw [hsame, hskipped, List.append_assoc]
      exact List.perm_middle
    · dsimp only at hsame himage
      rw [hsame, List.mem_append, List.mem_singleton] at himage
      rcases himage with himage | rfl
      · exact Or.inl himage
      · exact Or.inr (adds_of_write hthere hwrite hsorted hcontent hbytes)

/-- Asking for a picture adds it at most. -/
theorem keeps_exports_exportImage (o : Options) (name : String) (external : Bool) :
    Keeps (Exports o) (exportImage (m := StateM FileTree) o name external) := by
  intro w
  rw [exec_exportImage]
  split
  · exact refl_of (Exports o) w
  · rename_i hasked
    exact exports_of_export hasked (export_exportNew o name external _)

/-- A conversion leaves the files that are there and adds the pictures that it notes as written. -/
theorem keeps_exports_run (o : Options) (now : String) : Keeps (Exports o) (run o now) := by
  rw [run_eq]
  refine keeps_bind (keeps_exports_openFolders o) fun _ => ?_
  refine keeps_bind (keeps_gather exports_of_reads exports_put) fun (maps, scripts) => ?_
  refine keeps_bind (keeps_saveTexts exports_of_reads (keeps_exports_writeText o) now maps scripts)
    fun _ => ?_
  refine keeps_bind (keeps_exportPictures (keeps_exports_exportImage o) maps scripts) fun _ => ?_
  exact keeps_bind keeps_get fun _ => keeps_pure _

end Converting

/-! ### Files and lumps -/

/-- A file is made of the lump of an archive that was filed under a name: it is the lump itself if that
is a picture file, and else the picture that was decoded from the lump. -/
def Archive.IsMadeInto (a : Archive) (fallback : Option Palette) (key : String) (file : ByteArray) :
    Prop :=
  let sorted := a.sorted fallback
  ∃ i lump, a.nameAt? i = some key ∧ a.lump i = .ok lump ∧
    sorted.table.categoryAt? i = sorted.table.category? key ∧
    (sorted.table.category? key = some .png ∧ file = lump ∨
      ∃ kind p, sorted.table.category? key = some (.image kind) ∧ (Content.picture kind p).IsOf lump ∧
        file = (Png.ofPicture p sorted.palette).toFile)

/-- The file of a picture is made of the lump with its name. -/
theorem Archive.isMadeInto_of_pictureFile? {a : Archive} {fallback : Option Palette} {key : String}
    {content : Content} {file : ByteArray}
    (hcontent : (a.sorted fallback).table.content? key = some content)
    (hfile : Converting.pictureFile? (a.sorted fallback) content = some file) :
    a.IsMadeInto fallback key file := by
  obtain ⟨last, hlast⟩ := (Sorting.Reached.start (a := a)).reached_visitAll
  have hfaithful : Sorting.Faithful a last (a.sorted fallback).table := hlast.faithful
  have hcategory : (a.sorted fallback).table.category? key = some content.category := by
    rw [LumpTable.category?, hcontent, Option.map_some]
  obtain ⟨f, hf, rfl, rfl⟩ := LumpTable.content?_eq_some_iff.mp hcontent
  have hplace : (a.sorted fallback).table.categoryAt? f.index = some f.content.category :=
    (hfaithful.inOrder.categoryAt?_eq_some_iff _).mpr ⟨f, hf, rfl, rfl⟩
  rcases hfaithful.found f hf with hmap | ⟨lump, hlump, hisOf⟩
  · rw [hmap] at hfile
    cases hfile
  · refine ⟨f.index, lump, hfaithful.named f hf, hlump, hplace.trans hcategory.symm, ?_⟩
    rw [hcategory]
    cases hf : f.content with
    | png bytes =>
      rw [hf] at hfile hisOf
      exact Or.inl ⟨rfl, (Option.some.inj hfile).symm.trans hisOf.1⟩
    | picture kind p =>
      rw [hf] at hfile hisOf
      exact Or.inr ⟨kind, p, rfl, hisOf, (Option.some.inj hfile).symm⟩
    | _ =>
      rw [hf] at hfile
      cases hfile

open Converting

/-- What was opened of the archive of a conversion: the bytes that the files had in it at first, unless
the conversion may have written a text there. -/
def Options.HasOpened (o : Options) (t : FileTree) (archive : Archive) : Prop :=
  ∃ data, Archive.ofFile (Path.extension? o.archive) data = .ok archive ∧
    ∀ bytes, t.read o.archive = .ok bytes → ¬ (Path.destination t.here o.archive).IsText → data = bytes

/-- A conversion leaves the picture files that are there, also where it fails. One that succeeds reports
each picture once, as written or as skipped. Where a picture was written nothing was before, and now
there is the file that is made of the lump with its name in the archive. -/
theorem convert_adds_pictures (o : Options) (now : String) (t : FileTree) :
    let ran := (convert o now : StateM FileTree _).run t
    (∀ folder base bytes, t.file? (folder ++ [base ++ ".png"]) = some bytes →
      ran.2.file? (folder ++ [base ++ ".png"]) = some bytes) ∧
    ∀ report, ran.1.1 = .ok report → (report.images ++ report.skipped).Nodup ∧
      ∀ name ∈ report.images,
        t.node? (Path.destination t.here (o.target (name ++ ".png"))) = none ∧
        ∃ (archive : Archive) (fallback : Option Palette) (file : ByteArray),
          o.HasOpened t archive ∧ ran.1.2.sorted = some (archive.sorted fallback) ∧
          ran.2.file? (Path.destination t.here (o.target (name ++ ".png"))) = some file ∧
          archive.IsMadeInto fallback (Text.upper name) file := by
  intro ran
  have hexports : Exports o ⟨.start, t⟩ ⟨ran.1.2, ran.2⟩ := keeps_exports_run o now ⟨.start, t⟩
  refine ⟨fun folder base bytes hfile => ?_, fun report hreport => ?_⟩
  · exact hexports.spares.file?_eq _ bytes (Place.not_isText_png folder base) hfile
  have hexec : exec (run o now) ⟨.start, t⟩ = (.ok report, ⟨ran.1.2, ran.2⟩) := Prod.ext hreport rfl
  obtain ⟨maps, scripts, w₁, w₂, w₃, -, -, -, hfinish⟩ := exists_exec_of_run hexec
  obtain ⟨-, rfl⟩ := exec_exportPictures_of_finish hfinish
  refine ⟨(hexports.tellsOnce ⟨List.nodup_nil, List.nil_subset _⟩).nodup, fun name hname => ?_⟩
  have hadded := (hexports.written name hname).resolve_left List.not_mem_nil
  refine ⟨hadded.before, ?_⟩
  obtain ⟨sorted, hsorted, content, file, hcontent, hbytes, hfile⟩ := hadded.after
  obtain ⟨t', hspares, data, archive, fallback, hread, harchive, rfl⟩ :=
    (hexports.opened sorted hsorted).resolve_left (by simp [Session.start])
  refine ⟨archive, fallback, file, ⟨data, harchive, fun bytes hbefore hplace => ?_⟩, hsorted, hfile,
    Archive.isMadeInto_of_pictureFile? hcontent hbytes⟩
  exact Except.ok.inj (hread.symm.trans (hspares.read_eq hplace hbefore))

/-- Of two pictures of an archive one is there before and stays, and the other one is written. -/
theorem convert_adds_pictures_beside_another :
    let wad : ByteArray := "PWAD".toUTF8 ++ ⟨#[2, 0, 0, 0, 20, 0, 0, 0]⟩ ++ Png.signature.toByteArray ++
      ⟨#[12, 0, 0, 0, 8, 0, 0, 0]⟩ ++ "SKY\x00\x00\x00\x00\x00".toUTF8 ++
      ⟨#[12, 0, 0, 0, 8, 0, 0, 0]⟩ ++ "DOT\x00\x00\x00\x00\x00".toUTF8
    let o : Options := { Options.standard "mod.wad" "out" with cache := true }
    let old : ByteArray := "old".toUTF8
    let t : FileTree :=
      { files := [(["home", "mod.wad"], wad),
          (["home", "out", "DOT.png"], old),
          (["home", "out", "_tmp", "MAPINFO"],
            "map MAP01 \x7b\nexitpic = \"$INTER\"\nnext = endpic, \"END\"\n\x7d".toUTF8),
          (["home", "out", "_tmp", "INTER"],
            "BACKGROUND SKY\nSPLAT DOT\nSPOTS\n\x7b\nMAP01 1 2\n\x7d".toUTF8)]
        folders := [["home"], ["home", "out"], ["home", "out", "_tmp"]]
        here := ["home"] }
    let report : Report := ⟨1, ["INTER"], ["SKY"], ["DOT", "END"]⟩
    let ran := (convert o "" : StateM FileTree _).run t
    t.file? (["home", "out"] ++ ["DOT" ++ ".png"]) = some old ∧ ran.1.1 = .ok report ∧
      ran.2.file? (["home", "out"] ++ ["DOT" ++ ".png"]) = some old ∧
      (report.images ++ report.skipped).Nodup ∧
      t.node? (Path.destination t.here (o.target ("SKY" ++ ".png"))) = none ∧
      ∃ (archive : Archive) (fallback : Option Palette) (file : ByteArray),
        o.HasOpened t archive ∧ ran.1.2.sorted = some (archive.sorted fallback) ∧
        ran.2.file? (Path.destination t.here (o.target ("SKY" ++ ".png"))) = some file ∧
        archive.IsMadeInto fallback (Text.upper "SKY") file := by
  intro wad o old t report ran
  have hold : t.file? (["home", "out"] ++ ["DOT" ++ ".png"]) = some old := by decide +kernel
  have hran : ran.1.1 = .ok report := by decide +kernel
  obtain ⟨hkept, htold⟩ := convert_adds_pictures o "" t
  obtain ⟨hnodup, hadded⟩ := htold report hran
  exact ⟨hold, hran, hkept ["home", "out"] "DOT" old hold, hnodup,
    hadded "SKY" (List.mem_singleton.mpr rfl)⟩

end Interlude
