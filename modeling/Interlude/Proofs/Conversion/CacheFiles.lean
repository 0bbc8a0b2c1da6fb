import Mathlib
import Interlude.Proofs.Conversion.Writes
import Interlude.Proofs.Files.Following
import Interlude.Proofs.Text.LetterCase

/-!
# The files of the cache

A lump is kept in a file of the cache whose name has no lower-case letter, and the texts that a
conversion writes to its output folder have names that end in lower-case letters. So no text lies at
the place of a lump, whatever folders the names lead through.
-/

namespace Interlude

namespace Converting

open Text (IsUpper)
open Interlude.Path (destination parts IsName)

variable {o : Options} {name file : String} {place : Place} {t : FileTree} {bytes : ByteArray}

/-! ### Lumps -/

/-- The name of the file that keeps a lump. -/
def lumpFile (name : String) : String :=
  String.ofList ((Text.upper name).toList.map LumpCache.fileChar)

/-- The path of a lump is that of its file in the folder of the cache. -/
theorem cachePath_eq (o : Options) (name : String) :
    cachePath o name = Path.join o.cacheFolder (lumpFile name) :=
  rfl

/-- The place of the folder of the cache, where relative paths begin at a folder. -/
def cachePlace (o : Options) (here : Place) : Place :=
  destination here o.cacheFolder

/-- The place of the file that keeps a lump. -/
def lumpPlace (o : Options) (here : Place) (name : String) : Place :=
  cachePlace o here ++ [lumpFile name]

/-- The name of the file of a lump has no lower-case letter. -/
theorem isUpper_lumpFile (name : String) : IsUpper (lumpFile name).toList := by
  intro c hc
  rw [lumpFile, String.toList_ofList, List.mem_map] at hc
  obtain ⟨d, hd, rfl⟩ := hc
  rw [LumpCache.fileChar]
  split
  · rfl
  · rw [Text.toList_upper] at hd
    exact Text.isUpper_map_toUpper _ d hd

/-- No slash is left in the name of the file of a lump. -/
theorem slash_not_mem_lumpFile (name : String) : '/' ∉ (lumpFile name).toList :=
  slash_not_mem_map_fileChar (Text.upper name)

/-- The path of a lump ends in the folder of the cache and the file. -/
theorem exists_parts_cachePath (o : Options) (name : String) :
    ∃ before, parts (cachePath o name) = before ++ ["_tmp", lumpFile name] := by
  obtain ⟨before, hfolder⟩ := Path.exists_parts_join o.output "_tmp"
  have htmp : '/' ∉ "_tmp".toList := by decide
  rw [Path.parts_of_no_slash htmp] at hfolder
  have hslash := slash_not_mem_lumpFile name
  have hfile := Path.startsWith_of_no_slash hslash
  have hlast : (parts o.cacheFolder).getLast? = some "_tmp" := by
    rw [Options.cacheFolder, hfolder, List.getLast?_concat]
  refine ⟨before, ?_⟩
  rw [cachePath_eq]
  rcases Path.join_of_relative hfile o.cacheFolder with
    ⟨hempty, _⟩ | ⟨_, ⟨folder, hends, _⟩ | hjoin⟩
  · rw [hempty] at hlast
    exact absurd hlast (by decide)
  · rw [hends, ← String.append_empty (s := folder ++ "/"), Path.parts_append_slash,
      show parts "" = [""] from rfl, List.getLast?_concat] at hlast
    exact absurd hlast (by decide)
  · rw [hjoin, Path.parts_append_slash, Options.cacheFolder, hfolder, Path.parts_of_no_slash hslash,
      List.append_assoc]
    rfl

/-- The file of a lump that can be read has a name. -/
theorem isName_of_read (h : t.read (cachePath o name) = .ok bytes) : IsName (lumpFile name) := by
  obtain ⟨p, hplace, hfile⟩ := FileTree.read_eq_ok_iff.mp h
  obtain ⟨_, hfollow⟩ := FileTree.placeOf_eq_ok_iff.mp hplace
  obtain ⟨before, hparts⟩ := exists_parts_cachePath o name
  rw [hparts, FileTree.follow_append] at hfollow
  obtain ⟨q, _, hfollow⟩ := FileTree.exists_ok_of_bind hfollow
  have htmp := FileTree.follow_resolve_of_follow_cons hfollow
  have hend := FileTree.follow_resolve_of_follow_cons htmp
  have hdown : Place.resolve q ["_tmp"] = q ++ ["_tmp"] :=
    Place.resolve_singleton (by decide) (by decide) (by decide)
  rw [hdown] at htmp hend
  have hp := (Except.ok.inj hend).symm
  -- The folder of the cache and the one around it are folders, so the file is neither of them.
  have houter : p ≠ q := fun heq =>
    FileTree.not_hasFolder_of_file? hfile (heq ▸ FileTree.hasFolder_of_follow_cons hfollow)
  have hinner : p ≠ q ++ ["_tmp"] := fun heq =>
    FileTree.not_hasFolder_of_file? hfile (heq ▸ FileTree.hasFolder_of_follow_cons htmp)
  refine ⟨slash_not_mem_lumpFile name, ?_, ?_, ?_⟩
  · intro hempty
    rw [hempty] at hp
    exact hinner hp
  · intro hdot
    rw [hdot] at hp
    exact hinner hp
  · intro hup
    rw [hup] at hp
    exact houter (hp.trans List.dropLast_concat)

/-- A lump that can be read lies directly in the folder of the cache. -/
theorem placeOf_of_read (h : t.read (cachePath o name) = .ok bytes) :
    t.placeOf (cachePath o name) = .ok (lumpPlace o t.here name) ∧
      t.file? (lumpPlace o t.here name) = some bytes := by
  obtain ⟨p, hplace, hfile⟩ := FileTree.read_eq_ok_iff.mp h
  have hp : p = lumpPlace o t.here name :=
    (FileTree.destination_of_placeOf hplace).trans
      (Path.destination_join_name (isName_of_read h) t.here o.cacheFolder)
  exact ⟨hp ▸ hplace, hp ▸ hfile⟩

/-! ### Texts -/

/-- How the names of the texts end that a conversion writes. -/
def textEndings : List String :=
  [".txt", ".json"]

/-- A name that ends in one of these ways. -/
def IsTextFile (file : String) : Prop :=
  ∃ base, ∃ ending ∈ textEndings, file = base ++ ending

/-- The table of the maps has such a name. -/
theorem isTextFile_mapFile : IsTextFile mapFile :=
  ⟨"UMAPINFO", ".txt", by decide, by decide⟩

/-- The credits have such a name. -/
theorem isTextFile_creditsFile : IsTextFile creditsFile :=
  ⟨"CREDITS", ".txt", by decide, by decide⟩

/-- A document has such a name. -/
theorem isTextFile_json (name : String) : IsTextFile (name ++ ".json") :=
  ⟨name, ".json", by decide, rfl⟩

/-- No such ending has a slash. -/
theorem slash_not_mem_textEnding {ending : String} (h : ending ∈ textEndings) :
    '/' ∉ ending.toList := by
  have hall : ∀ ending ∈ textEndings, '/' ∉ ending.toList := by decide
  exact hall ending h

/-- Every such ending has a lower-case letter. -/
theorem not_isUpper_textEnding {ending : String} (h : ending ∈ textEndings) :
    ¬ IsUpper ending.toList := by
  intro hupper
  rcases List.mem_pair.mp h with rfl | rfl
  · exact absurd (hupper 't' (by decide)) (by decide)
  · exact absurd (hupper 'n' (by decide)) (by decide)

/-- The name of a new file ends as the name under which it was to be written. -/
theorem exists_place_of_newPlace {base ending : String} (hslash : '/' ∉ ending.toList)
    (h : t.newPlace (o.target (base ++ ending)) = .ok place) :
    ∃ folder start, place = folder ++ [start ++ ending] := by
  obtain ⟨hcheck, hends, before, last, parent, hsteps, _, _, _, _, _, rfl⟩ :=
    FileTree.newPlace_eq_ok_iff.mp h
  rw [FileTree.steps_eq_parts (FileTree.ne_empty_of_checkPath hcheck) hends] at hsteps
  obtain ⟨folders, hjoin⟩ := Path.exists_parts_join o.output (base ++ ending)
  obtain ⟨inner, start, hparts⟩ := Path.exists_parts_append hslash base
  rw [Options.target, hjoin, hparts, ← List.append_assoc] at hsteps
  have hlast := (List.append_inj' hsteps rfl).2
  exact ⟨parent, start, by rw [hlast]⟩

/-- No text lies at the place of a lump. -/
theorem ne_lumpPlace_of_newPlace (hfile : IsTextFile file)
    (h : t.newPlace (o.target file) = .ok place) (here : Place) (name : String) :
    place ≠ lumpPlace o here name := by
  obtain ⟨base, ending, hending, rfl⟩ := hfile
  obtain ⟨folder, start, rfl⟩ := exists_place_of_newPlace (slash_not_mem_textEnding hending) h
  intro heq
  have hname : start ++ ending = lumpFile name := (List.append_singleton_inj.mp heq).2
  apply not_isUpper_textEnding hending
  refine (isUpper_lumpFile name).of_subset ?_
  rw [← hname, String.toList_append]
  exact List.subset_append_right _ _

end Converting

end Interlude
