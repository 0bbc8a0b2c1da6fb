import Mathlib
import Interlude.Conversion.Basic
import Interlude.Proofs.Conversion.Reading

/-!
# Exporting pictures one by one

A picture that was not asked for before is skipped, or written, or the conversion fails over it. It is
written only where nothing was, and what is written is the picture file from the archive or the picture
in the form of one. A picture that was asked for before changes nothing. What asking for a picture keeps
is kept by the loops over the pictures of all scripts.
-/

namespace Interlude

namespace Converting

variable {o : Options} {name : String} {external : Bool} {w u : World}

/-- The picture file that is made of a content. -/
def pictureFile? (sorted : SortedArchive) : Content → Option ByteArray
  | .png bytes => some bytes
  | .picture _ p => some (Png.ofPicture p sorted.palette).toFile
  | _ => none

/-- How exporting a picture that was not asked for before ends, by what was read on the way. -/
inductive Export (o : Options) (name : String) (w : World) :
    Except ConversionError Unit × World → Prop
  /-- The archive cannot be read, the picture has no form as a file, or the file cannot be written. -/
  | failed {u : World} (reads : Reads o w u) (e : ConversionError) : Export o name w (.error e, u)
  /-- There is something where the picture would be, or the archive does not have it. -/
  | skipped {u : World} (reads : Reads o w u) :
    Export o name w
      (.ok (), ⟨{ u.session with skipped := u.session.skipped ++ [name] }, u.files⟩)
  | written {u : World} {sorted : SortedArchive} {content : Content} {bytes : ByteArray}
    {t : FileTree} (reads : Reads o w u)
    (isThere_eq : w.files.isThere (o.target (name ++ ".png")) = false)
    (sorted_eq : u.session.sorted = some sorted)
    (content_eq : sorted.table.content? (Text.upper name) = some content)
    (file_eq : pictureFile? sorted content = some bytes)
    (write_eq : w.files.write (o.target (name ++ ".png")) bytes = .ok t) :
    Export o name w (.ok (), ⟨{ u.session with written := u.session.written ++ [name] }, t⟩)

/-! ### One picture -/

/-- Making the file of a picture gives it or fails, and does nothing else. -/
theorem exec_imageFile (sorted : SortedArchive) (name : String) (content : Content) (w : World) :
    exec (imageFile sorted name content) w = (.ok (pictureFile? sorted content), w) ∨
      ∃ e, exec (imageFile sorted name content) w = (.error e, w) := by
  cases content with
  | picture kind p =>
    unfold imageFile
    dsimp only
    split
    · exact Or.inl rfl
    · exact Or.inr ⟨_, rfl⟩
  | _ => exact Or.inl rfl

/-- A picture that is missing from the archive is skipped. -/
theorem export_missing (hreads : Reads o w u) :
    Export o name w (exec (do
      if !external then warn [.noImage name]
      skip name : Converting (StateM FileTree) Unit) u) := by
  cases external with
  | true => exact .skipped hreads
  | false => exact .skipped (trans_of (Reads o) hreads (keeps_reads_warn [.noImage name] u))

/-- A picture for which there is a file is written, or writing it fails. -/
theorem export_file {sorted : SortedArchive} {content : Content} {bytes : ByteArray}
    (hreads : Reads o w u) (hthere : w.files.isThere (o.target (name ++ ".png")) = false)
    (hsorted : u.session.sorted = some sorted)
    (hcontent : sorted.table.content? (Text.upper name) = some content)
    (hfile : pictureFile? sorted content = some bytes) :
    Export o name w (exec (do
      onPath (o.target (name ++ ".png")) (FileStore.writeFile (o.target (name ++ ".png")) bytes)
      modify fun s => { s with written := s.written ++ [name] } :
        Converting (StateM FileTree) Unit) u) := by
  rw [exec_bind, exec_onPath, FileTree.run_writeFile]
  cases hwrite : u.files.write (o.target (name ++ ".png")) bytes with
  | error fault => exact .failed hreads _
  | ok t =>
    rw [hreads.files_eq] at hwrite
    exact .written (u := u) hreads hthere hsorted hcontent hfile hwrite

/-- Exporting a picture that was not asked for before ends in one of these ways. -/
theorem export_exportNew (o : Options) (name : String) (external : Bool) (w : World) :
    Export o name w (exec (exportNew o name external) w) := by
  unfold exportNew
  rw [exec_bind, exec_lift]
  change Export o name w (exec (if w.files.isThere (o.target (name ++ ".png")) then _ else _) w)
  split
  · exact .skipped (refl_of (Reads o) w)
  rename_i hthere
  rw [exec_bind]
  rcases hlumps : exec (lumps o) w with ⟨e | sorted, u⟩
  · exact .failed ((keeps_reads_lumps o).of_exec hlumps) e
  have hreads := (keeps_reads_lumps o).of_exec hlumps
  dsimp only
  cases hcontent : sorted.table.content? (Text.upper name) with
  | none => exact export_missing hreads
  | some content =>
    rw [Option.elim_some, exec_bind]
    rcases exec_imageFile sorted name content u with hfile | ⟨e, hfile⟩
    · rw [hfile]
      cases hbytes : pictureFile? sorted content with
      | none => exact export_missing hreads
      | some bytes =>
        exact export_file hreads (Bool.not_eq_true _ ▸ hthere) (sorted_of_exec_lumps hlumps) hcontent
          hbytes
    · rw [hfile]
      exact .failed hreads e

/-- Only a picture that was not asked for before is exported. -/
theorem exec_exportImage (o : Options) (name : String) (external : Bool) (w : World) :
    exec (exportImage o name external) w =
      if name ∈ w.session.asked then (.ok (), w)
      else exec (exportNew o name external)
        ⟨{ w.session with asked := w.session.asked ++ [name] }, w.files⟩ := by
  unfold exportImage
  rw [exec_bind, exec_get]
  by_cases hasked : name ∈ w.session.asked <;> simp [hasked, exec_bind]

/-! ### All pictures -/

section Loops

variable {R : World → World → Prop} [IsPreorder World R]

/-- What asking for a picture keeps is kept by exporting the pictures of a script. -/
theorem keeps_exportScript
    (himage : ∀ name external, Keeps R (exportImage (m := StateM FileTree) o name external))
    (maps : MapTable) (script : Script) :
    Keeps R (exportScript (m := StateM FileTree) o maps script) := by
  unfold exportScript
  refine keeps_bind ?_ fun _ => ?_
  · refine keeps_forIn (fun image _ _ => ?_) _
    exact keeps_bind (himage image _) fun _ => keeps_pure _
  · refine keeps_bind (keeps_forIn (fun image _ _ => ?_) _) fun _ => keeps_pure _
    exact keeps_bind (himage image _) fun _ => keeps_pure _

/-- So it is by exporting the pictures of all scripts and the end picture. -/
theorem keeps_exportPictures
    (himage : ∀ name external, Keeps R (exportImage (m := StateM FileTree) o name external))
    (maps : MapTable) (scripts : List Script) :
    Keeps R (exportPictures (m := StateM FileTree) o maps scripts) := by
  unfold exportPictures
  split
  · refine keeps_bind (keeps_forIn (fun script _ _ => ?_) _) fun _ => ?_
    · exact keeps_bind (keeps_exportScript himage maps script) fun _ => keeps_pure _
    refine keeps_bind ?_ fun _ => keeps_pure _
    cases maps.endPicture? with
    | none => exact keeps_pure _
    | some image =>
      rw [Option.forIn_some]
      refine keeps_bind ?_ fun step => ?_
      · exact keeps_bind (himage image _) fun _ => keeps_pure _
      · cases step <;> exact keeps_pure _
  · exact keeps_pure _

end Loops

end Converting

end Interlude
