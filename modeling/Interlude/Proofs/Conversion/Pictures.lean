import Mathlib
import Interlude.Proofs.Conversion.Continuing
import Interlude.Proofs.Interlevel.Drawings

/-!
# The pictures of the screens

The pictures to export are listed from the directives of the scripts and the records of the maps,
while a screen refers to pictures in the frames of its layers. Every picture of a screen is on the
list all the same, but for the one that shows nothing. A picture on the list is written or skipped
unless the conversion fails, and what was written or skipped once is reported.
-/

namespace Interlude

variable {image name : String} {maps : MapTable} {music : Option String} {script : Script}

/-! ### Pictures of a screen -/

namespace Interlevel

/-- The pictures of an animation. -/
def Anim.images (a : Anim) : List String :=
  a.frames.map Frame.image

/-- The pictures of a screen: its background and those of all its animations. -/
def Data.images (d : Data) : List String :=
  d.background.toList ++ (d.layers.getD []).flatMap fun layer => layer.anims.flatMap Anim.images

/-- The mark of a visited map shows its own picture or the splat. -/
theorem mem_images_splatAnim? {splat : Option String} {spot : Spot} {anim : Anim}
    (hanim : splatAnim? maps splat spot = some anim) (himage : image ∈ anim.images) :
    (maps.find? spot.map).bind (·.enterPic) = some image ∨ splat = some image := by
  rcases spotAnim?_eq_some_iff.mp hanim with ⟨pic, hpic, rfl⟩ | ⟨-, frames, hframes, rfl⟩
  · obtain rfl : image = pic := List.mem_singleton.mp himage
    exact Or.inl hpic
  · obtain ⟨patch, rfl, rfl⟩ := Option.map_eq_some_iff.mp hframes
    obtain rfl : image = patch := List.mem_singleton.mp himage
    exact Or.inr rfl

/-- The mark of the current map shows its own picture, or one of the pointers and nothing in turn. -/
theorem mem_images_pointerAnim? {pointers : Option (String × String)} {spot : Spot} {anim : Anim}
    (hanim : pointerAnim? maps pointers spot = some anim) (himage : image ∈ anim.images) :
    (maps.find? spot.map).bind (·.exitPic) = some image ∨
      (∃ p, pointers = some p ∧ (image = p.1 ∨ image = p.2)) ∨ image = Script.blankPatch := by
  rcases spotAnim?_eq_some_iff.mp hanim with ⟨pic, hpic, rfl⟩ | ⟨-, frames, hframes, rfl⟩
  · obtain rfl : image = pic := List.mem_singleton.mp himage
    exact Or.inl hpic
  · obtain ⟨p, rfl, rfl⟩ := Option.map_eq_some_iff.mp hframes
    rcases List.mem_cons.mp himage with hpointer | hblank
    · refine Or.inr (Or.inl ⟨p, rfl, ?_⟩)
      rw [hpointer, Frame.fixed]
      split
      · exact Or.inr rfl
      · exact Or.inl rfl
    · exact Or.inr (Or.inr (List.mem_singleton.mp hblank))

/-- A picture of the screen of a script is its background, a patch of a drawing, or shown by a mark at
a spot. -/
theorem mem_images_ofScript (himage : image ∈ (ofScript maps music script).images) :
    script.background = some image ∨ (∃ drawing ∈ script.drawings, image ∈ drawing.patches) ∨
      ∃ spot ∈ script.spots, ∃ anim, image ∈ anim.images ∧
        (splatAnim? maps script.splat spot = some anim ∨
          pointerAnim? maps script.pointers spot = some anim) := by
  rcases List.mem_append.mp himage with hback | hlayers
  · exact Or.inl (Option.mem_toList.mp hback)
  obtain ⟨layer, hlayer, hanims⟩ := List.mem_flatMap.mp hlayers
  obtain ⟨anim, hanim, hshown⟩ := List.mem_flatMap.mp hanims
  have hlayer : layer ∈ [drawingLayer maps script] ++ spotLayers maps script := by
    rw [layers_ofScript] at hlayer
    split at hlayer
    · exact absurd hlayer List.not_mem_nil
    · rw [Option.getD_some, layersOf, List.mem_append] at hlayer
      refine List.mem_append.mpr (hlayer.imp ?_ ?_)
      · exact fun h => by split at h <;> simp_all
      · exact fun h => by split at h <;> simp_all
  rcases List.mem_append.mp hlayer with hdrawings | hspots
  · obtain rfl := List.mem_singleton.mp hdrawings
    obtain ⟨drawing, hdrawing, rfl⟩ := List.mem_map.mp hanim
    rw [Anim.images, drawingAnim, map_image_patchFrames] at hshown
    exact Or.inr (Or.inl ⟨drawing, hdrawing, hshown⟩)
  · refine Or.inr (Or.inr ?_)
    rcases List.mem_cons.mp hspots with rfl | hspots
    · obtain ⟨spot, hspot, hsplat⟩ := List.mem_filterMap.mp hanim
      exact ⟨spot, hspot, anim, hshown, Or.inl hsplat⟩
    · obtain rfl := List.mem_singleton.mp hspots
      obtain ⟨spot, hspot, hpointer⟩ := List.mem_filterMap.mp hanim
      exact ⟨spot, hspot, anim, hshown, Or.inr hpointer⟩

end Interlevel

namespace Converting

open Interlevel (Anim splatAnim? pointerAnim?)

variable {o : Options} {external : Bool} {w v : World}

/-- The pictures that are listed for a script. -/
def listedImages (maps : MapTable) (script : Script) : List String :=
  script.images ++ spotImages maps script

/-- A script lists its background, its splat, its pointers and the patches of its drawings. -/
theorem mem_images_iff : image ∈ script.images ↔
    script.background = some image ∨ script.splat = some image ∨
      (∃ p, script.pointers = some p ∧ (image = p.1 ∨ image = p.2)) ∨
      ∃ drawing ∈ script.drawings, image ∈ drawing.patches := by
  simp [Script.images]

/-- The map of a spot lists the pictures that stand in for its marks. -/
theorem mem_spotImages_iff : image ∈ spotImages maps script ↔
    ∃ spot ∈ script.spots, (maps.find? spot.map).bind (·.enterPic) = some image ∨
      (maps.find? spot.map).bind (·.exitPic) = some image := by
  simp [spotImages, Option.bind_eq_some_iff, ← exists_or, ← and_or_left]

/-- Every picture of the screen of a script is listed, but for the one that shows nothing. -/
theorem mem_listedImages_of_mem_images
    (himage : image ∈ (Interlevel.ofScript maps music script).images)
    (hblank : image ≠ Script.blankPatch) : image ∈ listedImages maps script := by
  rw [listedImages, List.mem_append, mem_images_iff, mem_spotImages_iff]
  rcases Interlevel.mem_images_ofScript himage with
    hback | hdrawing | ⟨spot, hspot, anim, hshown, hsplat | hpointer⟩
  · exact Or.inl (Or.inl hback)
  · exact Or.inl (Or.inr (Or.inr (Or.inr hdrawing)))
  · rcases Interlevel.mem_images_splatAnim? hsplat hshown with henter | hsplat
    · exact Or.inr ⟨spot, hspot, Or.inl henter⟩
    · exact Or.inl (Or.inr (Or.inl hsplat))
  · rcases Interlevel.mem_images_pointerAnim? hpointer hshown with hexit | hpointer | heq
    · exact Or.inr ⟨spot, hspot, Or.inr hexit⟩
    · exact Or.inl (Or.inr (Or.inr (Or.inl hpointer)))
    · exact absurd heq hblank

/-! ### Exporting -/

/-- The pictures of which the session tells that they were written or skipped. -/
def told (w : World) : List String :=
  w.session.written ++ w.session.skipped

/-- Each picture that is asked for is written or skipped, and nothing is forgotten. -/
structure Accounts (w v : World) : Prop where
  asked_subset : w.session.asked ⊆ v.session.asked
  told_subset : told w ⊆ told v
  asked_told : ∀ image ∈ v.session.asked, image ∈ w.session.asked ∨ image ∈ told v

instance : IsPreorder World Accounts where
  refl _ := ⟨List.Subset.refl _, List.Subset.refl _, fun _ himage => Or.inl himage⟩
  trans _ _ _ h h' :=
    ⟨List.Subset.trans h.asked_subset h'.asked_subset, List.Subset.trans h.told_subset h'.told_subset,
      fun image himage => (h'.asked_told image himage).elim
        (fun hasked => (h.asked_told image hasked).imp_right (h'.told_subset ·)) Or.inr⟩

/-- Exporting a picture that was not asked for tells of it. -/
theorem of_export (h : Export o name w (.ok (), v)) :
    v.session.asked = w.session.asked ∧ told w ⊆ told v ∧ name ∈ told v := by
  cases h with
  | skipped reads =>
    obtain ⟨hasked, hwritten, hskipped, -⟩ := reads.quiet
    simp [told, hasked, hwritten, hskipped]
  | written reads =>
    obtain ⟨hasked, hwritten, hskipped, -⟩ := reads.quiet
    simp [told, hasked, hwritten, hskipped]

/-- Exporting a picture asks for it and accounts for it. -/
theorem of_exec_exportImage
    (h : exec (exportImage (m := StateM FileTree) o name external) w = (.ok (), v)) :
    Accounts w v ∧ name ∈ v.session.asked := by
  rw [exec_exportImage] at h
  split at h
  · rename_i hasked
    obtain ⟨-, rfl⟩ := Prod.mk.inj h
    exact ⟨refl_of Accounts w, hasked⟩
  · obtain ⟨hasked, htold, hname⟩ := of_export (h ▸ export_exportNew o name external _)
    dsimp only at hasked
    refine ⟨⟨?_, htold, ?_⟩, ?_⟩
    · rw [hasked]
      exact List.subset_append_left _ _
    · intro image himage
      rw [hasked, List.mem_append, List.mem_singleton] at himage
      rcases himage with hbefore | rfl
      · exact Or.inl hbefore
      · exact Or.inr hname
    · rw [hasked]
      exact List.mem_append_right _ (List.mem_singleton.mpr rfl)

/-- Exporting a picture accounts for it. -/
theorem meets_accounts_exportImage (o : Options) (name : String) (external : Bool) :
    Meets Accounts (exportImage (m := StateM FileTree) o name external) :=
  fun _ _ _ h => (of_exec_exportImage h).1

/-- A loop over pictures asks for all of them. -/
theorem of_exec_exportImages {images : List String} {external : String → Bool}
    (h : exec (forIn images PUnit.unit fun image _ => do
      exportImage (m := StateM FileTree) o image (external image)
      pure (.yield PUnit.unit)) w = (.ok (), v)) :
    Accounts w v ∧ ∀ image ∈ images, image ∈ v.session.asked := by
  have hmeets : ∀ image ∈ images, Meets Accounts
      (exportImage (m := StateM FileTree) o image (external image)) :=
    fun image _ => meets_accounts_exportImage o image _
  refine ⟨?_, ?_⟩
  · exact meets_forIn (fun image himage _ => meets_bind (hmeets image himage)
      fun _ => (keeps_pure _).meets) _ _ _ _ h
  · intro image himage
    obtain ⟨w₁, v₁, hexec, _, hafter⟩ := exists_exec_of_forIn hmeets h image himage
    exact hafter.asked_subset (of_exec_exportImage hexec).2

/-- Exporting the pictures of a script asks for all that are listed. -/
theorem of_exec_exportScript
    (h : exec (exportScript (m := StateM FileTree) o maps script) w = (.ok (), v)) :
    Accounts w v ∧ ∀ image ∈ listedImages maps script, image ∈ v.session.asked := by
  obtain ⟨_, u, hown, h⟩ := exists_exec_of_bind h
  obtain ⟨_, u', hspots, h⟩ := exists_exec_of_bind h
  obtain rfl := (Prod.mk.inj h).2
  obtain ⟨hfirst, hown⟩ := of_exec_exportImages hown
  obtain ⟨hsecond, hspots⟩ := of_exec_exportImages hspots
  refine ⟨trans_of Accounts hfirst hsecond, ?_⟩
  intro image himage
  rcases List.mem_append.mp himage with himage | himage
  · exact hsecond.asked_subset (hown image himage)
  · exact hspots image himage

/-- Exporting the pictures asks for all that are listed for the scripts and for the end picture. -/
theorem of_exec_exportPictures {scripts : List Script} (hgraphics : o.saveGraphics = true)
    (h : exec (exportPictures (m := StateM FileTree) o maps scripts) w = (.ok (), v)) :
    Accounts w v ∧
      (∀ script ∈ scripts, ∀ image ∈ listedImages maps script, image ∈ v.session.asked) ∧
      ∀ image, maps.endPicture? = some image → image ∈ v.session.asked := by
  rw [exportPictures, if_pos hgraphics] at h
  obtain ⟨_, u, hloop, h⟩ := exists_exec_of_bind h
  have hmeets : ∀ script ∈ scripts, Meets Accounts
      (exportScript (m := StateM FileTree) o maps script) :=
    fun script _ _ _ _ hexec => (of_exec_exportScript hexec).1
  have hscripts : Accounts w u := meets_forIn
    (fun script hscript _ => meets_bind (hmeets script hscript) fun _ => (keeps_pure _).meets)
    _ _ _ _ hloop
  obtain ⟨_, u', hpicture, h⟩ := exists_exec_of_bind h
  rw [exec_pure] at h
  obtain ⟨-, rfl⟩ := Prod.mk.inj h
  rw [← Option.forIn_toList] at hpicture
  obtain ⟨hend, hpicture⟩ := of_exec_exportImages hpicture
  refine ⟨trans_of Accounts hscripts hend, ?_, fun image h => hpicture image (Option.mem_toList.mpr h)⟩
  intro script hscript image himage
  obtain ⟨w₁, v₁, hexec, _, hafter⟩ := exists_exec_of_forIn hmeets hloop script hscript
  exact hend.asked_subset (hafter.asked_subset ((of_exec_exportScript hexec).2 image himage))

/-- Where pictures are to be written and none was asked for before, those that are listed for the
scripts and the end picture are reported at the end. -/
theorem of_exec_finish {scripts : List Script} {report : Report} (hgraphics : o.saveGraphics = true)
    (hasked : w.session.asked = []) (h : exec (finish o maps scripts) w = (.ok report, v)) :
    report.scripts = scripts.map Script.name ∧
      (∀ script ∈ scripts, ∀ image ∈ listedImages maps script,
        image ∈ report.images ∨ image ∈ report.skipped) ∧
      ∀ image, maps.endPicture? = some image → image ∈ report.images ∨ image ∈ report.skipped := by
  obtain ⟨hpictures, rfl⟩ := exec_exportPictures_of_finish h
  obtain ⟨haccounts, hscripts, hend⟩ := of_exec_exportPictures hgraphics hpictures
  have htold : ∀ image ∈ v.session.asked,
      image ∈ v.session.written ∨ image ∈ v.session.skipped := by
    intro image himage
    rcases haccounts.asked_told image himage with hbefore | htold
    · rw [hasked] at hbefore
      exact absurd hbefore List.not_mem_nil
    · exact List.mem_append.mp htold
  exact ⟨rfl, fun script hscript image himage => htold image (hscripts script hscript image himage),
    fun image himage => htold image (hend image himage)⟩

/-- The table of the maps and the scripts that a conversion reads. -/
def gathered (o : Options) (t : FileTree) : Except ConversionError (MapTable × List Script) :=
  (exec (do
    let maps ← prepare o
    return (maps, ← maps.scripts.mapM (readScript o))) ⟨.start, t⟩).1

/-- They are read after the folders were made. -/
theorem gathered_eq (o : Options) (t : FileTree) :
    gathered o t = (exec (openFolders o >>= fun _ => gather o) ⟨.start, t⟩).1 := by
  rw [gathered, prepare_eq, bind_assoc]
  rfl

end Converting

open Converting

/-- Every picture on the screen of a script that a conversion has read, but for the one that shows
nothing, is reported as written or skipped where pictures are to be written, and so is the end
picture of the table. -/
theorem convert_reports_pictures (o : Options) (now : String) (t : FileTree) (report : Report)
    (hgraphics : o.saveGraphics = true)
    (hran : ((convert o now : StateM FileTree _).run t).1.1 = .ok report) :
    ∃ maps scripts, gathered o t = .ok (maps, scripts) ∧
      report.scripts = scripts.map Script.name ∧
      (∀ script ∈ scripts, ∀ image ∈ (Interlevel.ofScript maps o.music script).images,
        image ≠ Script.blankPatch → image ∈ report.images ∨ image ∈ report.skipped) ∧
      ∀ image, maps.endPicture? = some image →
        image ∈ report.images ∨ image ∈ report.skipped := by
  have hexec : exec (run o now) ⟨.start, t⟩ =
      (.ok report, (exec (run o now) ⟨.start, t⟩).2) := Prod.ext hran rfl
  obtain ⟨maps, scripts, w₁, w₂, w₃, hfolders, hgather, htexts, hfinish⟩ := exists_exec_of_run hexec
  have hgathered : gathered o t = .ok (maps, scripts) := by
    rw [gathered_eq, exec_bind, hfolders]
    exact congrArg Prod.fst hgather
  have hasked : w₃.session.asked = [] := by
    have hsession := session_exec_openFolders o ⟨.start, t⟩
    rw [hfolders] at hsession
    rw [((keeps_continues_saveTexts o now maps scripts).of_exec htexts).quiet.asked_eq,
      ((keeps_continues_gather o).of_exec hgather).quiet.asked_eq, hsession]
    rfl
  obtain ⟨hnames, hlisted, hend⟩ := of_exec_finish hgraphics hasked hfinish
  refine ⟨maps, scripts, hgathered, hnames, ?_, hend⟩
  intro script hscript image himage hblank
  exact hlisted script hscript image (mem_listedImages_of_mem_images himage hblank)

/-- Of a background, a splat and an end picture the one that the archive has is written, and the other
two are skipped. -/
theorem convert_reports_pictures_one_written :
    let wad : ByteArray := "PWAD".toUTF8 ++ ⟨#[1, 0, 0, 0, 20, 0, 0, 0]⟩ ++ Png.signature.toByteArray ++
      ⟨#[12, 0, 0, 0, 8, 0, 0, 0]⟩ ++ "SKY\x00\x00\x00\x00\x00".toUTF8
    let o : Options := { Options.standard "mod.wad" "out" with cache := true }
    let t : FileTree :=
      { files := [(["home", "mod.wad"], wad),
          (["home", "out", "_tmp", "MAPINFO"],
            "map MAP01 \x7b\nexitpic = \"$INTER\"\nnext = endpic, \"END\"\n\x7d".toUTF8),
          (["home", "out", "_tmp", "INTER"],
            "BACKGROUND SKY\nSPLAT DOT\nSPOTS\n\x7b\nMAP01 1 2\n\x7d".toUTF8)]
        folders := [["home"], ["home", "out"], ["home", "out", "_tmp"]]
        here := ["home"] }
    let report : Report := ⟨1, ["INTER"], ["SKY"], ["DOT", "END"]⟩
    o.saveGraphics = true ∧ ((convert o "" : StateM FileTree _).run t).1.1 = .ok report ∧
      ∃ maps scripts, gathered o t = .ok (maps, scripts) ∧
        report.scripts = scripts.map Script.name ∧
        (∀ script ∈ scripts, ∀ image ∈ (Interlevel.ofScript maps o.music script).images,
          image ≠ Script.blankPatch → image ∈ report.images ∨ image ∈ report.skipped) ∧
        ∀ image, maps.endPicture? = some image →
          image ∈ report.images ∨ image ∈ report.skipped := by
  intro wad o t report
  have hran : ((convert o "" : StateM FileTree _).run t).1.1 = .ok report := by decide +kernel
  exact ⟨rfl, hran, convert_reports_pictures o "" t report rfl hran⟩

end Interlude
