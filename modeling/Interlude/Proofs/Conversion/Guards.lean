import Mathlib
import Interlude.Conversion.Basic
import Interlude.Proofs.Conversion.CacheFiles
import Interlude.Proofs.Conversion.Reading
import Interlude.Proofs.Conversion.Steps

/-!
# What a conversion guards

A part of a conversion guards a property of worlds if it keeps the property and, where it holds, ends
with nothing but results and errors of some kind. One part after the other guards what both guard. From
the table of the maps on, a conversion only reads the archive, fetches text lumps, makes files of
pictures, writes files in its folder and keeps notes in its session, so that it guards what these guard.
-/

namespace Interlude

namespace Converting

variable {α β : Type} {I : World → Prop} {E : ConversionError → Prop} {P : α → Prop} {Q : β → Prop}

/-- A part of a conversion keeps a property of worlds and, where it holds, gives a result with a property
or an error with one. -/
def Guards (I : World → Prop) (E : ConversionError → Prop) (P : α → Prop)
    (x : Converting (StateM FileTree) α) : Prop :=
  ∀ w, I w → I (exec x w).2 ∧
    match (exec x w).1 with
    | .ok a => P a
    | .error e => E e

/-! ### Parts -/

/-- Giving a value with the property. -/
theorem guards_pure {a : α} (ha : P a) : Guards I E P (pure a) :=
  fun _ hw => ⟨hw, ha⟩

/-- Failing with such an error. -/
theorem guards_throw {e : ConversionError} (he : E e) : Guards I E P (throw e) :=
  fun _ hw => ⟨hw, he⟩

/-- Looking at the session. -/
theorem guards_get : Guards I E (fun _ => True) (get : Converting (StateM FileTree) Session) :=
  fun _ hw => ⟨hw, trivial⟩

/-- Changing the session where the property stays. -/
theorem guards_modify {f : Session → Session} (hf : ∀ w, I w → I ⟨f w.session, w.files⟩) :
    Guards I E (fun _ => True) (modify f : Converting (StateM FileTree) Unit) :=
  fun w hw => ⟨hf w hw, trivial⟩

/-- Asking the files without changing them. -/
theorem guards_lift {operation : StateM FileTree α} (h : ∀ t, (operation.run t).2 = t) :
    Guards I E (fun _ => True) (liftM operation) := by
  intro w hw
  rw [exec_lift, h]
  exact ⟨hw, trivial⟩

/-- One part after the other, of which the second one may rely on the property of the result of the
first one. -/
theorem guards_bind {x : Converting (StateM FileTree) α} {f : α → Converting (StateM FileTree) β}
    (hx : Guards I E P x) (hf : ∀ a, P a → Guards I E Q (f a)) : Guards I E Q (x >>= f) := by
  intro w hw
  obtain ⟨hkept, hresult⟩ := hx w hw
  rw [exec_bind]
  rcases hexec : exec x w with ⟨e | a, v⟩
  · rw [hexec] at hkept hresult
    exact ⟨hkept, hresult⟩
  · rw [hexec] at hkept hresult
    exact hf a hresult v hkept

/-- A loop over parts. -/
theorem guards_forIn {items : List α} {f : α → Converting (StateM FileTree) Unit}
    (hf : ∀ a, Guards I E (fun _ => True) (f a)) :
    Guards I E (fun _ => True)
      (forIn items PUnit.unit fun a _ => do f a; pure (.yield PUnit.unit)) := by
  induction items with
  | nil => exact guards_pure trivial
  | cons a items ih =>
    rw [forIn_cons_yield]
    exact guards_bind (hf a) fun _ _ => ih

/-- Parts for items, one after the other. -/
theorem guards_mapM {items : List α} {f : α → Converting (StateM FileTree) β}
    (hf : ∀ a, Guards I E (fun _ => True) (f a)) : Guards I E (fun _ => True) (items.mapM f) := by
  induction items with
  | nil => exact guards_pure trivial
  | cons a items ih =>
    rw [List.mapM_cons]
    refine guards_bind (hf a) fun b _ => ?_
    exact guards_bind ih fun bs _ => guards_pure trivial

/-! ### Files in the output folder -/

/-- How the names of the files end that a conversion writes to its folder. -/
def outputEndings : List String :=
  ".png" :: textEndings

/-- A name that ends in one of these ways. -/
def IsOutputFile (file : String) : Prop :=
  ∃ base, ∃ ending ∈ outputEndings, file = base ++ ending

/-- A text is such a file. -/
theorem IsTextFile.isOutputFile {file : String} (h : IsTextFile file) : IsOutputFile file := by
  obtain ⟨base, ending, hending, rfl⟩ := h
  exact ⟨base, ending, List.mem_cons_of_mem _ hending, rfl⟩

/-- A picture is such a file. -/
theorem isOutputFile_png (name : String) : IsOutputFile (name ++ ".png") :=
  ⟨name, ".png", List.mem_cons_self, rfl⟩

/-! ### A conversion -/

/-- What a conversion has to guard in a few parts, of which some rely on a property of the archive. -/
structure GuardsParts (o : Options) (I : World → Prop) (E : ConversionError → Prop)
    (S : SortedArchive → Prop) : Prop where
  /-- The session changes but for the archive. -/
  session : ∀ {w : World} {s : Session}, s.sorted = w.session.sorted → I w → I ⟨s, w.files⟩
  lumps : Guards I E S (lumps o)
  textLump : ∀ name, Guards I E (fun _ => True) (textLump o name)
  imageFile : ∀ {sorted : SortedArchive}, S sorted → ∀ name key, Guards I E (fun _ => True)
    ((sorted.table.content? key).elim (pure none) (imageFile sorted name))
  writeFile : ∀ {file : String}, IsOutputFile file → ∀ bytes, Guards I E (fun _ => True)
    (onPath (o.target file) (FileStore.writeFile (o.target file) bytes))

namespace GuardsParts

variable {o : Options} {S : SortedArchive → Prop} (h : GuardsParts o I E S)
include h

/-- Notes in the session are guarded. -/
theorem modify {f : Session → Session} (hf : ∀ s, (f s).sorted = s.sorted) :
    Guards I E (fun _ => True) (modify f : Converting (StateM FileTree) Unit) :=
  guards_modify fun w => h.session (hf w.session)

/-- Warnings are guarded. -/
theorem warn (warnings : List ConversionWarning) :
    Guards I E (fun _ => True) (warn warnings : Converting (StateM FileTree) Unit) :=
  h.modify fun _ => rfl

/-- Making something of a text lump is guarded. -/
theorem readText (name : String) (made : Option String → α × List ConversionWarning) :
    Guards I E (fun _ => True) (readText o name made) := by
  refine guards_bind (h.textLump name) fun found _ => ?_
  exact guards_bind (h.warn _) fun _ _ => guards_pure trivial

/-- Reading a script is guarded. -/
theorem readScript (name : String) :
    Guards I E (fun _ => True) (readScript (m := StateM FileTree) o name) :=
  readScript_eq o name ▸ h.readText name (madeScript name)

/-- Writing a text is guarded. -/
theorem writeText {file : String} (hfile : IsTextFile file) (text : String) :
    Guards I E (fun _ => True) (writeText (m := StateM FileTree) o file text) :=
  h.writeFile hfile.isOutputFile _

/-- Writing the document of a script is guarded. -/
theorem writeDocument (maps : MapTable) (metadata : Interlevel.Metadata) (script : Script) :
    Guards I E (fun _ => True) (writeDocument (m := StateM FileTree) o maps metadata script) :=
  guards_bind (h.warn _) fun _ _ => h.writeText (isTextFile_json script.name) _

/-- Exporting a picture that was not asked for before is guarded. -/
theorem exportNew (name : String) (external : Bool) :
    Guards I E (fun _ => True) (exportNew (m := StateM FileTree) o name external) := by
  have hskip : Guards I E (fun _ => True) (skip name : Converting (StateM FileTree) Unit) :=
    h.modify fun _ => rfl
  refine guards_bind (guards_lift fun _ => rfl) fun there _ => ?_
  split
  · exact hskip
  · refine guards_bind h.lumps fun sorted hsorted => ?_
    refine guards_bind (h.imageFile hsorted name _) fun file _ => ?_
    cases file with
    | some bytes =>
      exact guards_bind (h.writeFile (isOutputFile_png name) bytes) fun _ _ => h.modify fun _ => rfl
    | none =>
      dsimp only
      split
      · exact guards_bind (h.warn _) fun _ _ => hskip
      · exact hskip

/-- Asking for a picture is guarded. -/
theorem exportImage (name : String) (external : Bool) :
    Guards I E (fun _ => True) (exportImage (m := StateM FileTree) o name external) := by
  refine guards_bind guards_get fun s _ => ?_
  split
  · exact guards_bind (h.modify fun _ => rfl) fun _ _ => h.exportNew name external
  · exact guards_pure trivial

/-- Exporting the pictures of a script is guarded. -/
theorem exportScript (maps : MapTable) (script : Script) :
    Guards I E (fun _ => True) (exportScript (m := StateM FileTree) o maps script) := by
  refine guards_bind (guards_forIn fun image => h.exportImage image _) fun _ _ => ?_
  exact guards_bind (guards_forIn fun image => h.exportImage image false) fun _ _ =>
    guards_pure trivial

/-- Exporting the pictures of scripts and the end picture is guarded. -/
theorem exportPictures (maps : MapTable) (scripts : List Script) :
    Guards I E (fun _ => True) (exportPictures (m := StateM FileTree) o maps scripts) := by
  unfold Converting.exportPictures
  split
  · refine guards_bind (guards_forIn (h.exportScript maps)) fun _ _ => ?_
    refine guards_bind (P := fun _ => True) ?_ fun _ _ => guards_pure trivial
    cases maps.endPicture? with
    | none => exact guards_pure trivial
    | some image =>
      refine guards_bind (P := fun _ => True) ?_ fun step _ => ?_
      · exact guards_bind (h.exportImage image false) fun _ _ => guards_pure trivial
      · cases step <;> exact guards_pure trivial
  · exact guards_pure trivial

/-- All that a conversion does once it has the table of the maps is guarded. -/
theorem produce (now : String) (maps : MapTable) :
    Guards I E (fun _ => True) (produce (m := StateM FileTree) o now maps) := by
  refine guards_bind (guards_mapM h.readScript) fun scripts _ => ?_
  refine guards_bind (h.writeText isTextFile_mapFile _) fun _ _ => ?_
  refine guards_bind (h.writeText isTextFile_creditsFile _) fun _ _ => ?_
  refine guards_bind (guards_forIn fun script => h.writeDocument maps _ script) fun _ _ => ?_
  refine guards_bind (h.exportPictures maps scripts) fun _ _ => ?_
  exact guards_bind guards_get fun _ _ => guards_pure trivial

end GuardsParts

end Converting

end Interlude
