import Mathlib
import Interlude.Proofs.Interlevel.ReadBack
import Interlude.Proofs.Json.Compact
import Interlude.Proofs.Json.Lines

/-!
# The lines of a document

How a document is laid out is told by its shape: by the layers, by the animations of each and by the numbers of their
frames. Texts and numbers take no part in it. A frame has one line and so has a list of conditions, and without blanks
the document is what it is on one line.
-/

namespace Interlude

namespace JsonValue

/-! ### Names before values -/

/-- A name with the mark behind it. -/
def nameLead (name : String) : List Char :=
  quote name ++ [':', ' ']

/-- A text begins with a name only if that is the name in it. -/
@[simp] theorem isPrefixOf_nameLead (name name' : String) (s : List Char) :
    (nameLead name).isPrefixOf (nameLead name' ++ s) = decide (name = name') := by
  rw [Bool.eq_iff_iff, List.isPrefixOf_iff_prefix, decide_eq_true_eq]
  constructor
  · rintro ⟨t, htext⟩
    have hread (name : String) (rest : List Char) :
        JsonText.string? ((nameLead name ++ rest).drop 1) = some (name.toList, ':' :: ' ' :: rest) := by
      rw [nameLead, quote, ← JsonText.string?_quoted]
      simp
    have hnames := hread name t
    rw [htext, hread name' s, Option.some.injEq, Prod.mk.injEq] at hnames
    exact (String.toList_inj.mp hnames.1).symm
  · rintro rfl
    exact List.prefix_append _ _

/-- No line without a name begins with one. -/
@[simp] theorem isPrefixOf_nameLead_cons {c : Char} (h : c ≠ '"') (name : String) (s : List Char) :
    (nameLead name).isPrefixOf (c :: s) = false := by
  simp [nameLead, quote, List.isPrefixOf, Ne.symm h]

/-! ### Arrays -/

namespace Layout

variable {α : Type} {lead : List Char}

/-- An array has a line for each bracket and the lines of its items between them, unless it is empty. -/
theorem lines_array (lead : List Char) (as : List α) (layout : α → Layout) :
    (array (as.map layout)).lines lead =
      if as = [] then [lead ++ ['[', ']']]
      else (lead ++ ['[']) :: (as.flatMap (fun a => (layout a).lines []) ++ [[']']]) := by
  cases as with
  | nil => rfl
  | cons a as =>
    rw [if_neg (List.cons_ne_nil _ _), List.map_cons, lines, itemLines_eq_flatMap, List.flatMap_map,
      List.flatMap_cons]

/-- Lines that are found in an array are found in its items, if its brackets are not such lines. -/
theorem filter_lines_array {found : List Char → Bool} (hopen : found (lead ++ ['[']) = false)
    (hclose : found [']'] = false) (hempty : found (lead ++ ['[', ']']) = false) (as : List α)
    (layout : α → Layout) :
    ((array (as.map layout)).lines lead).filter found = as.flatMap fun a => ((layout a).lines []).filter found := by
  rw [lines_array]
  split
  · rename_i has
    simp [has, hempty]
  · simp [hopen, hclose, List.filter_flatMap]

/-- The number of lines of an array by those of its items. -/
def arrayHeight (heights : List Nat) : Nat :=
  if heights = [] then 1 else heights.sum + 2

theorem length_lines_array (lead : List Char) (as : List α) (layout : α → Layout) :
    ((array (as.map layout)).lines lead).length = arrayHeight (as.map fun a => ((layout a).lines []).length) := by
  rw [lines_array, arrayHeight]
  split
  · rename_i has
    simp [has]
  · rename_i has
    simp [has, List.length_flatMap]

end Layout

end JsonValue

namespace Interlevel

open JsonValue (line nameLead Layout)
open JsonValue.Layout (arrayHeight)

/-! ### The parts of a document -/

/-- The frames of a screen in the order of the document. -/
def Data.frames (d : Data) : List Frame :=
  (d.layers.getD []).flatMap fun l => l.anims.flatMap (·.frames)

/-- The conditions in a layer: those of its animations, then its own. -/
def Layer.conditionLists (l : Layer) : List (Option (List Condition)) :=
  l.anims.map (·.conditions) ++ [l.conditions]

/-- The conditions of a screen in the order of the document. -/
def Data.conditionLists (d : Data) : List (Option (List Condition)) :=
  (d.layers.getD []).flatMap Layer.conditionLists

/-- The numbers of frames of the animations in the layers. -/
def Data.shape (d : Data) : List (List Nat) :=
  (d.layers.getD []).map fun l => l.anims.map fun a => a.frames.length

/-- The beginning of a frame on its line. -/
def frameLead : List Char :=
  '{' :: nameLead "image"

/-- No line with a name begins a frame. -/
@[simp] theorem isPrefixOf_frameLead (name : String) (s : List Char) :
    frameLead.isPrefixOf (nameLead name ++ s) = false := rfl

/-- The line of a frame begins one. -/
@[simp] theorem isPrefixOf_frameLead_json (f : Frame) : frameLead.isPrefixOf (line .spaced f.json) = true := by
  rw [List.isPrefixOf_iff_prefix]
  exact ⟨_, by simp [frameLead, nameLead, Frame.json, line, JsonValue.Marks.spaced]; rfl⟩

/-- The line of a list of conditions. -/
def conditionsLine (conditions : Option (List Condition)) : List Char :=
  nameLead "conditions" ++ line .spaced (conditionsJson conditions)

/-- The lines of an animation. -/
theorem Anim.lines_layout (a : Anim) : a.layout.lines [] =
    [['{'], nameLead "x" ++ line .spaced (.ofInt a.x), nameLead "y" ++ line .spaced (.ofInt a.y)] ++
      (Layout.array (a.frames.map fun f => .inline f.json)).lines (nameLead "frames") ++
      [conditionsLine a.conditions, ['}']] := by
  simp [Anim.layout, Layout.lines, Layout.fieldLines, nameLead, conditionsLine, conditionsLayout, conditionsJson]

/-- The lines of a layer. -/
theorem Layer.lines_layout (l : Layer) : l.layout.lines [] =
    ['{'] :: (Layout.array (l.anims.map Anim.layout)).lines (nameLead "anims") ++
      [conditionsLine l.conditions, ['}']] := by
  simp [Layer.layout, Layout.lines, Layout.fieldLines, nameLead, conditionsLine, conditionsLayout, conditionsJson]

/-- The lines of the words about the making. -/
theorem Metadata.lines_layout (m : Metadata) (lead : List Char) : m.layout.lines lead =
    [lead ++ ['{'], nameLead "author" ++ line .spaced (.string m.author),
      nameLead "application" ++ line .spaced (.string m.application),
      nameLead "timestamp" ++ line .spaced (.string m.timestamp),
      nameLead "comment" ++ line .spaced (.string m.comment), ['}']] := by
  simp [Metadata.layout, Layout.lines, Layout.fieldLines, nameLead]

/-- The lines of a document. -/
theorem lines_documentLayout (d : Data) (m : Metadata) : (documentLayout d m).lines [] =
    [['{'], nameLead "type" ++ line .spaced (.string documentType),
      nameLead "version" ++ line .spaced (.string documentVersion)] ++
      m.layout.lines (nameLead "metadata") ++
      [nameLead "data" ++ ['{'], nameLead "music" ++ line .spaced (.ofOption .string d.music),
        nameLead "backgroundimage" ++ line .spaced (.ofOption .string d.background)] ++
      (layersLayout d.layers).lines (nameLead "layers") ++ [['}'], ['}']] := by
  simp [documentLayout, Layout.lines, Layout.fieldLines, nameLead]

/-! ### Lines of frames and of conditions -/

/-- The lines of an animation that begin frames are those of its frames. -/
theorem Anim.filter_frameLead (a : Anim) :
    (a.layout.lines []).filter frameLead.isPrefixOf = a.frames.map fun f => line .spaced f.json := by
  have hinline (f : Frame) : ((Layout.inline f.json).lines []).filter frameLead.isPrefixOf = [line .spaced f.json] := by
    simp [Layout.lines]
  rw [Anim.lines_layout, List.filter_append, List.filter_append, Layout.filter_lines_array rfl rfl rfl]
  simp only [hinline, ← List.map_eq_flatMap]
  exact List.append_nil _

/-- The lines of a layer that begin frames are those of the frames of its animations. -/
theorem Layer.filter_frameLead (l : Layer) :
    (l.layout.lines []).filter frameLead.isPrefixOf =
      (l.anims.flatMap (·.frames)).map fun f => line .spaced f.json := by
  rw [Layer.lines_layout, List.filter_append, List.filter_cons_of_neg (by decide),
    Layout.filter_lines_array rfl rfl rfl, List.map_flatMap]
  simp only [Anim.filter_frameLead]
  exact List.append_nil _

/-- The line of an animation that begins with the name of conditions is that of its conditions. -/
theorem Anim.filter_conditions (a : Anim) :
    (a.layout.lines []).filter (nameLead "conditions").isPrefixOf = [conditionsLine a.conditions] := by
  have hframe (f : Frame) : ((Layout.inline f.json).lines []).filter (nameLead "conditions").isPrefixOf = [] := by
    simp [Layout.lines, Frame.json, line]
  rw [Anim.lines_layout, List.filter_append, List.filter_append, Layout.filter_lines_array (by simp) (by simp) (by simp)]
  simp [hframe, conditionsLine]

/-- The lines of a layer that begin with the name of conditions are those of the conditions in it. -/
theorem Layer.filter_conditions (l : Layer) :
    (l.layout.lines []).filter (nameLead "conditions").isPrefixOf = l.conditionLists.map conditionsLine := by
  rw [Layer.lines_layout, List.filter_append, List.filter_cons_of_neg (by simp),
    Layout.filter_lines_array (by simp) (by simp) (by simp), conditionLists, List.map_append]
  simp only [Anim.filter_conditions, ← List.map_eq_flatMap, List.map_map]
  congr 1

/-- What is neither a bracket nor behind one of these names is not found in a document but in its layers. -/
theorem filter_lines_documentLayout {found : List Char → Bool}
    (hmarks : found ['{'] = false ∧ found ['}'] = false ∧ found [']'] = false)
    (hnames : ∀ name ∈ ["type", "version", "metadata", "author", "application", "timestamp", "comment", "data", "music",
      "backgroundimage", "layers"], ∀ s, found (nameLead name ++ s) = false) (d : Data) (m : Metadata) :
    ((documentLayout d m).lines []).filter found =
      (d.layers.getD []).flatMap fun l => (l.layout.lines []).filter found := by
  obtain ⟨hopen, hclose, hend⟩ := hmarks
  have hlayers : ((layersLayout d.layers).lines (nameLead "layers")).filter found =
      (d.layers.getD []).flatMap fun l => (l.layout.lines []).filter found := by
    cases d.layers with
    | none => simp [layersLayout, Layout.lines, hnames]
    | some layers => exact Layout.filter_lines_array (hnames _ (by simp) _) hend (hnames _ (by simp) _) _ _
  simp only [lines_documentLayout, Metadata.lines_layout, List.filter_append, hlayers]
  simp [hnames, hopen, hclose]

/-! ### Numbers of lines -/

/-- The number of lines of a document by its shape. -/
def documentHeight (shape : List (List Nat)) : Nat :=
  arrayHeight (shape.map fun anims =>
    arrayHeight (anims.map fun frames => arrayHeight (List.replicate frames 1) + 5) + 3) + 14

theorem Anim.length_lines (a : Anim) :
    (a.layout.lines []).length = arrayHeight (List.replicate a.frames.length 1) + 5 := by
  simp [Anim.lines_layout, Layout.length_lines_array, Layout.lines]

theorem Layer.length_lines (l : Layer) : (l.layout.lines []).length =
    arrayHeight (l.anims.map fun a => arrayHeight (List.replicate a.frames.length 1) + 5) + 3 := by
  simp [Layer.lines_layout, Layout.length_lines_array, Anim.length_lines]

theorem length_lines_documentLayout (d : Data) (m : Metadata) :
    ((documentLayout d m).lines []).length = documentHeight d.shape := by
  have hlayers : ((layersLayout d.layers).lines (nameLead "layers")).length = arrayHeight (d.shape.map fun anims =>
      arrayHeight (anims.map fun frames => arrayHeight (List.replicate frames 1) + 5) + 3) := by
    unfold Data.shape
    cases d.layers with
    | none => rfl
    | some layers => simp [layersLayout, Layout.length_lines_array, Layer.length_lines, Function.comp_def]
  simp [lines_documentLayout, Metadata.lines_layout, hlayers, documentHeight]

/-- How a document is laid out does not depend on what is in it. Each frame has one line, in the order of the frames,
and so has each list of conditions; there are as many lines as the shape of the screen tells; and without the blanks
outside strings the text is the tight one of the value that is read from it. -/
theorem render_laidOut_by_shape (d : Data) (m : Metadata) :
    let lines := Text.lines (render d m).toList
    (lines.map JsonValue.content).filter frameLead.isPrefixOf = d.frames.map (fun f => line .spaced f.json) ∧
      (lines.map JsonValue.content).filter (nameLead "conditions").isPrefixOf =
        d.conditionLists.map conditionsLine ∧
      lines.length = documentHeight d.shape ∧
      JsonValue.ofText? (render d m) = some (documentLayout d m).value ∧
      JsonText.compact (render d m).toList = line .tight (documentLayout d m).value := by
  intro lines
  have hvalid := isValid_documentLayout d m
  have htext : (render d m).toList = (documentLayout d m).render 0 := String.toList_ofList
  have hcontents : lines.map JsonValue.content = (documentLayout d m).lines [] := by
    rw [← Layout.map_content_lines hvalid, ← htext]
  refine ⟨?_, ?_, ?_, Layout.ofText?_render hvalid, ?_⟩
  · rw [hcontents, filter_lines_documentLayout ⟨rfl, rfl, rfl⟩ fun name _ s => isPrefixOf_frameLead name s,
      Data.frames, List.map_flatMap]
    simp only [Layer.filter_frameLead]
  · rw [hcontents, filter_lines_documentLayout (by simp) (by simp), Data.conditionLists, List.map_flatMap]
    simp only [Layer.filter_conditions]
  · rw [← length_lines_documentLayout d m, ← hcontents, List.length_map]
  · rw [htext]
    exact Layout.compact_render hvalid 0

/-- A screen without layers, and one with an animation of two frames and one of a single frame. -/
example : documentHeight [] = 15 ∧ documentHeight [[2, 1]] = 38 := by decide

end Interlevel

end Interlude
