import Mathlib
import Interlude.Interlevel.Document
import Interlude.Proofs.Json.Numbers
import Interlude.Proofs.Json.ReadBack

/-!
# Reading a document back

A document is read strictly: every object has exactly its fields, in their order, and every value is
of its kind. What is read from the text of a screen is the screen with the words about its making,
provided that the durations of its frames are finite; a duration that is not would be written as
null. The numbers of kinds, the signs of numbers, what is absent and what is empty are all told
apart.
-/

namespace Interlude

namespace JsonValue

/-! ### Values of a kind -/

/-- A string. -/
def string? : JsonValue → Option String
  | .string s => some s
  | _ => none

/-- A whole number. -/
def int? : JsonValue → Option Int
  | .number text => Decimal.exponent? text
  | _ => none

/-- A whole number that is not negative. -/
def nat? (v : JsonValue) : Option Nat :=
  v.int?.bind Int.toNat?

/-- A floating point number. -/
def binary64? : JsonValue → Option Binary64
  | .number text => Binary64.ofText? text
  | _ => none

/-- A value that is null if it is absent. -/
def orNull? (read : JsonValue → Option α) : JsonValue → Option (Option α)
  | .null => some none
  | v => (read v).map some

/-- A list of values of a kind. -/
def list? (read : JsonValue → Option α) : JsonValue → Option (List α)
  | .array items => items.mapM read
  | _ => none

/-- The values of an object that has the fields of the given names in their order and no others. -/
def fields? (names : List String) : JsonValue → Option (List JsonValue)
  | .object fields => if fields.map Prod.fst = names then some (fields.map Prod.snd) else none
  | _ => none

section

variable {α : Type} {read : JsonValue → Option α} {json : α → JsonValue}

@[simp] theorem int?_ofInt (n : Int) : (ofInt n).int? = some n :=
  Decimal.exponent?_signed n

@[simp] theorem nat?_ofNat (n : Nat) : (ofNat n).nat? = some n := by
  rw [nat?, ofNat, int?, Decimal.exponent?_digitsOf]
  rfl

theorem binary64?_ofBinary64 {x : Binary64} (hx : x.isFinite) :
    (ofBinary64 x).binary64? = some x := by
  rw [ofBinary64, if_pos hx]
  exact JsonText.ofText?_float64Text hx

@[simp] theorem isValid_ofInt (n : Int) : (ofInt n).IsValid :=
  .number (JsonText.isNumber_signed n)

@[simp] theorem isValid_ofNat (n : Nat) : (ofNat n).IsValid :=
  .number (JsonText.isNumber_digitsOf n)

@[simp] theorem isValid_ofBinary64 (x : Binary64) : (ofBinary64 x).IsValid := by
  rw [ofBinary64]
  split
  · exact .number (JsonText.isNumber_float64Text x)
  · exact .null

theorem isValid_ofOption {a? : Option α} (h : ∀ a ∈ a?, (json a).IsValid) :
    (ofOption json a?).IsValid := by
  cases a? with
  | none => exact .null
  | some a => exact h a rfl

/-- A value that may be absent is read back if it is not written as null. -/
theorem orNull?_ofOption {a? : Option α} (hnull : ∀ a, json a ≠ .null)
    (h : ∀ a ∈ a?, read (json a) = some a) : orNull? read (ofOption json a?) = some a? := by
  cases a? with
  | none => rfl
  | some a =>
    rw [ofOption, orNull?, h a rfl]
    · rfl
    · exact hnull a

/-- A list is read back if each of its items is. -/
theorem list?_map {as : List α} (h : ∀ a ∈ as, read (json a) = some a) :
    list? read (.array (as.map json)) = some as := by
  rw [list?]
  induction as with
  | nil => rfl
  | cons a as ih =>
    rw [List.map_cons, List.mapM_cons, h a List.mem_cons_self,
      ih fun a ha => h a (List.mem_cons_of_mem _ ha)]
    rfl

end

end JsonValue

namespace Interlevel

/-! ### Documents -/

/-- A condition from its object. -/
def Condition.ofJson? (v : JsonValue) : Option Condition := do
  let [kind, param] ← v.fields? ["condition", "param"] | none
  some ⟨← (← kind.nat?) |> ConditionKind.ofCode?, ← param.nat?⟩

/-- A frame from its object. -/
def Frame.ofJson? (v : JsonValue) : Option Frame := do
  let [image, kind, duration, maxDuration] ← v.fields? ["image", "type", "duration", "maxduration"]
    | none
  some ⟨← image.string?, ← (← kind.nat?) |> DurationKind.ofCode?, ← duration.binary64?,
    ← maxDuration.nat?⟩

/-- A list of conditions, or none. -/
def conditions? (v : JsonValue) : Option (Option (List Condition)) :=
  v.orNull? (JsonValue.list? Condition.ofJson?)

/-- An animation from its object. -/
def Anim.ofJson? (v : JsonValue) : Option Anim := do
  let [x, y, frames, conditions] ← v.fields? ["x", "y", "frames", "conditions"] | none
  some ⟨← x.int?, ← y.int?, ← frames.list? Frame.ofJson?, ← conditions? conditions⟩

/-- A layer from its object. -/
def Layer.ofJson? (v : JsonValue) : Option Layer := do
  let [anims, conditions] ← v.fields? ["anims", "conditions"] | none
  some ⟨← anims.list? Anim.ofJson?, ← conditions? conditions⟩

/-- A screen from its object. -/
def Data.ofJson? (v : JsonValue) : Option Data := do
  let [music, background, layers] ← v.fields? ["music", "backgroundimage", "layers"] | none
  some ⟨← music.orNull? JsonValue.string?, ← background.orNull? JsonValue.string?,
    ← layers.orNull? (JsonValue.list? Layer.ofJson?)⟩

/-- The words about the making from their object. -/
def Metadata.ofJson? (v : JsonValue) : Option Metadata := do
  let [author, application, timestamp, comment] ←
    v.fields? ["author", "application", "timestamp", "comment"] | none
  some ⟨← author.string?, ← application.string?, ← timestamp.string?, ← comment.string?⟩

/-- A document: its kind and version, the words about its making, and the screen. -/
structure Document where
  kind : String
  version : String
  metadata : Metadata
  data : Data
  deriving DecidableEq, Repr

/-- A document from its object. -/
def Document.ofJson? (v : JsonValue) : Option Document := do
  let [kind, version, metadata, data] ← v.fields? ["type", "version", "metadata", "data"] | none
  some ⟨← kind.string?, ← version.string?, ← Metadata.ofJson? metadata, ← Data.ofJson? data⟩

/-- The durations of all frames are finite. -/
def Data.HasFiniteDurations (d : Data) : Prop :=
  ∀ layer ∈ d.layers.getD [], ∀ anim ∈ layer.anims, ∀ frame ∈ anim.frames,
    frame.duration.isFinite = true

variable {f : Frame} {a : Anim} {l : Layer} {d : Data}

/-! ### What is written is JSON -/

theorem Condition.isValid_json (c : Condition) : c.json.IsValid :=
  .object (by simp)

theorem Frame.isValid_json (f : Frame) : f.json.IsValid :=
  .object (by simp [JsonValue.IsValid.string])

theorem isValid_conditionsLayout (conditions : Option (List Condition)) :
    (conditionsLayout conditions).IsValid := by
  refine .inline (JsonValue.isValid_ofOption fun cs _ => .array fun item hitem => ?_)
  obtain ⟨c, -, rfl⟩ := List.mem_map.mp hitem
  exact c.isValid_json

theorem Anim.isValid_layout (a : Anim) : a.layout.IsValid := by
  have hframes : (JsonValue.Layout.array (a.frames.map fun f => .inline f.json)).IsValid := by
    refine .array fun item hitem => ?_
    obtain ⟨frame, -, rfl⟩ := List.mem_map.mp hitem
    exact .inline frame.isValid_json
  have hnumber (n : Int) : (JsonValue.Layout.inline (.ofInt n)).IsValid :=
    .inline (JsonValue.isValid_ofInt n)
  exact .object (by simp [hnumber, hframes, isValid_conditionsLayout])

theorem Layer.isValid_layout (l : Layer) : l.layout.IsValid := by
  have hanims : (JsonValue.Layout.array (l.anims.map Anim.layout)).IsValid := by
    refine .array fun item hitem => ?_
    obtain ⟨anim, -, rfl⟩ := List.mem_map.mp hitem
    exact anim.isValid_layout
  exact .object (by simp [hanims, isValid_conditionsLayout])

theorem isValid_layersLayout (layers? : Option (List Layer)) : (layersLayout layers?).IsValid := by
  cases layers? with
  | none => exact .inline .null
  | some layers =>
    refine .array fun item hitem => ?_
    obtain ⟨layer, -, rfl⟩ := List.mem_map.mp hitem
    exact layer.isValid_layout

/-- A document is laid out with numbers of the grammar only; a duration that is not finite is null. -/
theorem isValid_documentLayout (d : Data) (m : Metadata) : (documentLayout d m).IsValid := by
  have hstring (s : String) : (JsonValue.Layout.inline (.string s)).IsValid := .inline (.string s)
  have hoption (s? : Option String) :
      (JsonValue.Layout.inline (.ofOption .string s?)).IsValid :=
    .inline (JsonValue.isValid_ofOption fun s _ => .string s)
  have hmetadata : m.layout.IsValid := .object (by simp [hstring])
  have hdata : (JsonValue.Layout.object [("music", .inline (.ofOption .string d.music)),
      ("backgroundimage", .inline (.ofOption .string d.background)),
      ("layers", layersLayout d.layers)]).IsValid :=
    .object (by simp [hoption, isValid_layersLayout d.layers])
  exact .object (by simp [hstring, hmetadata, hdata])

/-! ### Reading back -/

theorem Condition.ofJson?_json (c : Condition) : Condition.ofJson? c.json = some c := by
  simp [Condition.ofJson?, Condition.json, JsonValue.fields?]

theorem Frame.ofJson?_json (h : f.duration.isFinite) : Frame.ofJson? f.json = some f := by
  simp [Frame.ofJson?, Frame.json, JsonValue.fields?, JsonValue.string?,
    JsonValue.binary64?_ofBinary64 h]

/-- Conditions as a value. -/
def conditionsJson (conditions : Option (List Condition)) : JsonValue :=
  .ofOption (fun cs => .array (cs.map Condition.json)) conditions

theorem conditions?_conditionsJson (conditions : Option (List Condition)) :
    conditions? (conditionsJson conditions) = some conditions :=
  JsonValue.orNull?_ofOption (fun _ => by simp)
    fun _ _ => JsonValue.list?_map fun c _ => c.ofJson?_json

theorem Anim.value_layout (a : Anim) : a.layout.value =
    .object [("x", .ofInt a.x), ("y", .ofInt a.y), ("frames", .array (a.frames.map Frame.json)),
      ("conditions", conditionsJson a.conditions)] := by
  simp [layout, conditionsLayout, conditionsJson, JsonValue.Layout.value,
    JsonValue.Layout.fieldValues, JsonValue.Layout.values_map]

theorem Anim.ofJson?_layout (h : ∀ frame ∈ a.frames, frame.duration.isFinite = true) :
    Anim.ofJson? a.layout.value = some a := by
  have hframes : JsonValue.list? Frame.ofJson? (.array (a.frames.map Frame.json)) = some a.frames :=
    JsonValue.list?_map fun frame hframe => Frame.ofJson?_json (h frame hframe)
  simp [Anim.ofJson?, Anim.value_layout, JsonValue.fields?, hframes, conditions?_conditionsJson]

theorem Layer.value_layout (l : Layer) : l.layout.value =
    .object [("anims", .array (l.anims.map fun anim => anim.layout.value)),
      ("conditions", conditionsJson l.conditions)] := by
  simp [layout, conditionsLayout, conditionsJson, JsonValue.Layout.value,
    JsonValue.Layout.fieldValues, JsonValue.Layout.values_map]

theorem Layer.ofJson?_layout
    (h : ∀ anim ∈ l.anims, ∀ frame ∈ anim.frames, frame.duration.isFinite = true) :
    Layer.ofJson? l.layout.value = some l := by
  have hanims : JsonValue.list? Anim.ofJson? (.array (l.anims.map fun anim => anim.layout.value)) =
      some l.anims :=
    JsonValue.list?_map fun anim hanim => Anim.ofJson?_layout (h anim hanim)
  simp [Layer.ofJson?, Layer.value_layout, JsonValue.fields?, hanims, conditions?_conditionsJson]

theorem layers?_layersLayout (h : d.HasFiniteDurations) :
    (layersLayout d.layers).value.orNull? (JsonValue.list? Layer.ofJson?) = some d.layers := by
  have hvalue : (layersLayout d.layers).value = JsonValue.ofOption
      (fun layers => .array (layers.map fun layer => layer.layout.value)) d.layers := by
    cases d.layers with
    | none => rfl
    | some layers => simp [layersLayout, JsonValue.Layout.value, JsonValue.Layout.values_map,
        JsonValue.ofOption]
  rw [hvalue]
  refine JsonValue.orNull?_ofOption (fun _ => by simp) fun layers hlayers => ?_
  refine JsonValue.list?_map fun layer hlayer => Layer.ofJson?_layout (h layer ?_)
  rw [Option.mem_def.mp hlayers]
  exact hlayer

theorem documentLayout_ofJson? (h : d.HasFiniteDurations) (m : Metadata) :
    Document.ofJson? (documentLayout d m).value =
      some ⟨documentType, documentVersion, m, d⟩ := by
  have hstring (s? : Option String) :
      (JsonValue.ofOption .string s?).orNull? JsonValue.string? = some s? :=
    JsonValue.orNull?_ofOption (fun _ => by simp) fun s _ => rfl
  simp [Document.ofJson?, documentLayout, Metadata.layout, Metadata.ofJson?, Data.ofJson?,
    JsonValue.Layout.value, JsonValue.Layout.fieldValues, JsonValue.fields?, JsonValue.string?,
    hstring, layers?_layersLayout h]

/-- The text of a screen with finite durations is JSON, and what is read from it is the document:
its kind and version, the words about its making, and the screen. -/
theorem document_ofText?_render (d : Data) (m : Metadata) (h : d.HasFiniteDurations) :
    ∃ v, JsonValue.ofText? (render d m) = some v ∧
      Document.ofJson? v = some ⟨documentType, documentVersion, m, d⟩ :=
  ⟨_, JsonValue.Layout.ofText?_render (isValid_documentLayout d m), documentLayout_ofJson? h m⟩

/-- A screen without music, with marks and control characters in its texts, and with lists of
conditions that are absent and empty. -/
theorem document_ofText?_render_escapes :
    let d : Data := ⟨none, some "A\"\\\n",
      some [⟨[⟨-5, 7, [.infinite "P", .fixed "Q\x01" (Frame.seconds 12)], some []⟩], none⟩,
        ⟨[], some [.entering]⟩]⟩
    let m : Metadata := ⟨"\t", "", "☃", "\x00"⟩
    d.HasFiniteDurations ∧ ∃ v, JsonValue.ofText? (render d m) = some v ∧
      Document.ofJson? v = some ⟨documentType, documentVersion, m, d⟩ := by
  intro d m
  have hzero : Binary64.zero.isFinite = true := by decide
  have hseconds : (Frame.seconds 12).isFinite = true := by decide +kernel
  have hfinite : d.HasFiniteDurations := by
    simp [Data.HasFiniteDurations, d, Frame.infinite, Frame.fixed, hzero, hseconds]
  exact ⟨hfinite, document_ofText?_render d m hfinite⟩

end Interlevel

end Interlude
