import Mathlib
import Interlude.Settings.Source

/-!
# Settings as tables

Settings can be written as a table: a field for each value that is set, and a list with a table for each conversion.
What is read from this table is the settings, because no field has a name that another one has.
-/

namespace Interlude

variable {α : Type}

/-! ### Fields -/

namespace Toml

variable {name : String} {fields settings : List (String × Toml)}

/-- A field that is there if it has a value. -/
def optional (name : String) (value? : Option Toml) : List (String × Toml) :=
  value?.toList.map (name, ·)

@[simp] theorem lookup_optional (name other : String) (value? : Option Toml) :
    (optional name value?).lookup other = if other = name then value? else none := by
  cases value? with
  | none => simp [optional]
  | some v =>
    rw [optional, Option.toList_some, List.map_singleton, List.lookup_cons]
    by_cases h : other = name
    · simp [h]
    · simp [h, beq_eq_false_iff_ne.mpr h]

theorem map_fst_optional_sublist (name : String) (value? : Option Toml) :
    ((optional name value?).map Prod.fst).Sublist [name] := by
  cases value? with
  | none => exact List.nil_sublist _
  | some v => exact List.Sublist.refl _

/-- A field is read as the value that was written. -/
theorem optional?_eq {read : Toml → Option α} (toToml : α → Toml) (hread : ∀ a, read (toToml a) = some a)
    {value? : Option α} (h : fields.lookup name = value?.map toToml) : optional? fields name read = some value? := by
  rw [optional?, h]
  cases value? with
  | none => rfl
  | some a => simp [hread]

/-! ### Keys -/

/-- A new field stands behind the others. -/
theorem set_of_notMem {x : α} {fields : List (String × α)} (h : name ∉ fields.map Prod.fst) :
    set name x fields = fields ++ [(name, x)] := by
  induction fields with
  | nil => rfl
  | cons field fields ih =>
    rw [List.map_cons, List.mem_cons, not_or] at h
    rw [set, if_neg (Ne.symm h.1), ih h.2, List.cons_append]

/-- A value that is no table takes the place of what stands there. -/
def IsPlain (v : Toml) : Prop :=
  ∀ w, overlay w v = v

theorem isPlain_text (s : String) : IsPlain (text s) :=
  fun w => by rw [overlay]; simp

theorem isPlain_boolean (b : Bool) : IsPlain (boolean b) :=
  fun w => by rw [overlay]; simp

theorem isPlain_array (items : List Toml) : IsPlain (array items) :=
  fun w => by rw [overlay]; simp

/-- Plain values of a type give plain fields. -/
theorem isPlain_of_mem_optional {toToml : α → Toml} (htoToml : ∀ a, (toToml a).IsPlain) {value? : Option α}
    {p : String × Toml} (h : p ∈ optional name (value?.map toToml)) : p.2.IsPlain := by
  cases value? with
  | none => contradiction
  | some a =>
    obtain rfl := List.mem_singleton.mp h
    exact htoToml a

/-- Keys that are different names give a table with these fields. -/
theorem ofKeys_eq_table (hnames : (settings.map Prod.fst).Nodup)
    (hkeys : ∀ p ∈ settings, KeyStep.ofKey p.1 = [.field p.1] ∧ p.2.IsPlain) :
    ofKeys settings = .table settings := by
  induction settings using List.reverseRecOn with
  | nil => rfl
  | append_singleton settings p ih =>
    rw [List.map_append, List.map_singleton, List.nodup_append] at hnames
    obtain ⟨hnames, -, hnew⟩ := hnames
    have hp := hkeys p (by simp)
    have hsettings := ih hnames fun q hq => hkeys q (List.mem_append_left _ hq)
    have hfresh : p.1 ∉ settings.map Prod.fst := fun hmem => hnew _ hmem _ (List.mem_singleton.mpr rfl) rfl
    rw [ofKeys, List.foldl_append, ← ofKeys, hsettings, List.foldl_cons, List.foldl_nil]
    simp only [hp.1, change, fields, hp.2 _, set_of_notMem hfresh]

end Toml

/-! ### Settings -/

/-- The word for an order. -/
def OrdinalOrder.word : OrdinalOrder → String
  | .declaration => "declaration"
  | .sortedByToken => "sorted_by_token"

namespace Defaults

/-- The fields of the values that are set. -/
def fields (d : Defaults) : List (String × Toml) :=
  Toml.optional "author" (d.author.map .text) ++ Toml.optional "porter" (d.porter.map .text) ++
    Toml.optional "music" (d.music.map .text) ++ Toml.optional "mapinfo_lump" (d.mapLump.map .text) ++
    Toml.optional "ordinal_order" (d.order.map fun order => .text order.word) ++
    Toml.optional "save_graphics" (d.saveGraphics.map .boolean) ++ Toml.optional "cache" (d.cache.map .boolean) ++
    Toml.optional "palette" (d.palette.map .text)

/-- The names of values for conversions. -/
def names : List String :=
  ["author", "porter", "music", "mapinfo_lump", "ordinal_order", "save_graphics", "cache", "palette"]

/-- The values are read from any table that has these fields under their names. -/
theorem ofFields?_eq_some {table : List (String × Toml)} (d : Defaults)
    (h : ∀ name ∈ names, table.lookup name = d.fields.lookup name) : ofFields? table = some d := by
  have htext {name : String} {value? : Option String} (hvalue : table.lookup name = value?.map .text) :
      Toml.optional? table name Toml.text? = some value? :=
    Toml.optional?_eq .text (fun _ => rfl) hvalue
  have hboolean {name : String} {value? : Option Bool} (hvalue : table.lookup name = value?.map .boolean) :
      Toml.optional? table name Toml.boolean? = some value? :=
    Toml.optional?_eq .boolean (fun _ => rfl) hvalue
  have horder {value? : Option OrdinalOrder}
      (hvalue : table.lookup "ordinal_order" = value?.map fun order => .text order.word) :
      Toml.optional? table "ordinal_order" Toml.order? = some value? :=
    Toml.optional?_eq _ (fun order => by cases order <;> rfl) hvalue
  obtain ⟨author, porter, music, mapLump, order, saveGraphics, cache, palette⟩ := d
  simp only [names, List.forall_mem_cons, fields, List.lookup_append, Toml.lookup_optional] at h
  obtain ⟨hauthor, hporter, hmusic, hlump, hword, hsave, hcache, hpalette, -⟩ := h
  simp only [String.reduceEq, if_true, if_false, Option.none_or, Option.or_none]
    at hauthor hporter hmusic hlump hword hsave hcache hpalette
  simp only [ofFields?, htext hauthor, htext hporter, htext hmusic, htext hlump, horder hword, hboolean hsave,
    hboolean hcache, htext hpalette, Option.bind_eq_bind, Option.bind_some]
  rfl

/-- The fields have these names in their order. -/
theorem map_fst_fields_sublist (d : Defaults) : (d.fields.map Prod.fst).Sublist names := by
  simp only [fields, List.map_append]
  exact (((((((Toml.map_fst_optional_sublist _ _).append (Toml.map_fst_optional_sublist _ _)).append
    (Toml.map_fst_optional_sublist _ _)).append (Toml.map_fst_optional_sublist _ _)).append
    (Toml.map_fst_optional_sublist _ _)).append (Toml.map_fst_optional_sublist _ _)).append
    (Toml.map_fst_optional_sublist _ _)).append (Toml.map_fst_optional_sublist _ _)

/-- None of the fields is a table. -/
theorem isPlain_of_mem_fields {d : Defaults} {p : String × Toml} (h : p ∈ d.fields) : p.2.IsPlain := by
  simp only [fields, List.mem_append] at h
  rcases h with ((((((h | h) | h) | h) | h) | h) | h) | h
  · exact Toml.isPlain_of_mem_optional Toml.isPlain_text h
  · exact Toml.isPlain_of_mem_optional Toml.isPlain_text h
  · exact Toml.isPlain_of_mem_optional Toml.isPlain_text h
  · exact Toml.isPlain_of_mem_optional Toml.isPlain_text h
  · exact Toml.isPlain_of_mem_optional (fun order => Toml.isPlain_text (OrdinalOrder.word order)) h
  · exact Toml.isPlain_of_mem_optional Toml.isPlain_boolean h
  · exact Toml.isPlain_of_mem_optional Toml.isPlain_boolean h
  · exact Toml.isPlain_of_mem_optional Toml.isPlain_text h

/-- No other field is one of these. -/
theorem lookup_fields_eq_none {d : Defaults} {name : String} (h : name ∉ names) : d.fields.lookup name = .none := by
  simp only [names, List.mem_cons, List.not_mem_nil, or_false, not_or] at h
  simp [fields, List.lookup_append, h]

end Defaults

/-- A conversion as a table. -/
def Job.toToml (job : Job) : Toml :=
  .table ([("archive", .text job.archive), ("output", .text job.output)] ++
    Toml.optional "title" (job.title.map .text) ++ job.own.fields)

/-- The conversion is read from its table. -/
theorem Job.ofToml?_toToml (job : Job) : Job.ofToml? job.toToml = some job := by
  obtain ⟨archive, output, title, own⟩ := job
  have hown : ∀ name ∈ Defaults.names, ([("archive", Toml.text archive), ("output", .text output)] ++
      Toml.optional "title" (title.map .text) ++ own.fields).lookup name = own.fields.lookup name := by
    intro name hname
    have hother : name ≠ "archive" ∧ name ≠ "output" ∧ name ≠ "title" := by
      refine ⟨?_, ?_, ?_⟩ <;> rintro rfl <;> simp [Defaults.names] at hname
    simp [List.lookup_cons, List.lookup_append, beq_false_of_ne hother.1, beq_false_of_ne hother.2.1, hother.2.2]
  have htitle : Toml.optional? ([("archive", Toml.text archive), ("output", .text output)] ++
      Toml.optional "title" (title.map .text) ++ own.fields) "title" Toml.shownText? = some title := by
    refine Toml.optional?_eq .text (fun _ => rfl) ?_
    have hnone : own.fields.lookup "title" = none := Defaults.lookup_fields_eq_none (by simp [Defaults.names])
    simp [List.lookup_append, List.lookup_cons, hnone]
  rw [toToml, ofToml?]
  simp only [htitle, Defaults.ofFields?_eq_some own hown]
  rfl

namespace Settings

/-- The fields of settings: the values for all conversions, and the list of the conversions. -/
def fields (s : Settings) : List (String × Toml) :=
  s.defaults.fields ++ [("conversion", .array (s.jobs.map Job.toToml))]

/-- The conversions are read from the list of their tables. -/
theorem jobsOf?_map (jobs : List Job) : jobsOf? (.array (jobs.map Job.toToml)) = some jobs := by
  rw [jobsOf?]
  induction jobs with
  | nil => rfl
  | cons job jobs ih =>
    rw [List.map_cons, List.mapM_cons, Job.ofToml?_toToml, ih]
    rfl

/-- The settings are read from their fields. -/
theorem ofKeys?_fields (s : Settings) : ofKeys? s.fields = some s := by
  obtain ⟨d, jobs⟩ := s
  have hnames : ((fields ⟨d, jobs⟩).map Prod.fst).Sublist (Defaults.names ++ ["conversion"]) := by
    rw [fields, List.map_append]
    exact d.map_fst_fields_sublist.append (List.Sublist.refl _)
  have htable : Toml.ofKeys (fields ⟨d, jobs⟩) = .table (fields ⟨d, jobs⟩) := by
    refine Toml.ofKeys_eq_table (hnames.nodup (by decide)) fun p hp => ⟨?_, ?_⟩
    · have hkeys : ∀ key ∈ Defaults.names ++ ["conversion"], KeyStep.ofKey key = [.field key] := by decide
      exact hkeys p.1 (hnames.subset (List.mem_map_of_mem hp))
    · rcases List.mem_append.mp hp with hp | hp
      · exact Defaults.isPlain_of_mem_fields hp
      · obtain rfl := List.mem_singleton.mp hp
        exact Toml.isPlain_array _
  have hdefaults : Defaults.ofFields? (fields ⟨d, jobs⟩) = some d := by
    refine Defaults.ofFields?_eq_some d fun name hname => ?_
    have hother : name ≠ "conversion" := by
      rintro rfl
      simp [Defaults.names] at hname
    simp [fields, List.lookup_append, List.lookup_cons, beq_false_of_ne hother]
  have hjobs : Toml.optional? (fields ⟨d, jobs⟩) "conversion" jobsOf? = some (some jobs) := by
    have hnone : d.fields.lookup "conversion" = none := Defaults.lookup_fields_eq_none (by simp [Defaults.names])
    refine Toml.optional?_eq (fun jobs => .array (jobs.map Job.toToml)) jobsOf?_map ?_
    simp [fields, List.lookup_append, hnone]
  simp only [ofKeys?, htable, Toml.fields, hdefaults, hjobs]
  rfl

end Settings

end Interlude
