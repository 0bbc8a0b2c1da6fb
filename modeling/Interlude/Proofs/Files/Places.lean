import Mathlib
import Interlude.Files.Tree

/-!
# Where paths lead

The steps of a path lead to a place by their words alone: an empty step and a dot stay, two dots go
up, every other step goes down. A file tree agrees with that wherever it takes a path, so a path
has one place in every tree in which relative paths begin at the same folder. A file name that is
joined to a folder leads below the folder if no slash parts it; with slashes it may lead anywhere.
-/

namespace Interlude

variable {here place folder : Place} {path file name output : String} {steps : List String}

namespace Place

/-- The place to which steps lead from a place. -/
def resolve (place : Place) : List String → Place
  | [] => place
  | step :: rest =>
    if step = "" ∨ step = "." then resolve place rest
    else if step = ".." then resolve place.dropLast rest
    else resolve (place ++ [step]) rest

/-- A place that lies in a folder, at any depth. -/
def Below (folder place : Place) : Prop :=
  folder <+: place ∧ folder ≠ place

instance (folder place : Place) : Decidable (Below folder place) :=
  inferInstanceAs (Decidable (_ ∧ _))

/-- Steps are taken one after the other. -/
theorem resolve_append (place : Place) (first second : List String) :
    resolve place (first ++ second) = resolve (resolve place first) second := by
  induction first generalizing place with
  | nil => rfl
  | cons step first ih =>
    rw [List.cons_append, resolve, resolve]
    split
    · exact ih place
    · split
      · exact ih place.dropLast
      · exact ih (place ++ [step])

/-- Empty steps lead nowhere. -/
theorem resolve_of_all_empty (hsteps : ∀ step ∈ steps, step = "") : resolve place steps = place := by
  induction steps with
  | nil => rfl
  | cons step rest ih =>
    rw [resolve, if_pos (Or.inl (hsteps step List.mem_cons_self))]
    exact ih fun s hs => hsteps s (List.mem_cons_of_mem step hs)

/-- A step that is a name goes down by it. -/
theorem resolve_singleton (hempty : name ≠ "") (hdot : name ≠ ".") (hup : name ≠ "..") :
    resolve place [name] = place ++ [name] := by
  rw [resolve, if_neg (by simp only [hempty, hdot, or_self, not_false_eq_true]), if_neg hup]
  rfl

/-- What a name makes of a folder lies below it. -/
theorem below_append_singleton (folder : Place) (name : String) : Below folder (folder ++ [name]) :=
  ⟨List.prefix_append folder [name], fun h => List.cons_ne_nil name [] (List.self_eq_append_right.mp h)⟩

/-- What lies below a folder of a folder lies below the outer one. -/
theorem Below.append {inner : List String} (h : Below (folder ++ inner) place) : Below folder place := by
  obtain ⟨⟨rest, rfl⟩, hne⟩ := h
  refine ⟨⟨inner ++ rest, (List.append_assoc folder inner rest).symm⟩, ?_⟩
  intro hfolder
  rw [List.append_assoc] at hfolder
  have hnil := List.append_eq_nil_iff.mp (List.self_eq_append_right.mp hfolder)
  rw [hnil.2, List.append_nil] at hne
  exact hne rfl

end Place

open Place (resolve Below)

namespace Path

/-- A text that names something in a folder: no slash parts it, and it neither stays nor goes up. -/
def IsName (name : String) : Prop :=
  '/' ∉ name.toList ∧ name ≠ "" ∧ name ≠ "." ∧ name ≠ ".."

instance (name : String) : Decidable (IsName name) :=
  inferInstanceAs (Decidable (_ ∧ _))

/-! ### Parts -/

/-- A slash between two texts sets off the parts of one from those of the other. -/
theorem parts_append_slash (a b : String) : parts (a ++ "/" ++ b) = parts a ++ parts b := by
  have hlist : (a ++ "/" ++ b).toList = a.toList ++ '/' :: b.toList := by
    rw [String.toList_append, String.toList_append, List.append_assoc]
    rfl
  rw [parts, hlist, List.splitOn_append_cons_self, List.map_append]
  rfl

/-- A text without a slash is its only part. -/
theorem parts_of_no_slash (h : '/' ∉ file.toList) : parts file = [file] := by
  rw [parts, List.splitOn_eq_singleton h, List.map_singleton, String.ofList_toList]

/-- A text with a slash is cut at the last one. -/
theorem exists_eq_append_slash (h : '/' ∈ path.toList) :
    ∃ before name : String, path = before ++ "/" ++ name ∧ '/' ∉ name.toList := by
  obtain ⟨after, before, hreverse, hafter⟩ :=
    List.eq_append_cons_of_mem (List.mem_reverse.mpr h)
  refine ⟨String.ofList before.reverse, String.ofList after.reverse, ?_, ?_⟩
  · apply String.toList_inj.mp
    rw [← List.reverse_reverse path.toList, hreverse]
    simp [String.toList_append]
  · rwa [String.toList_ofList, List.mem_reverse]

/-- An ending without a slash stands at the end of the last part. -/
theorem exists_parts_append {ending : String} (h : '/' ∉ ending.toList) (name : String) :
    ∃ before last, parts (name ++ ending) = before ++ [last ++ ending] := by
  have hpiece : ∀ last : String, '/' ∉ last.toList → '/' ∉ (last ++ ending).toList := by
    intro last hlast
    rw [String.toList_append, List.mem_append]
    exact not_or.mpr ⟨hlast, h⟩
  by_cases hslash : '/' ∈ name.toList
  · obtain ⟨before, last, rfl, hlast⟩ := exists_eq_append_slash hslash
    refine ⟨parts before, last, ?_⟩
    rw [String.append_assoc, parts_append_slash, parts_of_no_slash (hpiece last hlast)]
  · exact ⟨[], name, parts_of_no_slash (hpiece name hslash)⟩

/-- Only a text that begins with a slash begins at the root. -/
theorem startsWith_slash_iff : path.startsWith "/" = true ↔ ∃ rest, path.toList = '/' :: rest := by
  rw [String.startsWith_string_iff]
  constructor
  · rintro ⟨rest, hrest⟩
    exact ⟨rest, hrest.symm⟩
  · rintro ⟨rest, hrest⟩
    exact ⟨rest, hrest.symm⟩

/-- A text without a slash does not begin at the root. -/
theorem startsWith_of_no_slash (h : '/' ∉ file.toList) : file.startsWith "/" = false := by
  rw [← Bool.not_eq_true, startsWith_slash_iff]
  rintro ⟨rest, hrest⟩
  exact h (hrest ▸ List.mem_cons_self)

/-- What follows a text that is not empty does not change where it begins. -/
theorem startsWith_slash_append (houtput : output ≠ "") (file : String) :
    (output ++ file).startsWith "/" = output.startsWith "/" := by
  rw [Bool.eq_iff_iff, startsWith_slash_iff, startsWith_slash_iff, String.toList_append]
  rcases hlist : output.toList with _ | ⟨c, rest⟩
  · exact absurd (String.toList_eq_nil_iff.mp hlist) houtput
  · simp only [List.cons_append, List.cons.injEq, exists_and_left, exists_eq', and_true]

/-- Only a text that ends with a slash is a text and a slash. -/
theorem endsWith_slash_iff : path.endsWith "/" = true ↔ ∃ before, path = before ++ "/" := by
  rw [String.endsWith, String.Slice.endsWith_string_iff, String.copy_toSlice]
  constructor
  · rintro ⟨before, hbefore⟩
    refine ⟨String.ofList before, ?_⟩
    rw [← String.toList_inj, String.toList_append, String.toList_ofList, hbefore]
  · rintro ⟨before, rfl⟩
    exact ⟨before.toList, (String.toList_append).symm⟩

/-! ### Destinations -/

/-- The place of a path where relative paths begin at a folder. -/
def destination (here : Place) (path : String) : Place :=
  resolve (if path.startsWith "/" then [] else here) (parts path)

/-- A path that begins at the root is not led by a folder that it is seen from. -/
theorem join_of_absolute (hfile : file.startsWith "/" = true) (output : String) :
    join output file = file := by
  rw [join, if_pos hfile]

/-- A path that does not begin at the root is put after the folder that it is seen from, with one
slash between them. -/
theorem join_of_relative (hfile : file.startsWith "/" = false) (output : String) :
    output = "" ∧ join output file = file ∨
      output ≠ "" ∧ ((∃ before, output = before ++ "/" ∧ join output file = output ++ file) ∨
        join output file = output ++ "/" ++ file) := by
  rw [join, if_neg (by rw [hfile]; exact Bool.false_ne_true)]
  by_cases hempty : output = ""
  · refine Or.inl ⟨hempty, ?_⟩
    rw [if_pos (Or.inl (String.isEmpty_iff.mpr hempty)), hempty, String.empty_append]
  · refine Or.inr ⟨hempty, ?_⟩
    by_cases hslash : output.endsWith "/" = true
    · obtain ⟨before, hbefore⟩ := endsWith_slash_iff.mp hslash
      exact Or.inl ⟨before, hbefore, if_pos (Or.inr hslash)⟩
    · have hneither := not_or.mpr ⟨fun h => hempty (String.isEmpty_iff.mp h), hslash⟩
      exact Or.inr (if_neg hneither)

/-- A path that does not begin at the root is followed from the folder that it is seen from. -/
theorem destination_join (hfile : file.startsWith "/" = false) (here : Place) (output : String) :
    destination here (join output file) = resolve (destination here output) (parts file) := by
  rcases join_of_relative hfile output with ⟨rfl, hjoin⟩ | ⟨hempty, ⟨before, rfl, hjoin⟩ | hjoin⟩
  · rw [hjoin, destination, hfile]
    rfl
  · rw [hjoin, destination, startsWith_slash_append hempty, parts_append_slash,
      Place.resolve_append, destination]
    congr 1
    rw [← String.append_empty (s := before ++ "/"), parts_append_slash, Place.resolve_append]
    rfl
  · rw [hjoin, destination, String.append_assoc, startsWith_slash_append hempty,
      ← String.append_assoc, parts_append_slash, Place.resolve_append, destination]

/-- The last parts of a path that is seen from a folder are its own. -/
theorem exists_parts_join (output file : String) :
    ∃ before, parts (join output file) = before ++ parts file := by
  by_cases hfile : file.startsWith "/" = true
  · exact ⟨[], by rw [join_of_absolute hfile]; rfl⟩
  rcases join_of_relative (Bool.eq_false_iff.mpr hfile) output with
    ⟨_, hjoin⟩ | ⟨_, ⟨before, rfl, hjoin⟩ | hjoin⟩
  · exact ⟨[], by rw [hjoin]; rfl⟩
  · exact ⟨parts before, by rw [hjoin, parts_append_slash]⟩
  · exact ⟨parts output, by rw [hjoin, parts_append_slash]⟩

/-- A folder itself, seen as a path with nothing after the folder, is no name for a file. -/
theorem join_empty (output : String) :
    join output "" = "" ∨ (join output "").endsWith "/" = true := by
  have hfile : ("" : String).startsWith "/" = false := by decide +kernel
  rcases join_of_relative hfile output with ⟨_, hjoin⟩ | ⟨_, ⟨before, rfl, hjoin⟩ | hjoin⟩
  · exact Or.inl hjoin
  · rw [hjoin, String.append_empty]
    exact Or.inr (endsWith_slash_iff.mpr ⟨before, rfl⟩)
  · rw [hjoin, String.append_empty]
    exact Or.inr (endsWith_slash_iff.mpr ⟨output, rfl⟩)

/-- A name leads to its own place in a folder. -/
theorem destination_join_name (hname : IsName file) (here : Place) (output : String) :
    destination here (join output file) = destination here output ++ [file] := by
  obtain ⟨hslash, hempty, hdot, hup⟩ := hname
  rw [destination_join (startsWith_of_no_slash hslash), parts_of_no_slash hslash,
    Place.resolve_singleton hempty hdot hup]

end Path

end Interlude
