import Mathlib
import Interlude.Proofs.Conversion.Reading
import Interlude.Proofs.Conversion.Writes
import Interlude.Proofs.Files.Making

/-!
# Calls of a cache

A cache keeps the bytes of a lump in a file that is named for the lump, and in the name of the file
one character stands for all those that would part a path. So a name gives the bytes that were put
last under a name that is alike: as long as no two names differ in nothing but such characters, the
cache is a map from names to bytes. A name that no file can have is refused, whether bytes are put
under it or asked for.
-/

namespace Interlude

namespace LumpCache

open FileTree (OpensAt nameFault?)
open Interlude.Path (IsName)

variable {c : LumpCache} {t t' : FileTree} {place : Place} {name other : String} {bytes : ByteArray}
  {fault : FileFault} {kept : String → Option ByteArray}

/-! ### Names of files -/

/-- The name of the file that keeps a lump. -/
def fileName (name : String) : String :=
  String.ofList (name.toList.map fileChar)

/-- The characters that are all the same in the name of a file. -/
def marks : List Char :=
  ['/', '\\', ':', '^']

/-- Names that differ in nothing but which of these characters stand where. -/
def Alike (a b : String) : Prop :=
  List.Forall₂ (fun c d => c = d ∨ c ∈ marks ∧ d ∈ marks) a.toList b.toList

instance (a b : String) : Decidable (Alike a b) :=
  inferInstanceAs (Decidable (List.Forall₂ _ _ _))

/-- The characters of files are those of the names, but for the marks. -/
theorem fileChar_eq_iff {c d : Char} :
    fileChar c = fileChar d ↔ c = d ∨ c ∈ marks ∧ d ∈ marks := by
  simp only [fileChar, marks, List.mem_cons, List.not_mem_nil, or_false]
  grind

/-- Names have the same file if they are alike. -/
theorem fileName_eq_iff : fileName name = fileName other ↔ Alike name other := by
  rw [fileName, fileName, String.ofList_inj, ← List.forall₂_eq_eq_eq, List.forall₂_map_left_iff,
    List.forall₂_map_right_iff]
  simp only [fileChar_eq_iff, Alike]

/-- A name is alike to itself. -/
theorem alike_refl (name : String) : Alike name name :=
  fileName_eq_iff.mp rfl

/-- Only the file of the empty name has no name. -/
theorem fileName_eq_empty_iff : fileName name = "" ↔ name = "" := by
  rw [fileName, String.ofList_eq_empty_iff, List.map_eq_nil_iff, String.toList_eq_nil_iff]

/-- No slash is left in the name of a file. -/
theorem slash_not_mem_fileName (name : String) : '/' ∉ (fileName name).toList :=
  Converting.slash_not_mem_map_fileChar name

/-- Why no file can keep a lump, if so. -/
def refusal? (c : LumpCache) (name : String) : Option FileFault :=
  nameFault? c.folder (fileName name)

/-! ### Calls -/

/-- A call of a cache. -/
inductive Call where
  | get (name : String)
  | put (name : String) (bytes : ByteArray)

/-- What a call does and gives. A put gives no bytes. -/
def call (c : LumpCache) : Call → StateM FileTree (Except FileFault (Option ByteArray))
  | .get name => c.get name
  | .put name bytes => do return (← c.put name bytes).map fun () => none

/-- A put among the calls leaves the files of the put. -/
theorem files_call_put (c : LumpCache) (name : String) (bytes : ByteArray) (t : FileTree) :
    ((c.call (.put name bytes)).run t).2 = ((c.put name bytes : StateM FileTree _).run t).2 := by
  rw [call, StateT.run_bind]
  rcases (c.put name bytes : StateM FileTree _).run t with ⟨result, t'⟩
  rfl

/-- The files after some calls. -/
def after (c : LumpCache) (calls : List Call) (t : FileTree) : FileTree :=
  calls.foldl (fun t next => ((c.call next).run t).2) t

/-- The bytes that a call puts under one of some names. -/
def Call.put? (names : String → Prop) [DecidablePred names] : Call → Option ByteArray
  | .put name bytes => if names name then some bytes else none
  | .get _ => none

/-- The bytes that are put last under one of some names. -/
def lastPut (names : String → Prop) [DecidablePred names] (calls : List Call) : Option ByteArray :=
  calls.reverse.findSome? (Call.put? names)

/-- What the later calls put comes after what the first one puts. -/
theorem lastPut_cons (names : String → Prop) [DecidablePred names] (first : Call) (calls : List Call) :
    lastPut names (first :: calls) = (lastPut names calls).or (first.put? names) := by
  rw [lastPut, List.reverse_cons, List.findSome?_append]
  congr 1
  rw [List.findSome?_singleton]

/-- What was put last depends on which of the names that are put under are meant. -/
theorem lastPut_congr {names names' : String → Prop} [DecidablePred names] [DecidablePred names']
    {calls : List Call} (h : ∀ name bytes, Call.put name bytes ∈ calls → (names name ↔ names' name)) :
    lastPut names calls = lastPut names' calls := by
  induction calls with
  | nil => rfl
  | cons first calls ih =>
    have hfirst : first.put? names = first.put? names' := by
      cases first with
      | get name => rfl
      | put name bytes => simp only [Call.put?, h name bytes List.mem_cons_self]
    rw [lastPut_cons, lastPut_cons, hfirst,
      ih fun name bytes hput => h name bytes (List.mem_cons_of_mem first hput)]

/-! ### The folder of a cache -/

/-- A cache whose folder is there, in another folder, and empty. -/
def IsFresh (c : LumpCache) (t : FileTree) : Prop :=
  ∃ place, t.OpensAt c.folder place ∧ t.HasFolder place.dropLast ∧
    ∀ file, t.node? (place ++ [file]) = none

/-- A cache that is opened with a new name in an open folder is fresh. -/
theorem isFresh_of_openIn {folder : String} (h : t.OpensAt folder place) (hname : IsName name)
    (hsize : name.utf8ByteSize ≤ FileTree.longestName)
    (hcheck : FileTree.checkPath (Path.join folder name) = .ok ())
    (hnone : ∀ below, t.node? (place ++ name :: below) = none) :
    ∃ t', (openIn (Path.join folder name) : StateM FileTree _).run t =
        (.ok ⟨Path.join folder name⟩, t') ∧ IsFresh ⟨Path.join folder name⟩ t' := by
  have hext : FileTree.Extends t { t with folders := (place ++ [name]) :: t.folders } :=
    ⟨rfl, List.subset_cons_self _ _⟩
  have hfolder : FileTree.HasFolder { t with folders := (place ++ [name]) :: t.folders }
      (place ++ [name]) := Or.inr List.mem_cons_self
  have hplace := FileTree.placeOf_of_newFolderPlace (h.newFolderPlace_join hname hsize hcheck)
    hext hfolder
  refine ⟨_, ?_, place ++ [name], ⟨hfolder, Or.inr hplace⟩, ?_, fun file => ?_⟩
  · rw [openIn, StateT.run_bind, h.run_createFolders_join hname hsize hcheck (hnone [])]
    rfl
  · rw [List.dropLast_concat]
    exact hext.hasFolder h.1
  · rw [FileTree.node?_cons_folders (by simp), List.append_assoc]
    exact hnone [file]

/-- The folder of a cache holds some files and nothing else. -/
structure Holds (c : LumpCache) (place : Place) (kept : String → Option ByteArray) (t : FileTree) :
    Prop where
  opens : t.OpensAt c.folder place
  hasFolder : t.HasFolder place.dropLast
  node?_eq : ∀ file, t.node? (place ++ [file]) = (kept file).map .file

/-- Reading the file of a lump finds what is kept there, unless the name is refused. -/
theorem Holds.read (h : c.Holds place kept t) (hname : name ≠ "") : t.read (c.path name) =
    match c.refusal? name with
    | some fault => .error fault
    | none =>
      match kept (fileName name) with
      | some bytes => .ok bytes
      | none => .error .missing := by
  have hread := h.opens.read_join h.hasFolder (slash_not_mem_fileName name)
    (fun hfile => hname (fileName_eq_empty_iff.mp hfile))
  rw [h.node?_eq] at hread
  change t.read (c.path name) = _ at hread
  rw [hread, refusal?]
  cases nameFault? c.folder (fileName name) with
  | some fault => rfl
  | none => cases kept (fileName name) <;> rfl

/-- A cache gives what it keeps in the file of a lump, unless the name is refused. -/
theorem Holds.run_get (h : c.Holds place kept t) (hname : name ≠ "") :
    (c.get name : StateM FileTree _).run t =
      (match c.refusal? name with
        | some fault => .error fault
        | none => .ok (kept (fileName name)), t) := by
  rw [Converting.run_get, h.read hname]
  cases hrefusal : c.refusal? name with
  | none => cases kept (fileName name) <;> rfl
  | some fault =>
    cases fault
    case missing => exact absurd hrefusal (FileTree.nameFault?_ne_missing _ _)
    all_goals rfl

/-- Where the bytes of a lump are put. -/
theorem Holds.newPlace (h : c.Holds place kept t) (hname : name ≠ "") : t.newPlace (c.path name) =
    match c.refusal? name with
    | some fault => .error fault
    | none => .ok (place ++ [fileName name]) :=
  h.opens.newPlace_join_eq (slash_not_mem_fileName name)
    fun hfile => hname (fileName_eq_empty_iff.mp hfile)

/-- No bytes are put under a name that is refused. -/
theorem Holds.run_put_of_refusal (h : c.Holds place kept t) (hname : name ≠ "")
    (hrefusal : c.refusal? name = some fault) (bytes : ByteArray) :
    (c.put name bytes : StateM FileTree _).run t = (.error fault, t) := by
  have hplace := h.newPlace hname
  rw [hrefusal] at hplace
  rw [put, FileTree.run_writeFile, FileTree.write, hplace]
  rfl

/-- No bytes are put under the empty name. -/
theorem run_put_empty (c : LumpCache) (bytes : ByteArray) (t : FileTree) :
    ((c.put "" bytes : StateM FileTree _).run t).2 = t := by
  rw [put, FileTree.run_writeFile]
  cases hwrite : t.write (c.path "") bytes with
  | error e => rfl
  | ok t' =>
    obtain ⟨place, hplace, _⟩ := FileTree.write_eq_ok_iff.mp hwrite
    have hname := (FileTree.name_of_newPlace_join (slash_not_mem_fileName "") hplace).2.1
    exact absurd (fileName_eq_empty_iff.mpr rfl) hname

/-- Bytes that are put under a name are kept in its file, in the place of what was there. -/
theorem Holds.run_put (h : c.Holds place kept t) (hname : name ≠ "")
    (hrefusal : c.refusal? name = none) (bytes : ByteArray) :
    ∃ t', (c.put name bytes : StateM FileTree _).run t = (.ok (), t') ∧
      c.Holds place (Function.update kept (fileName name) (some bytes)) t' := by
  have hplace := h.newPlace hname
  rw [hrefusal] at hplace
  have hfolder : ¬ t.HasFolder (place ++ [fileName name]) := by
    intro hfolder
    have hnode := h.node?_eq (fileName name)
    rw [FileTree.node?_of_hasFolder hfolder] at hnode
    cases hkept : kept (fileName name) <;> simp [hkept] at hnode
  obtain ⟨t', hwrite⟩ := FileTree.exists_write hplace hfolder bytes
  have hext := FileTree.extends_write hwrite
  refine ⟨t', by rw [put, FileTree.run_writeFile, hwrite], h.opens.of_extends hext,
    hext.hasFolder h.hasFolder, fun file => ?_⟩
  rw [FileTree.node?_write hwrite, ← (FileTree.of_newPlace hplace).1, Function.update_apply,
    h.node?_eq]
  by_cases hfile : file = fileName name
  · rw [if_pos hfile, if_pos (by rw [hfile])]
    rfl
  · rw [if_neg hfile, if_neg fun heq => hfile (List.append_singleton_inj.mp heq).2]

/-- The names whose lumps are kept in a file. -/
def KeptIn (c : LumpCache) (file name : String) : Prop :=
  name ≠ "" ∧ c.refusal? name = none ∧ fileName name = file

instance (c : LumpCache) (file : String) : DecidablePred (c.KeptIn file) :=
  fun _ => inferInstanceAs (Decidable (_ ∧ _))

/-- A put under a name that has no file changes nothing. -/
theorem Holds.run_put_of_not_keptIn (h : c.Holds place kept t) (hnone : ∀ file, ¬ c.KeptIn file name) :
    ((c.put name bytes : StateM FileTree _).run t).2 = t := by
  by_cases hname : name = ""
  · rw [hname, run_put_empty]
  cases hrefusal : c.refusal? name with
  | some fault => rw [h.run_put_of_refusal hname hrefusal]
  | none => exact absurd ⟨hname, hrefusal, rfl⟩ (hnone (fileName name))

/-- After a call a cache holds what the call put, and all else as before. -/
theorem Holds.call (h : c.Holds place kept t) (next : Call) :
    c.Holds place (fun file => (next.put? (c.KeptIn file)).or (kept file))
      ((c.call next).run t).2 := by
  cases next with
  | get name =>
    rw [LumpCache.call, Converting.run_get]
    exact h
  | put name bytes =>
    rw [files_call_put]
    by_cases hkeeps : c.KeptIn (fileName name) name
    · obtain ⟨hname, hrefusal, _⟩ := id hkeeps
      obtain ⟨t', hput, hholds⟩ := h.run_put hname hrefusal bytes
      rw [hput]
      convert hholds using 1
      funext file
      by_cases hfile : file = fileName name
      · rw [hfile, Function.update_self, Call.put?, if_pos hkeeps]
        rfl
      · rw [Function.update_of_ne hfile, Call.put?, if_neg fun hkept => hfile hkept.2.2.symm,
          Option.none_or]
    · have hnone : ∀ file, ¬ c.KeptIn file name := fun file hkept => hkeeps ⟨hkept.1, hkept.2.1, rfl⟩
      simp only [Call.put?, if_neg (hnone _), Option.none_or]
      rwa [h.run_put_of_not_keptIn hnone]

/-- After some calls a cache holds what was put last, and all else as before. -/
theorem Holds.after (h : c.Holds place kept t) (calls : List Call) :
    c.Holds place (fun file => (lastPut (c.KeptIn file) calls).or (kept file)) (c.after calls t) := by
  induction calls generalizing kept t with
  | nil => exact h
  | cons first calls ih =>
    have hrest := ih (h.call first)
    simp only [lastPut_cons, Option.or_assoc]
    exact hrest

/-- The names that have the same file as a name that is not refused are those that are alike. -/
theorem keptIn_fileName_iff (hname : name ≠ "") (hrefusal : c.refusal? name = none) :
    c.KeptIn (fileName name) other ↔ Alike other name := by
  rw [KeptIn, ← fileName_eq_iff]
  refine ⟨fun h => h.2.2, fun hfile => ⟨?_, ?_, hfile⟩⟩
  · rintro rfl
    exact hname (fileName_eq_empty_iff.mp hfile.symm)
  · rw [refusal?, hfile]
    exact hrefusal

/-- On a fresh cache a name gives the bytes that were put last under a name that is alike, after any
calls, and nothing if there was no such put. So it gives the bytes that were put last under exactly
that name as long as there was no put under another name that is alike. A name that no file can have
is refused. -/
theorem get_after_calls (hfresh : c.IsFresh t) (calls : List Call) (name : String)
    (hname : name ≠ "") :
    ((c.get name : StateM FileTree _).run (c.after calls t)).1 =
        (match c.refusal? name with
          | some fault => .error fault
          | none => .ok (lastPut (Alike · name) calls)) ∧
      (∀ bytes, ((c.put name bytes : StateM FileTree _).run (c.after calls t)).1 =
        match c.refusal? name with
        | some fault => .error fault
        | none => .ok ()) ∧
      (c.refusal? name = none →
        (∀ other bytes, .put other bytes ∈ calls → Alike other name → other = name) →
        ((c.get name : StateM FileTree _).run (c.after calls t)).1 =
          .ok (lastPut (· = name) calls)) := by
  obtain ⟨place, hopens, hup, hempty⟩ := hfresh
  have hfirst : c.Holds place (fun _ => none) t := ⟨hopens, hup, hempty⟩
  have hholds := hfirst.after calls
  have hget : ((c.get name : StateM FileTree _).run (c.after calls t)).1 =
      (match c.refusal? name with
        | some fault => .error fault
        | none => .ok (lastPut (Alike · name) calls)) := by
    rw [hholds.run_get hname]
    cases hrefusal : c.refusal? name with
    | some fault => rfl
    | none =>
      dsimp only
      rw [Option.or_none, lastPut_congr fun _ _ _ => keptIn_fileName_iff hname hrefusal]
  refine ⟨hget, fun bytes => ?_, fun hrefusal hapart => ?_⟩
  · cases hrefusal : c.refusal? name with
    | some fault => rw [hholds.run_put_of_refusal hname hrefusal]
    | none =>
      obtain ⟨_, hput, _⟩ := hholds.run_put hname hrefusal bytes
      rw [hput]
  · rw [hget, hrefusal]
    dsimp only
    rw [lastPut_congr fun other bytes hput =>
      ⟨hapart other bytes hput, fun heq => heq ▸ alike_refl other⟩]

/-- The last bytes under a name are found in a cache whose folder was just made. -/
theorem get_after_calls_new_folder :
    let calls := [.put "A" ⟨#[1]⟩, .put "B" ⟨#[2]⟩, .get "B", .put "A" ⟨#[3]⟩]
    ∃ t, (openIn "c" : StateM FileTree _).run (FileTree.empty ["work"]) = (.ok ⟨"c"⟩, t) ∧
      ((get ⟨"c"⟩ "A" : StateM FileTree _).run (after ⟨"c"⟩ calls t)).1 = .ok (some ⟨#[3]⟩) := by
  intro calls
  have hbase : (FileTree.empty ["work"]).OpensAt "" ["work"] := ⟨by decide, Or.inl ⟨rfl, rfl⟩⟩
  have hname : IsName "c" := by decide +kernel
  obtain ⟨t, hrun, hfresh⟩ := isFresh_of_openIn hbase hname (by decide) (by decide +kernel)
    (fun below => by simp [FileTree.node?, FileTree.empty])
  rw [show Path.join "" "c" = "c" by decide +kernel] at hrun hfresh
  have hapart : ∀ other bytes, .put other bytes ∈ calls → Alike other "A" → other = "A" := by
    intro other bytes hput halike
    have hother : other = "A" ∨ other = "B" := by
      simp only [calls, List.mem_cons, Call.put.injEq, reduceCtorEq, List.not_mem_nil] at hput
      tauto
    rcases hother with rfl | rfl
    · rfl
    · exact absurd halike (by decide)
  refine ⟨t, hrun, ?_⟩
  rw [(get_after_calls hfresh calls "A" (by decide)).2.2 (by decide +kernel) hapart]
  decide +kernel

/-- Bytes that were put under one name show up under another one. -/
theorem put_shows_under_other_name :
    let t := ((openIn "c" : StateM FileTree _).run (FileTree.empty ["work"])).2
    ((get ⟨"c"⟩ "A\\B" : StateM FileTree _).run (after ⟨"c"⟩ [.put "A/B" ⟨#[1]⟩] t)).1 =
        .ok (some ⟨#[1]⟩) ∧
      lastPut (· = "A\\B") [.put "A/B" ⟨#[1]⟩] = none := by
  decide +kernel

end LumpCache

end Interlude
