import Mathlib
import Interlude.Conversion.Session
import Interlude.Files.Tree
import Interlude.Proofs.Conversion.Steps
import Interlude.Proofs.Files.Changes

/-!
# What a conversion reads

Reading the archive changes no file, and of the session it changes neither what is told about
pictures nor a warning that was given. To fetch a text lump, a conversion does nothing else, but for
keeping a lump that the cache does not hold.
-/

namespace Interlude

namespace Converting

variable {α : Type} {o : Options} {name : String} {w v : World} {t : FileTree}

/-! ### Parts that read -/

/-- What the session tells about pictures stays, and warnings are only added. -/
structure Quiet (s s' : Session) : Prop where
  asked_eq : s'.asked = s.asked
  written_eq : s'.written = s.written
  skipped_eq : s'.skipped = s.skipped
  warnings_subset : s.warnings ⊆ s'.warnings

/-- A session that stays as it is is quiet. -/
theorem Quiet.refl (s : Session) : Quiet s s :=
  ⟨rfl, rfl, rfl, List.Subset.refl _⟩

/-- A session that is quiet at first and then is quiet all the time. -/
theorem Quiet.trans {r s s' : Session} (h : Quiet r s) (h' : Quiet s s') : Quiet r s' :=
  ⟨h'.asked_eq.trans h.asked_eq, h'.written_eq.trans h.written_eq, h'.skipped_eq.trans h.skipped_eq,
    List.Subset.trans h.warnings_subset h'.warnings_subset⟩

/-- A session to which warnings are added is quiet. -/
theorem Quiet.warn (s : Session) (warnings : List ConversionWarning) :
    Quiet s { s with warnings := s.warnings ++ warnings } :=
  ⟨rfl, rfl, rfl, List.subset_append_left _ _⟩

/-- The archive that a conversion reads can be opened among the files, and this comes of sorting it. -/
def Opens (o : Options) (t : FileTree) (sorted : SortedArchive) : Prop :=
  ∃ data archive fallback, t.read o.archive = .ok data ∧
    Archive.ofFile (Path.extension? o.archive) data = .ok archive ∧ sorted = archive.sorted fallback

/-- A part of a conversion only reads files, and the archive only if it was not read before. -/
structure Reads (o : Options) (w v : World) : Prop where
  quiet : Quiet w.session v.session
  files_eq : v.files = w.files
  sorted_kept : ∀ sorted ∈ w.session.sorted, sorted ∈ v.session.sorted
  opened : ∀ sorted ∈ v.session.sorted, sorted ∈ w.session.sorted ∨ Opens o w.files sorted

instance : IsPreorder World (Reads o) where
  refl w := ⟨Quiet.refl w.session, rfl, fun _ h => h, fun _ h => Or.inl h⟩
  trans _ _ _ h h' := by
    refine ⟨h.quiet.trans h'.quiet, h'.files_eq.trans h.files_eq, fun sorted hsorted => ?_,
      fun sorted hsorted => ?_⟩
    · exact h'.sorted_kept sorted (h.sorted_kept sorted hsorted)
    · rcases h'.opened sorted hsorted with hsorted | hopens
      · exact h.opened sorted hsorted
      · exact Or.inr (h.files_eq ▸ hopens)

/-- What leaves the session and the files only reads. -/
theorem reads_of_files_eq (h : t = w.files) : Reads o w ⟨w.session, t⟩ := by
  subst h
  exact refl_of (Reads o) w

/-- An operation on files that leaves them only reads. -/
theorem keeps_reads_onPath {operation : StateM FileTree (Except FileFault α)}
    (h : ∀ t, (operation.run t).2 = t) (path : String) :
    Keeps (Reads o) (onPath path operation) := by
  intro w
  rw [exec_onPath]
  exact reads_of_files_eq (h w.files)

/-- Giving warnings leaves the files. -/
theorem keeps_reads_warn (warnings : List ConversionWarning) :
    Keeps (Reads o) (warn warnings : Converting (StateM FileTree) Unit) :=
  fun w => ⟨Quiet.warn w.session warnings, rfl, fun _ h => h, fun _ h => Or.inl h⟩

/-! ### The archive -/

/-- Opening an archive reads its file. -/
theorem run_openFile (path : String) (t : FileTree) :
    (Archive.openFile path : StateM FileTree (Except OpenError Archive)).run t =
      (match t.read path with
        | .ok data => (Archive.ofFile (Path.extension? path) data).mapError .archive
        | .error fault => .error (.unreadable path fault), t) := by
  unfold Archive.openFile
  rw [StateT.run_bind, FileTree.run_readFile]
  cases t.read path <;> rfl

/-- Looking for the palette of archives that have none does nothing else. -/
theorem world_exec_fallbackPalette (o : Options) (w : World) :
    (exec (fallbackPalette o) w).2 = w := by
  unfold fallbackPalette
  split
  · rfl
  · rw [exec_bind, exec_onPath, FileTree.run_readFile]
    cases w.files.read _ <;> rfl

/-- An archive that was read is at hand. -/
theorem exec_lumps_of_sorted {sorted : SortedArchive} (h : w.session.sorted = some sorted) :
    exec (lumps (m := StateM FileTree) o) w = (.ok sorted, w) := by
  rw [lumps, exec_bind, exec_get]
  dsimp only
  rw [h]
  rfl

/-- An archive that was not read is opened and sorted, or nothing is done. -/
theorem exec_lumps_of_none (h : w.session.sorted = none) :
    (∃ e, exec (lumps o) w = (.error e, w)) ∨
      ∃ sorted, Opens o w.files sorted ∧ exec (lumps o) w =
        (.ok sorted, ⟨{ w.session with
          sorted := some sorted
          warnings := w.session.warnings ++ sorted.warnings.map .sorting }, w.files⟩) := by
  rw [lumps, exec_bind, exec_get]
  dsimp only
  rw [h]
  dsimp only
  rw [exec_bind, exec_lift, run_openFile]
  dsimp only
  cases hread : w.files.read o.archive with
  | error fault => exact Or.inl ⟨_, rfl⟩
  | ok data =>
    dsimp only
    cases harchive : Archive.ofFile (Path.extension? o.archive) data with
    | error e => exact Or.inl ⟨_, rfl⟩
    | ok archive =>
      dsimp only [Except.mapError]
      have hworld := world_exec_fallbackPalette o w
      rw [exec_bind]
      rcases hpalette : exec (fallbackPalette o) w with ⟨e | fallback, u⟩
      · rw [hpalette] at hworld
        obtain rfl := hworld
        exact Or.inl ⟨e, rfl⟩
      · rw [hpalette] at hworld
        obtain rfl := hworld
        exact Or.inr ⟨archive.sorted fallback, ⟨data, archive, fallback, hread, harchive, rfl⟩, rfl⟩

/-- Reading the archive only reads. -/
theorem keeps_reads_lumps (o : Options) : Keeps (Reads o) (lumps (m := StateM FileTree) o) := by
  intro w
  cases hsorted : w.session.sorted with
  | some sorted =>
    rw [exec_lumps_of_sorted hsorted]
    exact refl_of (Reads o) w
  | none =>
    rcases exec_lumps_of_none (o := o) hsorted with ⟨e, hexec⟩ | ⟨sorted, hopens, hexec⟩
    · rw [hexec]
      exact refl_of (Reads o) w
    · rw [hexec]
      refine ⟨⟨rfl, rfl, rfl, List.subset_append_left _ _⟩, rfl, ?_, ?_⟩
      · rw [hsorted]
        exact fun _ h => nomatch h
      · exact fun other hother => Or.inr (Option.some.inj hother ▸ hopens)

/-- An archive that is given was read. -/
theorem sorted_of_exec_lumps {sorted : SortedArchive}
    (h : exec (lumps (m := StateM FileTree) o) w = (.ok sorted, v)) :
    v.session.sorted = some sorted := by
  cases hsorted : w.session.sorted with
  | some old =>
    rw [exec_lumps_of_sorted hsorted] at h
    obtain ⟨hold, rfl⟩ := Prod.mk.inj h
    rw [← Except.ok.inj hold, hsorted]
  | none =>
    rcases exec_lumps_of_none (o := o) hsorted with ⟨e, hexec⟩ | ⟨new, -, hexec⟩
    · rw [hexec] at h
      cases (Prod.mk.inj h).1
    · rw [hexec] at h
      obtain ⟨hnew, rfl⟩ := Prod.mk.inj h
      rw [Except.ok.inj hnew]

/-- Looking for a text lump in the archive only reads. -/
theorem keeps_reads_archivedText (o : Options) (key : String) :
    Keeps (Reads o) (archivedText (m := StateM FileTree) o key) :=
  keeps_bind (keeps_reads_lumps o) fun _ => keeps_pure _

/-! ### Text lumps -/

/-- The path of the file that keeps a lump. -/
def cachePath (o : Options) (name : String) : String :=
  LumpCache.path ⟨o.cacheFolder⟩ (Text.upper name)

/-- What was found in the cache when a file of it was read: a file that is missing is no fault. -/
def foundIn : Except FileFault ByteArray → Except FileFault (Option ByteArray)
  | .ok bytes => .ok (some bytes)
  | .error .missing => .ok none
  | .error fault => .error fault

/-- Nothing is found only where a file is missing. -/
theorem foundIn_eq_none_iff {result : Except FileFault ByteArray} :
    foundIn result = .ok none ↔ result = .error .missing := by
  rcases result with fault | bytes
  · cases fault <;> simp [foundIn]
  · simp [foundIn]

/-- Bytes are found where a file with them is. -/
theorem foundIn_eq_some_iff {result : Except FileFault ByteArray} {bytes : ByteArray} :
    foundIn result = .ok (some bytes) ↔ result = .ok bytes := by
  rcases result with fault | bytes
  · cases fault <;> simp [foundIn]
  · simp [foundIn]

/-- Looking into the cache reads the file of the lump. -/
theorem run_get (cache : LumpCache) (key : String) (t : FileTree) :
    (cache.get key : StateM FileTree _).run t = (foundIn (t.read (cache.path key)), t) := by
  rw [LumpCache.get, StateT.run_bind, FileTree.run_readFile]
  rcases t.read (cache.path key) with fault | bytes
  · cases fault <;> rfl
  · rfl

/-- Looking into the cache for a lump reads its file. -/
theorem exec_cacheGet (o : Options) (name : String) (w : World) :
    exec (onPath o.cacheFolder (LumpCache.get ⟨o.cacheFolder⟩ (Text.upper name))) w =
      ((foundIn (w.files.read (cachePath o name))).mapError (.file o.cacheFolder), w) := by
  rw [exec_onPath, run_get, cachePath]

/-- Looking into the cache gives what was found when the file of the lump was read. -/
theorem exec_cacheGet_eq_ok {found : Option ByteArray}
    (h : exec (onPath o.cacheFolder (LumpCache.get ⟨o.cacheFolder⟩ (Text.upper name))) w =
      (.ok found, v)) :
    foundIn (w.files.read (cachePath o name)) = .ok found ∧ v = w := by
  obtain ⟨hfound, hworld⟩ := of_exec_onPath h
  rw [run_get, ← cachePath] at hfound hworld
  dsimp only at hfound
  exact ⟨hfound, hworld⟩

/-- What is kept by reading, and by keeping a lump that the cache does not hold, is kept by fetching
it. -/
theorem keeps_textLump {R : World → World → Prop} [IsPreorder World R]
    (hreads : ∀ {w v}, Reads o w v → R w v)
    (hput : ∀ {w : World}, w.files.read (cachePath o name) = .error .missing → ∀ bytes,
      R w (exec (onPath o.cacheFolder
        (LumpCache.put ⟨o.cacheFolder⟩ (Text.upper name) bytes)) w).2) :
    Keeps R (textLump (m := StateM FileTree) o name) := by
  unfold textLump
  split
  · refine keeps_bind_of_exec ?_ ?_
    · exact (keeps_reads_onPath (fun t => by rw [run_get]) _).mono hreads
    intro w cached v hget
    cases cached with
    | some bytes => exact keeps_pure _ v
    | none =>
      obtain ⟨hnone, rfl⟩ := exec_cacheGet_eq_ok hget
      have hmissing := foundIn_eq_none_iff.mp hnone
      rw [exec_bind]
      rcases hexec : exec (archivedText o (Text.upper name)) v with ⟨_ | found, u⟩
      · exact hreads ((keeps_reads_archivedText o _).of_exec hexec)
      · have hread := (keeps_reads_archivedText o _).of_exec hexec
        refine trans_of R (hreads hread) ?_
        cases found with
        | none => exact keeps_pure none u
        | some bytes =>
          rw [← hread.files_eq] at hmissing
          have hkept := hput hmissing bytes
          rwa [← world_exec_bind_pure _ (some bytes)] at hkept
  · exact (keeps_reads_archivedText o _).mono hreads

/-- Fetches a text lump and gives what is made of its text, with warnings about it. -/
def readText (o : Options) (name : String) (made : Option String → α × List ConversionWarning) :
    Converting (StateM FileTree) α := do
  let found ← textLump o name
  let (a, warnings) := made (found.map fun bytes => Utf8.text bytes.data.toList)
  warn warnings
  return a

/-- The table that is made of the text with the maps. -/
def madeMaps (o : Options) : Option String → MapTable × List ConversionWarning
  | some text => (.ofText text o.order, (MapTable.faultOfText text).toList.map .mapinfo)
  | none => (⟨[]⟩, [.noMapLump o.mapLump])

/-- The script that is made of a text. -/
def madeScript (name : String) : Option String → Script × List ConversionWarning
  | some text => (.ofText name text, (Script.warningsOf text).map (.script name))
  | none => (.ofText name "", [.noScript name])

/-- The table of the maps is read from a text lump. -/
theorem readMaps_eq (o : Options) : readMaps o = readText o o.mapLump (madeMaps o) := by
  unfold readMaps readText
  congr 1
  funext found
  cases found <;> rfl

/-- A script is read from a text lump. -/
theorem readScript_eq (o : Options) (name : String) :
    readScript o name = readText o name (madeScript name) := by
  unfold readScript readText
  congr 1
  funext found
  cases found <;> rfl

/-- What is kept by reading and by fetching a text lump is kept by making something of its text. -/
theorem keeps_readText {R : World → World → Prop} [IsPreorder World R]
    {made : Option String → α × List ConversionWarning} (hreads : ∀ {w v}, Reads o w v → R w v)
    (hlump : Keeps R (textLump (m := StateM FileTree) o name)) : Keeps R (readText o name made) := by
  refine keeps_bind hlump fun found => ?_
  exact keeps_bind ((keeps_reads_warn _).mono hreads) fun _ => keeps_pure _

end Converting

end Interlude
