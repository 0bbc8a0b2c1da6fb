import Mathlib
import Interlude.LumpTable.Sorting
import Interlude.Proofs.LumpTable.Filing

/-!
# The course of a sorting

One lump adds at most one content to the table: for its own name, at its own place, and from its own
bytes, and only if the name has no content yet. A map is filed by its name alone. Whatever holds before
every lump of an archive therefore follows from what one lump does (`Reached`).
-/

namespace Interlude.Sorting

/-- A content belongs to a place of a directory if it comes from the bytes of the lump there. -/
def FoundAt (a : Archive) (index : Nat) (content : Content) : Prop :=
  content = .map ∨ ∃ bytes, a.lump index = .ok bytes ∧ content.IsOf bytes

/-- What one lump may do to the table: nothing, or file a content for a name that has none. -/
def FilesAt (a : Archive) (index : Nat) (name : String) (t t' : LumpTable) : Prop :=
  t' = t ∨ ∃ content, t.isFiled name = false ∧ FoundAt a index content ∧
    t' = t.file index name content

variable (a : Archive) (index : Nat) (s : Sorting)

/-- A warning leaves the table as it is. -/
@[simp] theorem table_warn (w : SortWarning) : (s.warn w).table = s.table := rfl

/-- Filing concerns the table alone. -/
@[simp] theorem table_file (name : String) (content : Content) :
    (s.file index name content).table = s.table.file index name content := rfl

/-- Filing what a lump holds files a content that comes from its bytes. -/
theorem filesAt_fileLump {name : String} (hnew : s.table.isFiled name = false)
    {content : ByteArray → Option Content × Option SortWarning}
    (hcontent : ∀ bytes c, (content bytes).1 = some c → c.IsOf bytes) :
    FilesAt a index name s.table (s.fileLump a index name content).table := by
  unfold fileLump
  cases hlump : a.lump index with
  | error e => exact Or.inl rfl
  | ok bytes =>
    dsimp only
    cases hfiled : (content bytes).1 with
    | none =>
      left
      cases (content bytes).2 <;> rfl
    | some c =>
      right
      refine ⟨c, hnew, Or.inr ⟨bytes, hlump, hcontent bytes c hfiled⟩, ?_⟩
      cases (content bytes).2 <;> rfl

/-- A list of patches comes from the bytes of its lump. -/
theorem isOf_patchNamesOf (bytes : ByteArray) (c : Content) (hc : (patchNamesOf bytes).1 = some c) :
    c.IsOf bytes := by
  unfold patchNamesOf at hc
  split at hc
  · obtain rfl := Option.some.inj hc
    trivial
  · contradiction

/-- A list of textures, also a broken one, comes from the bytes of its lump. -/
theorem isOf_texturesOf (name : String) (bytes : ByteArray) (c : Content)
    (hc : (texturesOf name bytes).1 = some c) : c.IsOf bytes := by
  unfold texturesOf at hc
  split at hc
  · obtain rfl := Option.some.inj hc
    trivial
  · obtain rfl := Option.some.inj hc
    exact Content.isOf_ofBytes bytes

/-- A lump outside every range files at most one content, of its own. -/
theorem filesAt_visitOutside (name : String) (following : List LumpEntry) :
    FilesAt a index name s.table (s.visitOutside a index name following).1.table := by
  unfold visitOutside
  split
  · exact Or.inl rfl
  · rename_i hskipped
    have hnew : s.table.isFiled name = false := by
      cases hfiled : s.table.isFiled name with
      | false => rfl
      | true => simp [hfiled] at hskipped
    have hfiling (content : ByteArray → Content) (hcontent : ∀ bytes, (content bytes).IsOf bytes) :
        FilesAt a index name s.table
          (s.fileLump a index name fun bytes => (some (content bytes), none)).table :=
      filesAt_fileLump a index s hnew fun bytes c hc => Option.some.inj hc ▸ hcontent bytes
    cases Rule.of name s.patches (a.folder? index) with
    | palette => exact hfiling _ fun bytes => trivial
    | colormap => exact hfiling _ fun bytes => trivial
    | endoom => exact hfiling _ fun bytes => trivial
    | patchNames => exact filesAt_fileLump a index s hnew isOf_patchNamesOf
    | unparsed => exact Or.inl rfl
    | inFolder kind => exact hfiling _ (Content.isOf_ofRange kind)
    | openRange kind terminator => exact Or.inl rfl
    | patch => exact hfiling _ Content.isOf_ofPatch
    | mapBlock =>
      refine Or.inr ⟨.map, hnew, Or.inl rfl, ?_⟩
      dsimp only
      split <;> rfl
    | texture => exact filesAt_fileLump a index s hnew (isOf_texturesOf name)
    | other => exact hfiling _ Content.isOf_ofBytes

/-- A lump in a range files at most one content, of its own. -/
theorem filesAt_visitInside (e : LumpEntry) (kind : RangeKind) :
    FilesAt a index e.name s.table (s.visitInside a index e kind).table := by
  unfold visitInside
  split
  · exact Or.inl rfl
  · rename_i hskipped
    have hnew : s.table.isFiled e.name = false := by
      cases hfiled : s.table.isFiled e.name with
      | false => rfl
      | true => simp [hfiled] at hskipped
    split
    · exact Or.inl rfl
    · exact filesAt_fileLump a index s hnew fun bytes c hc =>
        Option.some.inj hc ▸ Content.isOf_ofRange kind bytes

/-- Whatever stands open, a lump files at most one content, of its own. -/
theorem filesAt_visit (e : LumpEntry) (following : List LumpEntry) :
    FilesAt a index e.name s.table (s.visit a index e following).1.table := by
  unfold visit
  split
  · exact filesAt_visitOutside a index s e.name following
  · rename_i range outer _
    split
    · exact Or.inl rfl
    · split
      · exact Or.inl rfl
      · exact filesAt_visitInside a index s e range.kind

/-! ### From lump to lump -/

/-- The states of the sorting of an archive, each with the place in the directory where it goes on and
the lumps from there on. -/
inductive Reached (a : Archive) : Sorting → Nat → List LumpEntry → Prop where
  | start : Reached a .start 0 a.entries
  | next {s : Sorting} {index : Nat} {e : LumpEntry} {following : List LumpEntry} :
      Reached a s index (e :: following) →
        Reached a (s.visit a index e following).1 (index + 1 + (s.visit a index e following).2)
          (following.drop (s.visit a index e following).2)

variable {a index s}

/-- The lumps that are left are those of the directory from the place on. -/
theorem Reached.rest_eq {rest : List LumpEntry} (h : Reached a s index rest) :
    rest = a.entries.drop index := by
  induction h with
  | start => rfl
  | @next s index e following _ ih =>
    have htail : following = a.entries.drop (index + 1) := by
      rw [← List.drop_drop, ← ih]
      rfl
    rw [htail, List.drop_drop]

/-- The lump that comes next is the one at the place. -/
theorem Reached.getElem? {e : LumpEntry} {following : List LumpEntry}
    (h : Reached a s index (e :: following)) : a.entries[index]? = some e := by
  have hhead := congrArg List.head? h.rest_eq
  rw [List.head?_drop] at hhead
  exact hhead.symm

/-- Going on from a state that is reached ends where the sorting of the archive ends. -/
theorem Reached.visitAll_eq {rest : List LumpEntry} (h : Reached a s index rest) :
    visitAll a s index rest = ofArchive a := by
  induction h with
  | start => rfl
  | next _ ih => rw [← ih, visitAll]

/-- Going on from a state that is reached comes to an end. -/
theorem Reached.reached_visitAll {rest : List LumpEntry} (h : Reached a s index rest) :
    ∃ last, Reached a (visitAll a s index rest) last [] := by
  fun_induction visitAll a s index rest with
  | case1 s index => exact ⟨index, h⟩
  | case2 s index e following _ _ hvisit ih =>
    have hnext := h.next
    rw [hvisit] at hnext
    exact ih hnext

/-- What has a content keeps it to the end of the sorting. -/
theorem mem_filed_visitAll {rest : List LumpEntry} {f : Filed} (hf : f ∈ s.table.filed) :
    f ∈ (visitAll a s index rest).table.filed := by
  fun_induction visitAll a s index rest with
  | case1 s index => exact hf
  | case2 s index e following s' count hvisit ih =>
    apply ih
    have hstep := filesAt_visit a index s e following
    rw [hvisit] at hstep
    rcases hstep with hsame | ⟨content, _, _, hfiled⟩
    · rwa [hsame]
    · rw [hfiled]
      exact LumpTable.mem_filed_file index content hf

/-- What holds of the contents of a table that a directory has filled up to a place: they come in
order, and each has the name and comes from the bytes of the lump at its place. -/
structure Faithful (a : Archive) (index : Nat) (t : LumpTable) : Prop where
  inOrder : t.InOrder
  below : ∀ f ∈ t.filed, f.index < index
  named : ∀ f ∈ t.filed, (a.entries[f.index]?).map LumpEntry.name = some f.name
  found : ∀ f ∈ t.filed, FoundAt a f.index f.content

/-- The table in which nothing was found is faithful. -/
theorem faithful_empty (a : Archive) : Faithful a 0 .empty where
  inOrder := List.Pairwise.nil
  below := fun _ hf => absurd hf List.not_mem_nil
  named := fun _ hf => absurd hf List.not_mem_nil
  found := fun _ hf => absurd hf List.not_mem_nil

/-- What a lump files keeps a table faithful, as far as the next lump. -/
theorem Faithful.filesAt {t t' : LumpTable} {e : LumpEntry} {next : Nat} (h : Faithful a index t)
    (he : a.entries[index]? = some e) (hnext : index < next)
    (hfiles : FilesAt a index e.name t t') : Faithful a next t' := by
  rcases hfiles with rfl | ⟨content, hnew, hfound, rfl⟩
  · exact ⟨h.inOrder, fun f hf => (h.below f hf).trans hnext, h.named, h.found⟩
  · have hfiled := LumpTable.filed_file_of_not_isFiled index content hnew
    have hmem {P : Filed → Prop} (hold : ∀ f ∈ t.filed, P f) (hlast : P ⟨index, e.name, content⟩) :
        ∀ f ∈ (t.file index e.name content).filed, P f := by
      rw [hfiled]
      intro f hf
      rcases List.mem_append.mp hf with hf | hf
      · exact hold f hf
      · exact List.mem_singleton.mp hf ▸ hlast
    refine ⟨?_, ?_, ?_, ?_⟩
    · unfold LumpTable.InOrder
      rw [hfiled]
      refine List.pairwise_append.mpr ⟨h.inOrder, List.pairwise_singleton _ _, fun f hf g hg => ?_⟩
      exact List.mem_singleton.mp hg ▸ h.below f hf
    · exact hmem (fun f hf => (h.below f hf).trans hnext) hnext
    · exact hmem h.named (by rw [he, Option.map_some])
    · exact hmem h.found hfound

/-- At every point of the sorting the table is faithful to the directory so far. -/
theorem Reached.faithful {rest : List LumpEntry} (h : Reached a s index rest) :
    Faithful a index s.table := by
  induction h with
  | start => exact faithful_empty a
  | @next s index e following hreached ih =>
    exact ih.filesAt hreached.getElem? (by omega) (filesAt_visit a index s e following)

end Interlude.Sorting
