import Mathlib
import Interlude.Interlevel.Lowering

/-!
# What sharing fragments leaves alone

A frame is known by its image, its kind and its duration, and not by its longest duration. Every frame
of a screen has the same longest duration, so the frame that is kept for it is the frame itself, and
so it is with lists of conditions. Hence a screen that is made of kept fragments is the screen that
its script and its table describe.
-/

namespace Interlude.Interlevel

variable {α β : Type} {maps : MapTable} {s : Script} {spot : Spot}

/-- Frames that are known by the same are equal if their longest durations are. -/
theorem Frame.eq_of_key {f g : Frame} (hkey : f.key = g.key) (hmax : f.maxDuration = g.maxDuration) :
    f = g := by
  cases f
  cases g
  simp_all [Frame.key]

namespace Fragments

/-! ### What is kept -/

/-- What is kept under a key, and what was kept before, has a property that relates it to its key. -/
theorem keep_induction {κ ν : Type} [BEq κ] [LawfulBEq κ] {P : κ → ν → Prop} {kept : List (κ × ν)}
    (hkept : ∀ k v, kept.lookup k = some v → P k v) (key : κ) (value : ν) (hvalue : P key value) :
    P key (keep key value kept).1 ∧
      ∀ k v, (keep key value kept).2.lookup k = some v → P k v := by
  unfold keep
  split
  · rename_i shared hshared
    exact ⟨hkept key shared hshared, hkept⟩
  · refine ⟨hvalue, fun k v h => ?_⟩
    rw [List.lookup_cons] at h
    split at h
    · rename_i hk
      rw [beq_iff_eq.mp hk, ← Option.some.inj h]
      exact hvalue
    · exact hkept k v h

/-- What is kept for a fragment is the fragment. -/
structure IsFaithful (kept : Fragments) : Prop where
  frames : ∀ key f, kept.frames.lookup key = some f → f.key = key ∧ f.maxDuration = 0
  conditions : ∀ key conditions, kept.conditions.lookup key = some conditions → conditions = key

/-- Nothing is kept at first. -/
theorem isFaithful_empty : empty.IsFaithful where
  frames := fun _ _ h => nomatch h
  conditions := fun _ _ h => nomatch h

/-- Making something gives a value, whatever is kept, and keeps fragments for themselves only. -/
def Makes (x : StateM Fragments α) (a : α) : Prop :=
  ∀ kept : Fragments, kept.IsFaithful → (x.run kept).1 = a ∧ (x.run kept).2.IsFaithful

/-- A value makes itself. -/
theorem makes_pure (a : α) : Makes (pure a) a :=
  fun _ h => ⟨rfl, h⟩

/-- What comes second is made of what the first makes. -/
theorem Makes.bind {x : StateM Fragments α} {f : α → StateM Fragments β} {a : α} {b : β}
    (hx : Makes x a) (hf : Makes (f a) b) : Makes (x >>= f) b := by
  intro kept h
  obtain ⟨hvalue, hkept⟩ := hx kept h
  have hrest := hf _ hkept
  rwa [← hvalue] at hrest

/-- The items of a list are made one after the other. -/
theorem makes_mapM {items : List α} {f : α → StateM Fragments β} {g : α → β}
    (h : ∀ a ∈ items, Makes (f a) (g a)) : Makes (items.mapM f) (items.map g) := by
  induction items with
  | nil => exact makes_pure []
  | cons a items ih =>
    rw [List.mapM_cons]
    refine (h a List.mem_cons_self).bind ?_
    exact (ih fun c hc => h c (List.mem_cons_of_mem a hc)).bind (makes_pure _)

/-- What may be missing is made if it is there. -/
theorem makes_option_mapM {item : Option α} {f : α → StateM Fragments α}
    (h : ∀ a ∈ item, Makes (f a) a) : Makes (item.mapM f) item := by
  cases item with
  | none => exact makes_pure none
  | some a =>
    intro kept hkept
    obtain ⟨hvalue, hrest⟩ := h a rfl kept hkept
    exact ⟨congrArg some hvalue, hrest⟩

/-! ### Fragments -/

/-- A frame without a longest duration is what is kept for it. -/
theorem makes_frame {f : Frame} (hf : f.maxDuration = 0) : Makes (frame f) f := by
  intro kept h
  obtain ⟨⟨hkey, hmax⟩, hframes⟩ := keep_induction h.frames f.key f ⟨rfl, hf⟩
  exact ⟨Frame.eq_of_key hkey (hmax.trans hf.symm), hframes, h.conditions⟩

/-- A list of conditions is what is kept for it. -/
theorem makes_conditionList {conditions : List Condition} (h : conditions ≠ []) :
    Makes (conditionList conditions) (some conditions) := by
  intro kept hkept
  obtain ⟨hvalue, hlists⟩ := keep_induction hkept.conditions conditions conditions rfl
  rw [conditionList, if_neg (by simpa using h)]
  exact ⟨congrArg some hvalue, hkept.frames, hlists⟩

/-- An animation of which no frame has a longest duration, and which has no empty list of conditions. -/
structure IsPlain (a : Anim) : Prop where
  frames : ∀ f ∈ a.frames, f.maxDuration = 0
  conditions : a.conditions ≠ some []

/-- A plain animation is made of kept fragments as it is. -/
theorem makes_anim {a : Anim} (h : IsPlain a) : Makes (anim a) a := by
  have hframes : Makes (a.frames.mapM frame) (a.frames.map id) :=
    makes_mapM fun f hf => makes_frame (h.frames f hf)
  rw [List.map_id] at hframes
  have hconditions : Makes (conditionList (a.conditions.getD [])) a.conditions := by
    cases hlist : a.conditions with
    | none => exact makes_pure none
    | some conditions =>
      refine makes_conditionList fun hnil => h.conditions ?_
      rw [hlist, ← hnil]
      rfl
  exact hframes.bind (hconditions.bind (makes_pure a))

/-! ### Screens -/

/-- The frames of patches have no longest duration. -/
theorem maxDuration_patchFrames (motion : Motion) (patches : List String) :
    ∀ f ∈ patchFrames motion patches, f.maxDuration = 0 := by
  fun_induction patchFrames motion patches with
  | case1 => exact List.forall_mem_nil _
  | case2 last => exact List.forall_mem_singleton.mpr rfl
  | case3 last => exact List.forall_mem_singleton.mpr rfl
  | case4 patch rest hrest ih => exact List.forall_mem_cons.mpr ⟨rfl, ih⟩

/-- The animation of a drawing is plain. -/
theorem isPlain_drawingAnim (maps : MapTable) (d : Drawing) : IsPlain (drawingAnim maps d) where
  frames := maxDuration_patchFrames d.motion d.patches
  conditions := by
    rw [drawingAnim]
    cases d.guard <;> simp [guardConditions]

/-- The animation for a spot is plain if the frames for it have no longest duration. -/
theorem isPlain_spotAnim? {gate : Nat → Condition} {picture? : MapRecord → Option String}
    {frames? : Spot → Option (List Frame)} {a : Anim}
    (hframes : ∀ frames, frames? spot = some frames → ∀ f ∈ frames, f.maxDuration = 0)
    (h : spotAnim? maps gate picture? frames? spot = some a) : IsPlain a := by
  rcases spotAnim?_eq_some_iff.mp h with ⟨pic, -, rfl⟩ | ⟨-, frames, hsome, rfl⟩
  · exact ⟨List.forall_mem_singleton.mpr rfl, by simp⟩
  · exact ⟨hframes frames hsome, by simp⟩

/-- A mark of a visited map is plain. -/
theorem isPlain_splatAnim? {splat : Option String} {a : Anim}
    (h : splatAnim? maps splat spot = some a) : IsPlain a := by
  refine isPlain_spotAnim? (fun frames hframes => ?_) h
  obtain ⟨image, -, rfl⟩ := Option.map_eq_some_iff.mp hframes
  exact List.forall_mem_singleton.mpr rfl

/-- A pointer is plain. -/
theorem isPlain_pointerAnim? {pointers : Option (String × String)} {a : Anim}
    (h : pointerAnim? maps pointers spot = some a) : IsPlain a := by
  refine isPlain_spotAnim? (fun frames hframes => ?_) h
  obtain ⟨images, -, rfl⟩ := Option.map_eq_some_iff.mp hframes
  exact List.forall_mem_cons.mpr ⟨rfl, List.forall_mem_singleton.mpr rfl⟩

/-- The layer of the drawings is made as it is described. -/
theorem makes_makeDrawingLayers (maps : MapTable) (s : Script) :
    Makes (makeDrawingLayers maps s) (if s.drawings.isEmpty then [] else [drawingLayer maps s]) := by
  unfold makeDrawingLayers
  split
  · exact makes_pure []
  · exact (makes_mapM fun d _ => makes_anim (isPlain_drawingAnim maps d)).bind (makes_pure _)

/-- The layers of the spots are made as they are described. -/
theorem makes_makeSpotLayers (maps : MapTable) (s : Script) :
    Makes (makeSpotLayers maps s) (if s.spots.isEmpty then [] else spotLayers maps s) := by
  have hmarks : Makes (s.spots.mapM (makeMarks maps s))
      (s.spots.map fun spot => (splatAnim? maps s.splat spot, pointerAnim? maps s.pointers spot)) := by
    refine makes_mapM fun spot _ => ?_
    refine (makes_option_mapM fun a ha => makes_anim (isPlain_splatAnim? ha)).bind ?_
    refine (makes_option_mapM fun a ha => makes_anim (isPlain_pointerAnim? ha)).bind ?_
    exact makes_pure _
  unfold makeSpotLayers
  split
  · exact makes_pure []
  · refine hmarks.bind ((makes_conditionList (List.cons_ne_nil _ _)).bind ?_)
    rw [List.filterMap_map, List.filterMap_map]
    exact makes_pure _

/-- The layers of a script are made as they are described. -/
theorem makes_makeLayers (maps : MapTable) (s : Script) :
    Makes (makeLayers maps s) (layersOf maps s) :=
  (makes_makeDrawingLayers maps s).bind ((makes_makeSpotLayers maps s).bind (makes_pure _))

end Fragments

/-- The layers of a screen are those of its script, as if no fragment was shared. -/
theorem layers_ofScript (maps : MapTable) (music : Option String) (s : Script) :
    (ofScript maps music s).layers = if s.isEmpty then none else some (layersOf maps s) := by
  have hlayers := (Fragments.makes_makeLayers maps s .empty Fragments.isFaithful_empty).1
  rw [ofScript, hlayers]

end Interlude.Interlevel
