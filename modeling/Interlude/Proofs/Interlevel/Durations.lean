import Mathlib
import Interlude.Proofs.Interlevel.Fragments
import Interlude.Proofs.Interlevel.ReadBack
import Interlude.Proofs.Script.WellFormed

/-!
# Durations of the screens of scripts

A number of tics in a script has two digits at most, so that the frames of its screen are shown for less
than three seconds. All their durations are therefore finite, and a document of such a screen is JSON
that reads back as the screen.
-/

namespace Interlude

namespace Script

/-! ### Tics -/

/-- A drawing that does not move, or the patches of which are shown for few tics. -/
def HasFewTics (d : Drawing) : Prop :=
  ∀ tics once, d.motion = .moving tics once → tics < 100

/-- The drawings of a text have few tics. -/
theorem hasFewTics_ofText (name text : String) :
    ∀ d ∈ (ofText name text).drawings, HasFewTics d := by
  intro d hd tics once hmotion
  have hplain := ((isPlain_ofText name text).drawings d hd).motion
  rw [Drawing.HasPlainMotion, hmotion] at hplain
  exact Nat.lt_succ_of_le hplain.1

end Script

namespace Interlevel

/-! ### Seconds -/

/-- Few tics are a finite number of seconds. -/
theorem isFinite_seconds {tics : Nat} (h : tics < 100) : (Frame.seconds tics).isFinite = true := by
  have hall : ∀ n < 100, (Frame.seconds n).isFinite = true := by decide +kernel
  exact hall tics h

/-- An image that stays has a finite duration, which is zero. -/
theorem isFinite_infinite (image : String) : (Frame.infinite image).duration.isFinite = true := by
  change Binary64.zero.isFinite = true
  decide

/-- The frames of a drawing with few tics are shown for finite times. -/
theorem isFinite_patchFrames {motion : Motion} (h : ∀ tics once, motion = .moving tics once → tics < 100)
    (patches : List String) :
    ∀ frame ∈ patchFrames motion patches, frame.duration.isFinite = true := by
  have hseconds : (patchSeconds motion).isFinite = true := by
    cases motion with
    | still => exact isFinite_seconds (by decide)
    | moving tics once => exact isFinite_seconds (h tics once rfl)
  fun_induction patchFrames motion patches with
  | case1 => exact List.forall_mem_nil _
  | case2 last => exact List.forall_mem_singleton.mpr (isFinite_infinite last)
  | case3 last => exact List.forall_mem_singleton.mpr hseconds
  | case4 patch rest hrest ih => exact List.forall_mem_cons.mpr ⟨hseconds, ih⟩

/-- A pointer is shown and hidden for finite times. -/
theorem isFinite_pointerFrames (pointers : String × String) (x : Int) :
    ∀ frame ∈ pointerFrames pointers x, frame.duration.isFinite = true := by
  have hshown : pointerShown.isFinite = true := by decide +kernel
  have hhidden : pointerHidden.isFinite = true := by decide +kernel
  simp [pointerFrames, Frame.fixed, hshown, hhidden]

/-- The frames of the marks and the pointers are shown for finite times. -/
theorem isFinite_spotLayers (maps : MapTable) (s : Script) : ∀ layer ∈ spotLayers maps s,
    ∀ anim ∈ layer.anims, ∀ frame ∈ anim.frames, frame.duration.isFinite = true := by
  have hinfinite (image : String) : ∀ frame ∈ [Frame.infinite image], frame.duration.isFinite = true :=
    List.forall_mem_singleton.mpr (isFinite_infinite image)
  have hspot {gate : Nat → Condition} {picture? : MapRecord → Option String}
      {frames? : Spot → Option (List Frame)} {spot : Spot} {anim : Anim}
      (hframes : ∀ frames, frames? spot = some frames →
        ∀ frame ∈ frames, frame.duration.isFinite = true)
      (h : spotAnim? maps gate picture? frames? spot = some anim) :
      ∀ frame ∈ anim.frames, frame.duration.isFinite = true := by
    rcases spotAnim?_eq_some_iff.mp h with ⟨pic, -, rfl⟩ | ⟨-, frames, hsome, rfl⟩
    · exact List.forall_mem_singleton.mpr (isFinite_infinite pic)
    · exact hframes frames hsome
  intro layer hlayer anim hanim
  rcases List.mem_pair.mp hlayer with rfl | rfl
  · obtain ⟨spot, -, hsplat⟩ := List.mem_filterMap.mp hanim
    refine hspot (fun frames hframes => ?_) hsplat
    obtain ⟨image, -, rfl⟩ := Option.map_eq_some_iff.mp hframes
    exact List.forall_mem_singleton.mpr (isFinite_infinite image)
  · obtain ⟨spot, -, hpointer⟩ := List.mem_filterMap.mp hanim
    refine hspot (fun frames hframes => ?_) hpointer
    obtain ⟨pointers, -, rfl⟩ := Option.map_eq_some_iff.mp hframes
    exact isFinite_pointerFrames pointers spot.x

/-- All frames of the screen of a text are shown for finite times. -/
theorem hasFiniteDurations_ofScript (maps : MapTable) (music : Option String) (name text : String) :
    (ofScript maps music (.ofText name text)).HasFiniteDurations := by
  rw [Data.HasFiniteDurations, layers_ofScript]
  split
  · exact List.forall_mem_nil _
  · rw [Option.getD_some]
    refine List.forall_mem_append.mpr ⟨?_, ?_⟩
    · split
      · exact List.forall_mem_nil _
      · rw [List.forall_mem_singleton]
        intro anim hanim
        obtain ⟨drawing, hdrawing, rfl⟩ := List.mem_map.mp hanim
        exact isFinite_patchFrames (Script.hasFewTics_ofText name text drawing hdrawing) drawing.patches
    · split
      · exact List.forall_mem_nil _
      · exact isFinite_spotLayers maps _

end Interlevel

end Interlude
