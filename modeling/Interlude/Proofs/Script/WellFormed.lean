import Mathlib
import Interlude.Proofs.Script.ReadBack
import Interlude.Proofs.Script.Spots

/-!
# What is read from texts

Whatever a text holds, its script is well formed: a name is a word of up to eight capital letters,
digits and underscores, so that it can name a file; the place of a drawing and its tics have few
digits; an animation has a patch. A line of a text is in upper case, a directive has the forms of its
line, and following a directive keeps what is well formed so. Hence every script that is read is one
that can be written.
-/

namespace Interlude

/-! ### Well-formed scripts -/

/-- One to eight capital letters, digits and underscores. -/
def IsCapitalName (name : String) : Prop :=
  1 ≤ name.toList.length ∧ name.toList.length ≤ 8 ∧
    ∀ c ∈ name.toList, 'A' ≤ c ∧ c ≤ 'Z' ∨ '0' ≤ c ∧ c ≤ '9' ∨ c = '_'

/-- A guard is plain if the map that it names has a name. -/
theorem Guard.isPlain_iff {guard : Guard} : guard.IsPlain ↔ ∀ map ∈ guard.map?, Script.IsName map := by
  cases guard with
  | _ => simp [IsPlain, map?]

/-- The number of tics for which each patch is shown. -/
def Motion.tics? : Motion → Option Nat
  | .still => none
  | .moving tics _ => some tics

/-- Whether the patches are shown only once. -/
def Motion.isOnce : Motion → Bool
  | .still => false
  | .moving _ once => once

/-- A drawing with a patch, on the screen. Without tics it is one picture, else it has few of them. -/
structure Drawing.IsWellFormed (drawing : Drawing) : Prop where
  patches_ne_nil : drawing.patches ≠ []
  x_range : 0 ≤ drawing.x ∧ drawing.x ≤ 999
  y_range : 0 ≤ drawing.y ∧ drawing.y ≤ 999
  of_tics_eq_none : drawing.motion.tics? = none →
    drawing.patches.length = 1 ∧ drawing.motion.isOnce = false
  tics_le : ∀ tics ∈ drawing.motion.tics?, tics ≤ 99

namespace Script

open Text (IsUpper isWordChar)

variable {s : Script} {d : Directive} {guard : Guard} {spot other : Spot} {drawing : Drawing}
  {word name text : String} {ws rest : List String} {line : List Char} {lines : List (List Char)}
  {most n : Nat} {x : Int}

/-- The names in a script: those of pictures and those of maps. -/
def names (s : Script) : List String :=
  s.background.toList ++ s.splat.toList ++ s.pointers.toList.flatMap (fun (l, r) => [l, r]) ++
    s.spots.map (·.map) ++ s.drawings.flatMap fun d => d.guard.map?.toList ++ d.patches

/-! ### Words -/

/-- The lines of a text are read in upper case. -/
theorem isUpper_of_mem_cleanLines (h : line ∈ cleanLines text) : IsUpper line := by
  obtain ⟨whole, hwhole, rfl⟩ := List.mem_map.mp h
  apply (Text.isUpper_map_toUpper text.toList).of_subset
  exact List.Subset.trans (Text.trim_subset _)
    (List.Subset.trans (Text.beforeComment_subset whole) (Text.subset_of_mem_lines hwhole))

/-- The words of a line in upper case are in upper case. -/
theorem isUpper_of_mem_words (hline : IsUpper line) : ∀ word ∈ words line, IsUpper word.toList := by
  intro word hword
  obtain ⟨piece, hpiece, rfl⟩ := List.mem_map.mp hword
  rw [String.toList_ofList]
  exact hline.of_subset (Text.subset_of_mem_splitOnP (List.mem_of_mem_filter hpiece))

/-- A name is the word that it is read from. -/
theorem isName_of_name? (hword : IsUpper word.toList) (h : name? word = some name) :
    IsName name := by
  obtain ⟨_, hname⟩ := Option.ite_none_right_eq_some.mp h
  obtain rfl := Option.some.inj hname
  exact ⟨h, hword⟩

/-- A name has capital letters, digits and underscores. -/
theorem isCapitalName_of_isName (h : IsName name) : IsCapitalName name := by
  obtain ⟨hname, hupper⟩ := h
  obtain ⟨⟨hne, hlength, hall⟩, _⟩ := Option.ite_none_right_eq_some.mp hname
  refine ⟨List.length_pos_iff.mpr hne, hlength, fun c hc => ?_⟩
  have hletter : c.isUpper = c.isAlpha := by
    rw [← Char.isUpper_toUpper_eq_isAlpha, hupper c hc]
  have hword : isWordChar c = true := List.all_eq_true.mp hall c hc
  simp only [isWordChar, Char.isAlphanum, ← hletter, Char.isUpper, Char.isDigit, Bool.or_eq_true,
    Bool.and_eq_true, decide_eq_true_eq, beq_iff_eq, or_assoc] at hword
  exact hword

/-- A number has no more digits than it may have. -/
theorem lt_of_number? (h : number? most word = some n) : n < 10 ^ most := by
  obtain ⟨⟨-, hlength, hdigits⟩, hn⟩ := Option.ite_none_right_eq_some.mp h
  rw [← Option.some.inj hn]
  calc Decimal.ofDigits word.toList
      < 10 ^ word.toList.length := Decimal.ofDigits_lt (List.all_eq_true.mp hdigits)
    _ ≤ 10 ^ most := Nat.pow_le_pow_right (by decide) hlength

theorem le_of_coordinate? (h : coordinate? word = some n) : n ≤ 999 :=
  Nat.le_of_lt_succ (lt_of_number? h)

theorem le_of_tics? (h : tics? word = some n) : n ≤ 99 :=
  Nat.le_of_lt_succ (lt_of_number? h)

/-- The coordinate of a spot has a place in 32 bits. -/
theorem bounds_of_spotCoordinate? (h : spotCoordinate? word = some x) :
    -2 ^ 31 ≤ x ∧ x < 2 ^ 31 := by
  have hrange {y : Int} (h : inRange y = some x) : -2 ^ 31 ≤ x ∧ x < 2 ^ 31 := by
    obtain ⟨⟨hlow, hhigh⟩, hx⟩ := Option.ite_none_right_eq_some.mp h
    rw [← Option.some.inj hx]
    exact ⟨hlow, Int.lt_of_le_sub_one hhigh⟩
  unfold spotCoordinate? at h
  split at h
  · obtain rfl := Option.some.inj h
    decide
  all_goals
    obtain ⟨_, -, h⟩ := Option.bind_eq_some_iff.mp h
    exact hrange h

/-! ### Lines -/

/-- A directive with names in upper case and numbers of few digits. -/
def Directive.IsPlain : Directive → Prop
  | .background name => IsName name
  | .splat name => IsName name
  | .pointer left right => IsName left ∧ IsName right
  | .spots => True
  | .picture guard x y patch => guard.IsPlain ∧ x ≤ 999 ∧ y ≤ 999 ∧ IsName patch
  | .animation guard x y tics _ => guard.IsPlain ∧ x ≤ 999 ∧ y ≤ 999 ∧ tics ≤ 99

/-- A guard that is read names a map in upper case, and leaves words in upper case. -/
theorem isPlain_of_guard? (hws : ∀ word ∈ ws, IsUpper word.toList)
    (h : guard? ws = some (guard, rest)) :
    guard.IsPlain ∧ ∀ word ∈ rest, IsUpper word.toList := by
  have hone {map : String} {rest' : List String} (make : String → Guard)
      (hmake : ∀ name, IsName name → (make name).IsPlain)
      (hmap : ∀ word ∈ map :: rest', IsUpper word.toList)
      (h : (do return (make (← name? map), rest')) = some (guard, rest)) :
      guard.IsPlain ∧ ∀ word ∈ rest, IsUpper word.toList := by
    obtain ⟨name, hname, h⟩ := Option.bind_eq_some_iff.mp h
    obtain ⟨rfl, rfl⟩ := Prod.mk.inj (Option.some.inj h)
    rw [List.forall_mem_cons] at hmap
    exact ⟨hmake name (isName_of_name? hmap.1 hname), hmap.2⟩
  unfold guard? at h
  split at h
  · exact hone .entering (fun _ hname => hname) (List.forall_mem_cons.mp hws).2 h
  · exact hone .leaving (fun _ hname => hname) (List.forall_mem_cons.mp hws).2 h
  · exact hone .visited (fun _ hname => hname) (List.forall_mem_cons.mp hws).2 h
  · obtain ⟨_, -, h⟩ := Option.bind_eq_some_iff.mp h
    have hmap := (List.forall_mem_cons.mp (List.forall_mem_cons.mp hws).2).2
    exact hone .entering (fun _ hname => hname) hmap h
  · obtain ⟨rfl, rfl⟩ := Prod.mk.inj (Option.some.inj h)
    exact ⟨trivial, hws⟩

/-- A picture or an animation that is read has few digits. -/
theorem isPlain_of_drawing? (hguard : guard.IsPlain) (hws : ∀ word ∈ ws, IsUpper word.toList)
    (h : drawing? guard ws = some d) : d.IsPlain := by
  have hanimation {x y tics : String} {once : Bool}
      (h : (do return .animation guard (← coordinate? x) (← coordinate? y) (← tics? tics) once) = some d) :
      d.IsPlain := by
    obtain ⟨_, hx, h⟩ := Option.bind_eq_some_iff.mp h
    obtain ⟨_, hy, h⟩ := Option.bind_eq_some_iff.mp h
    obtain ⟨_, htics, h⟩ := Option.bind_eq_some_iff.mp h
    obtain rfl := Option.some.inj h
    exact ⟨hguard, le_of_coordinate? hx, le_of_coordinate? hy, le_of_tics? htics⟩
  unfold drawing? at h
  split at h
  · obtain ⟨_, hx, h⟩ := Option.bind_eq_some_iff.mp h
    obtain ⟨_, hy, h⟩ := Option.bind_eq_some_iff.mp h
    obtain ⟨_, hpatch, h⟩ := Option.bind_eq_some_iff.mp h
    obtain rfl := Option.some.inj h
    exact ⟨hguard, le_of_coordinate? hx, le_of_coordinate? hy,
      isName_of_name? (hws _ (by simp)) hpatch⟩
  · exact hanimation h
  · exact hanimation h
  · contradiction

/-- The directive that a line is has the names and numbers of the line. -/
theorem isPlain_of_ofLine? (hline : IsUpper line) (h : Directive.ofLine? line = some d) :
    d.IsPlain := by
  have hws := isUpper_of_mem_words hline
  rw [Directive.ofLine?] at h
  generalize words line = ws at h hws
  unfold Directive.ofWords? at h
  split at h
  · obtain ⟨name, hname, rfl⟩ := Option.map_eq_some_iff.mp h
    exact isName_of_name? (hws _ (by simp)) hname
  · obtain ⟨name, hname, rfl⟩ := Option.map_eq_some_iff.mp h
    exact isName_of_name? (hws _ (by simp)) hname
  · obtain ⟨left, hleft, h⟩ := Option.bind_eq_some_iff.mp h
    obtain ⟨right, hright, h⟩ := Option.bind_eq_some_iff.mp h
    obtain rfl := Option.some.inj h
    exact ⟨isName_of_name? (hws _ (by simp)) hleft, isName_of_name? (hws _ (by simp)) hright⟩
  · obtain rfl := Option.some.inj h
    trivial
  · obtain ⟨⟨guard, rest⟩, hguard, h⟩ := Option.bind_eq_some_iff.mp h
    obtain ⟨hplain, hrest⟩ := isPlain_of_guard? hws hguard
    exact isPlain_of_drawing? hplain hrest h

/-- A spot that is read can be written. -/
theorem isPlain_of_spot? (hline : IsUpper line) (h : spot? line = some spot) : spot.IsPlain := by
  have hws := isUpper_of_mem_words hline
  unfold spot? at h
  split at h
  · rename_i map x y hwords
    rw [hwords] at hws
    obtain ⟨_, hmap, h⟩ := Option.bind_eq_some_iff.mp h
    obtain ⟨_, hx, h⟩ := Option.bind_eq_some_iff.mp h
    obtain ⟨_, hy, h⟩ := Option.bind_eq_some_iff.mp h
    obtain rfl := Option.some.inj h
    exact
      { map := isName_of_name? (hws _ (by simp)) hmap
        x_range := bounds_of_spotCoordinate? hx
        y_range := bounds_of_spotCoordinate? hy }
  · contradiction

/-- A patch that is read is a name, and not the word for no patch. -/
theorem isName_of_patch? (hline : IsUpper line) (h : patch? line = some name) :
    IsName name ∧ name ≠ "BLANK" := by
  obtain ⟨word, hword, h⟩ := Option.bind_eq_some_iff.mp h
  have hname : IsName word := isName_of_name? (by rwa [String.toList_ofList]) hword
  obtain rfl := Option.some.inj h
  split
  · exact ⟨⟨rfl, by simp [IsUpper, blankPatch]⟩, by decide⟩
  · rename_i hne
    exact ⟨hname, hne⟩

/-! ### Scripts -/

/-- The script without any directive is plain. -/
theorem isPlain_empty (name : String) : (empty name).IsPlain where
  background := fun _ h => absurd h (Option.not_mem_none _)
  splat := fun _ h => absurd h (Option.not_mem_none _)
  pointers := fun _ h => absurd h (Option.not_mem_none _)
  spots := fun _ h => absurd h List.not_mem_nil
  nodup := List.nodup_nil
  drawings := fun _ h => absurd h List.not_mem_nil

/-- A plain drawing leaves a script plain. -/
theorem IsPlain.addDrawing (hs : s.IsPlain) (hdrawing : drawing.IsPlain) :
    ({ s with drawings := s.drawings ++ [drawing] } : Script).IsPlain :=
  { hs with
    drawings := by
      intro old hold
      rcases List.mem_append.mp hold with hold | hold
      · exact hs.drawings old hold
      · exact List.mem_singleton.mp hold ▸ hdrawing }

/-- Following a plain directive with lines in upper case leaves a script plain. -/
theorem IsPlain.followLines (hs : s.IsPlain) (hd : d.IsPlain)
    (hlines : ∀ line ∈ lines, IsUpper line) : (followLines s d lines).IsPlain := by
  unfold Script.followLines follow
  simp only [List.filterMap_map, Function.comp_def]
  cases d with
  | background name => exact { hs with background := fun _ h => Option.some.inj h ▸ hd }
  | splat name => exact { hs with splat := fun _ h => Option.some.inj h ▸ hd }
  | pointer left right => exact { hs with pointers := fun _ h => Option.some.inj h ▸ hd }
  | spots =>
    refine { hs with spots := ?_, nodup := nodup_foldl_setSpot hs.nodup _ }
    intro spot hspot
    rcases mem_foldl_setSpot hspot with hspot | hspot
    · exact hs.spots spot hspot
    · obtain ⟨line, hline, hspot⟩ := List.mem_filterMap.mp hspot
      exact isPlain_of_spot? (hlines line hline) hspot
  | picture guard x y patch =>
    obtain ⟨hguard, hx, hy, hpatch⟩ := hd
    exact hs.addDrawing
      { x_range := ⟨Int.natCast_nonneg x, Int.ofNat_le.mpr hx⟩
        y_range := ⟨Int.natCast_nonneg y, Int.ofNat_le.mpr hy⟩
        guard := hguard
        motion := ⟨patch, rfl⟩
        patches := fun _ h => List.mem_singleton.mp h ▸ hpatch }
  | animation guard x y tics once =>
    obtain ⟨hguard, hx, hy, htics⟩ := hd
    have hpatches : ∀ patch ∈ lines.filterMap patch?, IsName patch ∧ patch ≠ "BLANK" := by
      intro patch hpatch
      obtain ⟨line, hline, hpatch⟩ := List.mem_filterMap.mp hpatch
      exact isName_of_patch? (hlines line hline) hpatch
    dsimp only
    split
    · exact hs
    · rename_i hne
      exact hs.addDrawing
        { x_range := ⟨Int.natCast_nonneg x, Int.ofNat_le.mpr hx⟩
          y_range := ⟨Int.natCast_nonneg y, Int.ofNat_le.mpr hy⟩
          guard := hguard
          motion := ⟨htics, hne, fun h => (hpatches _ h).2 rfl⟩
          patches := fun patch h => (hpatches patch h).1 }

/-- The parts of lines in upper case are plain directives with lines in upper case. -/
theorem isPlain_of_mem_parts {parts : List Part} (h : FallsInto lines parts)
    (hlines : ∀ line ∈ lines, IsUpper line) :
    ∀ part ∈ parts, part.directive.IsPlain ∧ ∀ line ∈ part.body, IsUpper line := by
  induction h with
  | nil => exact List.forall_mem_nil _
  | passed _ _ ih => exact ih (List.forall_mem_cons.mp hlines).2
  | single hd _ _ ih =>
    obtain ⟨hline, hrest⟩ := List.forall_mem_cons.mp hlines
    exact List.forall_mem_cons.mpr
      ⟨⟨isPlain_of_ofLine? hline hd, List.forall_mem_nil _⟩, ih hrest⟩
  | closed hd _ _ _ ih =>
    simp only [List.forall_mem_cons, List.forall_mem_append] at hlines
    obtain ⟨hline, _, hbody, _, hrest⟩ := hlines
    exact List.forall_mem_cons.mpr ⟨⟨isPlain_of_ofLine? hline hd, hbody⟩, ih hrest⟩
  | unclosed hd _ _ =>
    obtain ⟨hline, hbody⟩ := List.forall_mem_cons.mp hlines
    exact List.forall_mem_singleton.mpr
      ⟨isPlain_of_ofLine? hline hd, (List.forall_mem_cons.mp hbody).2⟩
  | missing hd _ _ _ ih =>
    obtain ⟨hline, hrest⟩ := List.forall_mem_cons.mp hlines
    exact List.forall_mem_cons.mpr
      ⟨⟨isPlain_of_ofLine? hline hd, List.forall_mem_nil _⟩, ih hrest⟩

/-- Following plain parts leaves a script plain. -/
theorem IsPlain.foldl_followPart {parts : List Part} (hs : s.IsPlain)
    (hparts : ∀ part ∈ parts, part.directive.IsPlain ∧ ∀ line ∈ part.body, IsUpper line) :
    (parts.foldl followPart s).IsPlain := by
  induction parts generalizing s with
  | nil => exact hs
  | cons part parts ih =>
    obtain ⟨⟨hd, hbody⟩, hparts⟩ := List.forall_mem_cons.mp hparts
    exact ih (hs.followLines hd hbody) hparts

/-- Every script that is read can be written. -/
theorem isPlain_ofText (name text : String) : (ofText name text).IsPlain := by
  obtain ⟨parts, hparts⟩ := exists_fallsInto (cleanLines text)
  rw [ofText_eq_foldl_followPart hparts]
  exact (isPlain_empty name).foldl_followPart
    (isPlain_of_mem_parts hparts fun _ => isUpper_of_mem_cleanLines)

/-- Not even the case of its token gives a map two spots. -/
theorem eq_of_sameName_spots (hspot : spot ∈ (ofText name text).spots)
    (hother : other ∈ (ofText name text).spots) (h : Text.sameName spot.map other.map = true) :
    spot = other := by
  have hplain := isPlain_ofText name text
  have hmap := Text.eq_of_sameName (hplain.spots spot hspot).map.2 (hplain.spots other hother).map.2 h
  exact List.inj_on_of_nodup_map hplain.nodup hspot hother hmap

/-! ### What a plain script is like -/

/-- All names in a plain script are capital names. -/
theorem IsPlain.isCapitalName (hs : s.IsPlain) : ∀ word ∈ s.names, IsCapitalName word := by
  have hnames : ∀ word ∈ s.names, IsName word := by
    simp only [names, List.forall_mem_append, List.forall_mem_map, List.forall_mem_flatMap,
      Option.mem_toList]
    refine ⟨⟨⟨⟨hs.background, hs.splat⟩, ?_⟩, fun spot hspot => (hs.spots spot hspot).map⟩, ?_⟩
    · intro images himages
      simpa using hs.pointers images himages
    · intro drawing hdrawing
      have hplain := hs.drawings drawing hdrawing
      exact ⟨Guard.isPlain_iff.mp hplain.guard, hplain.patches⟩
  exact fun word hword => isCapitalName_of_isName (hnames word hword)

/-- A drawing that can be written is well formed. -/
theorem isWellFormed_of_isPlain (h : drawing.IsPlain) : drawing.IsWellFormed := by
  obtain ⟨x, y, guard, motion, patches⟩ := drawing
  have hmotion := h.motion
  cases motion with
  | still =>
    obtain ⟨patch, rfl⟩ : ∃ patch, patches = [patch] := hmotion
    exact
      { patches_ne_nil := List.cons_ne_nil patch []
        x_range := h.x_range
        y_range := h.y_range
        of_tics_eq_none := fun _ => ⟨rfl, rfl⟩
        tics_le := fun tics htics => absurd htics (Option.not_mem_none tics) }
  | moving tics once =>
    obtain ⟨htics, hne, _⟩ : tics ≤ 99 ∧ patches ≠ [] ∧ "BLANK" ∉ patches := hmotion
    exact
      { patches_ne_nil := hne
        x_range := h.x_range
        y_range := h.y_range
        of_tics_eq_none := fun hnone => absurd hnone (Option.some_ne_none tics)
        tics_le := fun _ hsome => Option.some.inj hsome ▸ htics }

/-- Every script that is read from a text is well formed. -/
theorem ofText_isWellFormed (name text : String) :
    (∀ word ∈ (ofText name text).names, IsCapitalName word) ∧
      ((ofText name text).spots.map (·.map)).Nodup ∧
        ∀ drawing ∈ (ofText name text).drawings, drawing.IsWellFormed := by
  have hplain := isPlain_ofText name text
  refine ⟨hplain.isCapitalName, hplain.nodup, fun drawing hdrawing => ?_⟩
  exact isWellFormed_of_isPlain (hplain.drawings drawing hdrawing)

end Script

end Interlude
