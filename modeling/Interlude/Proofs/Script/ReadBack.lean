import Mathlib
import Interlude.Proofs.Script.Written

/-!
# Reading back a written script

The words of a directive tell it from every other one, whatever names stand in it: its place and
the number of words decide what a word is, so a name may be a keyword. Hence every line of a written
script adds the part that it was written for, and the text reads as the script.
-/

namespace Interlude

/-! ### Scripts that can be written -/

/-- A guard that names a map by a name. -/
def Guard.IsPlain : Guard → Prop
  | .always => True
  | .entering map => Script.IsName map
  | .leaving map => Script.IsName map
  | .visited map => Script.IsName map

/-- The patches of a drawing that does not move are one patch, those of a drawing that moves are not
the word for no patch. -/
def Drawing.HasPlainMotion (drawing : Drawing) : Prop :=
  match drawing.motion with
  | .still => ∃ patch, drawing.patches = [patch]
  | .moving tics _ => tics ≤ 99 ∧ drawing.patches ≠ [] ∧ "BLANK" ∉ drawing.patches

/-- A drawing that can be written. -/
structure Drawing.IsPlain (drawing : Drawing) : Prop where
  x_range : 0 ≤ drawing.x ∧ drawing.x ≤ 999
  y_range : 0 ≤ drawing.y ∧ drawing.y ≤ 999
  guard : drawing.guard.IsPlain
  motion : drawing.HasPlainMotion
  patches : ∀ patch ∈ drawing.patches, Script.IsName patch

/-- A spot that can be written: its place has room in 32 bits. -/
structure Spot.IsPlain (spot : Spot) : Prop where
  map : Script.IsName spot.map
  x_range : -2 ^ 31 ≤ spot.x ∧ spot.x < 2 ^ 31
  y_range : -2 ^ 31 ≤ spot.y ∧ spot.y < 2 ^ 31

namespace Script

open Text (isBlank isWordChar)

variable {s : Script} {d : Directive} {guard : Guard} {drawing : Drawing} {ws : List String}
  {line : List Char} {wss items : List (List String)} {lines found : List (List Char)} {n most : Nat}
  {x : Int}

/-- A script that can be written. -/
structure IsPlain (s : Script) : Prop where
  background : ∀ name ∈ s.background, IsName name
  splat : ∀ name ∈ s.splat, IsName name
  pointers : ∀ names ∈ s.pointers, IsName names.1 ∧ IsName names.2
  spots : ∀ spot ∈ s.spots, spot.IsPlain
  nodup : (s.spots.map (·.map)).Nodup
  drawings : ∀ drawing ∈ s.drawings, drawing.IsPlain

/-! ### Numbers -/

/-- The digits of a number are a word of digits for it. -/
theorem number?_digitsOf (hmost : 0 < most) (h : n < 10 ^ most) :
    number? most (String.ofList (Decimal.digitsOf n)) = some n := by
  have hlength := (Decimal.length_digitsOf_le_iff hmost).mpr h
  have hall : (Decimal.digitsOf n).all Char.isDigit = true :=
    List.all_eq_true.mpr fun c hc => Decimal.isDigit_of_mem_digitsOf hc
  rw [number?, String.toList_ofList, if_pos ⟨Decimal.digitsOf_ne_nil n, hlength, hall⟩]
  exact congrArg some (Decimal.ofDigits_digitsOf n)

/-- A number that is not negative is written in digits alone. -/
theorem decimal_of_nonneg (h : 0 ≤ x) : decimal x = String.ofList (Decimal.digitsOf x.toNat) := by
  have hnat : x.toNat = x.natAbs := by omega
  rw [decimal, Decimal.signed, if_neg (by omega), hnat]

/-- The place of a drawing reads as itself. -/
theorem coordinate?_decimal (h : 0 ≤ x ∧ x ≤ 999) : coordinate? (decimal x) = some x.toNat := by
  rw [decimal_of_nonneg h.1]
  exact number?_digitsOf (by decide) (by omega)

/-- A number of tics reads as itself. -/
theorem tics?_decimal {tics : Nat} (h : tics ≤ 99) : tics? (decimal tics) = some tics := by
  rw [decimal_of_nonneg (Int.natCast_nonneg tics), Int.toNat_natCast]
  exact number?_digitsOf (by decide) (by omega)

/-- The digits of a number above zero have no zero before them. -/
theorem positive?_digitsOf (h : 0 < n) : positive? (Decimal.digitsOf n) = some n := by
  obtain ⟨d, rest, hdigits, hd⟩ := Decimal.exists_digitsOf_eq_cons h
  have hdigit : ∀ c ∈ d :: rest, c.isDigit = true :=
    fun c hc => Decimal.isDigit_of_mem_digitsOf (hdigits ▸ hc)
  have hrest : rest.all Char.isDigit = true :=
    List.all_eq_true.mpr fun c hc => hdigit c (List.mem_cons_of_mem d hc)
  have hread : Decimal.ofDigits (d :: rest) = n := by
    rw [← hdigits]
    exact Decimal.ofDigits_digitsOf n
  rw [hdigits, positive?]
  simp [hdigit d List.mem_cons_self, hd, hrest, hread]

/-- The place of a spot reads as itself. -/
theorem spotCoordinate?_decimal (h : -2 ^ 31 ≤ x ∧ x < 2 ^ 31) :
    spotCoordinate? (decimal x) = some x := by
  have hrange : inRange x = some x := by
    rw [inRange, if_pos]
    exact ⟨h.1, by have := h.2; change x ≤ 2 ^ 31 - 1; omega⟩
  rw [spotCoordinate?, decimal, String.toList_ofList]
  rcases lt_trichotomy x 0 with hneg | rfl | hpos
  · rw [Decimal.signed, if_pos hneg]
    have hread := positive?_digitsOf (n := x.natAbs) (by omega)
    simp only [hread, Option.bind_some]
    rw [show (-(x.natAbs : Int)) = x by omega, hrange]
  · rfl
  · rw [Decimal.signed, if_neg (by omega)]
    have hread := positive?_digitsOf (n := x.natAbs) (by omega)
    obtain ⟨d, rest, hdigits, hd⟩ := Decimal.exists_digitsOf_eq_cons (n := x.natAbs) (by omega)
    have hdigit : d.isDigit = true :=
      Decimal.isDigit_of_mem_digitsOf (hdigits ▸ List.mem_cons_self)
    rw [hdigits] at hread ⊢
    split
    · rename_i heq
      exact absurd (List.cons.inj heq).1 hd
    · rename_i heq
      rw [(List.cons.inj heq).1] at hdigit
      contradiction
    · rename_i heq
      rw [(List.cons.inj heq).1] at hdigit
      contradiction
    · rw [hread, Option.bind_some, show ((x.natAbs : Nat) : Int) = x by omega, hrange]

/-! ### Directives -/

/-- A guard before a drawing is read, whatever maps it names. -/
theorem ofWords?_append (h : WritesGuard guard ws) (hguard : guard.IsPlain) {rest : List String}
    (hrest : rest.head? = some "PIC" ∨ rest.head? = some "ANIMATION") :
    Directive.ofWords? (ws ++ rest) = drawing? guard rest := by
  obtain ⟨word, tail, rfl, hword⟩ : ∃ word tail, rest = word :: tail ∧
      (word = "PIC" ∨ word = "ANIMATION") := by
    cases rest with
    | nil => simp at hrest
    | cons word tail => exact ⟨word, tail, rfl, by simpa using hrest⟩
  cases h with
  | always =>
    rcases hword with rfl | rfl
    · simp [Directive.ofWords?, guard?]
    · simp [Directive.ofWords?, guard?]
  | entering map =>
    simp [Directive.ofWords?, guard?, hguard.1]
  | leaving map =>
    simp [Directive.ofWords?, guard?, hguard.1]
  | visited map =>
    simp [Directive.ofWords?, guard?, hguard.1]
  | travelling origin map horigin =>
    simp [Directive.ofWords?, guard?, hguard.1, horigin.1]

/-- The line of a picture is that directive. -/
theorem ofWords?_picture (h : WritesGuard guard ws) (hguard : guard.IsPlain) {x y : Int}
    (hx : 0 ≤ x ∧ x ≤ 999) (hy : 0 ≤ y ∧ y ≤ 999) {patch : String} (hpatch : IsName patch) :
    Directive.ofWords? (ws ++ ["PIC", decimal x, decimal y, patch]) =
      some (.picture guard x.toNat y.toNat patch) := by
  rw [ofWords?_append h hguard (Or.inl rfl)]
  simp [drawing?, coordinate?_decimal hx, coordinate?_decimal hy, hpatch.1]

/-- The line before the block of an animation is that directive. -/
theorem ofWords?_animation (h : WritesGuard guard ws) (hguard : guard.IsPlain) {x y : Int}
    (hx : 0 ≤ x ∧ x ≤ 999) (hy : 0 ≤ y ∧ y ≤ 999) {tics : Nat} (htics : tics ≤ 99) (once : Bool) :
    Directive.ofWords? (ws ++ ["ANIMATION", decimal x, decimal y, decimal tics] ++ onceWords once) =
      some (.animation guard x.toNat y.toNat tics once) := by
  rw [List.append_assoc, ofWords?_append h hguard (Or.inr rfl)]
  cases once with
  | false =>
    simp [onceWords, drawing?, coordinate?_decimal hx, coordinate?_decimal hy, tics?_decimal htics]
  | true =>
    simp [onceWords, drawing?, coordinate?_decimal hx, coordinate?_decimal hy, tics?_decimal htics]

/-! ### What lines of words do -/

/-- Lines that stand for two parts are two parts. -/
private theorem exists_append_of_forall₂ {wss' : List (List String)}
    (h : List.Forall₂ Holds (wss ++ wss') lines) :
    ∃ before after, List.Forall₂ Holds wss before ∧ List.Forall₂ Holds wss' after ∧
      lines = before ++ after := by
  induction wss generalizing lines with
  | nil => exact ⟨[], lines, List.Forall₂.nil, h, rfl⟩
  | cons ws wss ih =>
    cases h with
    | cons hline hrest =>
      obtain ⟨before, after, hbefore, hafter, rfl⟩ := ih hrest
      exact ⟨_ :: before, after, List.Forall₂.cons hline hbefore, hafter, rfl⟩

/-- Lines of the given words take a script to another one. -/
def Takes (s : Script) (wss : List (List String)) (s' : Script) : Prop :=
  ∀ lines, List.Forall₂ Holds wss lines →
    lines.foldl Reading.next (.outside s) = .outside s'

/-- No lines leave a script as it is. -/
theorem takes_nil (s : Script) : Takes s [] s := by
  intro lines hlines
  cases hlines
  rfl

/-- Lines after other lines go on with what these have left. -/
theorem Takes.append {s' s'' : Script} {wss' : List (List String)} (h : Takes s wss s')
    (h' : Takes s' wss' s'') : Takes s (wss ++ wss') s'' := by
  intro lines hlines
  obtain ⟨before, after, hbefore, hafter, rfl⟩ := exists_append_of_forall₂ hlines
  rw [List.foldl_append, h before hbefore, h' after hafter]

/-- A directive without a block is followed. -/
theorem takes_directive (hd : Directive.ofWords? ws = some d) (hblock : d.hasBlock = false) :
    Takes s [ws] (followLines s d []) := by
  intro lines hlines
  cases hlines with
  | @cons _ line _ _ hline hnil =>
    cases hnil
    have hread : Directive.ofLine? line = some d := by rw [Directive.ofLine?, hline.words_eq, hd]
    rw [List.foldl_cons, List.foldl_nil, Reading.next, Reading.start, hread]
    dsimp only
    rw [if_neg (by simp [hblock])]

/-- The lines of an open block are gathered. -/
theorem foldl_next_items (hitems : ∀ ws ∈ items, ws ≠ [] ∧ ws ≠ ["\x7d"])
    (hlines : List.Forall₂ Holds items lines) (found : List (List Char)) :
    lines.foldl Reading.next (.inside s d found) = .inside s d (found ++ lines) := by
  induction hlines generalizing found with
  | nil => rw [List.foldl_nil, List.append_nil]
  | @cons ws line items lines hline _ ih =>
    obtain ⟨hne, hclose⟩ := hitems ws List.mem_cons_self
    have hempty : line ≠ [] := by
      rintro rfl
      exact hne hline.words_eq.symm
    have hbrace : line ≠ ['}'] := by
      rintro rfl
      exact hclose hline.words_eq.symm
    rw [List.foldl_cons, Reading.next, if_neg hbrace, if_neg hempty,
      ih fun vs hvs => hitems vs (List.mem_cons_of_mem ws hvs), List.append_assoc,
      List.singleton_append]

/-- A directive is followed with the lines of its block. -/
theorem takes_block {s' : Script} (hd : Directive.ofWords? ws = some d) (hblock : d.hasBlock = true)
    (hitems : ∀ ws ∈ items, ws ≠ [] ∧ ws ≠ ["\x7d"])
    (hfollow : ∀ found, List.Forall₂ Holds items found → followLines s d found = s') :
    Takes s (ws :: ["\x7b"] :: (items ++ [["\x7d"]])) s' := by
  intro lines hlines
  cases hlines with
  | @cons _ line _ _ hline hlines =>
    cases hlines with
    | @cons _ brace _ _ hopen hlines =>
      obtain ⟨found, last, hfound, hlast, rfl⟩ := exists_append_of_forall₂ hlines
      cases hlast with
      | @cons _ close _ _ hclose hnil =>
        cases hnil
        have hread : Directive.ofLine? line = some d := by
          rw [Directive.ofLine?, hline.words_eq, hd]
        have hopened : brace = ['{'] := hopen.eq_of_singleton "\x7b" rfl
        have hclosed : close = ['}'] := hclose.eq_of_singleton "\x7d" rfl
        rw [List.foldl_cons, List.foldl_cons, List.foldl_append, Reading.next, Reading.start, hread]
        dsimp only
        rw [if_pos hblock, Reading.next, if_pos hopened, foldl_next_items hitems hfound,
          List.nil_append, List.foldl_cons, List.foldl_nil, Reading.next, if_pos hclosed,
          hfollow found hfound]

/-! ### The lines of a script -/

/-- Spots of different maps are put in one after the other. -/
theorem foldl_setSpot_of_nodup {spots placed : List Spot}
    (h : ((spots ++ placed).map (·.map)).Nodup) : placed.foldl setSpot spots = spots ++ placed := by
  induction placed generalizing spots with
  | nil => simp
  | cons spot placed ih =>
    have hnew : spots.any (·.map == spot.map) = false := by
      rw [List.any_eq_false]
      intro old hold heq
      rw [List.map_append, List.map_cons, List.nodup_append] at h
      exact h.2.2 old.map (List.mem_map_of_mem hold) spot.map List.mem_cons_self
        (beq_iff_eq.mp heq)
    have hsplit : spots ++ spot :: placed = spots ++ [spot] ++ placed := by simp
    rw [List.foldl_cons, setSpot, hnew, if_neg Bool.false_ne_true, hsplit]
    exact ih (hsplit ▸ h)

/-- The lines of spots read as these spots. -/
theorem filterMap_spot? {spots : List Spot} (hspots : ∀ spot ∈ spots, spot.IsPlain)
    (h : List.Forall₂ Holds (spots.map spotWords) found) : found.filterMap spot? = spots := by
  induction spots generalizing found with
  | nil =>
    cases h
    rfl
  | cons spot spots ih =>
    cases h with
    | @cons _ line _ _ hline hrest =>
      have hspot := hspots spot List.mem_cons_self
      have hread : spot? line = some spot := by
        rw [spot?, hline.words_eq, spotWords]
        simp [hspot.map.1, spotCoordinate?_decimal hspot.x_range,
          spotCoordinate?_decimal hspot.y_range]
      rw [List.filterMap_cons_some hread,
        ih (fun p hp => hspots p (List.mem_cons_of_mem spot hp)) hrest]

/-- The words that stand for patches are names. -/
theorem isName_of_mem_frames {patches frames : List String}
    (h : List.Forall₂ WritesPatch patches frames) (hpatches : ∀ patch ∈ patches, IsName patch) :
    ∀ frame ∈ frames, IsName frame := by
  induction h with
  | nil => exact fun frame hframe => absurd hframe List.not_mem_nil
  | @cons patch frame patches frames hframe _ ih =>
    intro word hword
    rcases List.mem_cons.mp hword with rfl | hword
    · rcases hframe with rfl | ⟨_, rfl⟩
      · exact hpatches word List.mem_cons_self
      · exact ⟨rfl, by simp [Text.IsUpper]⟩
    · exact ih (fun p hp => hpatches p (List.mem_cons_of_mem patch hp)) word hword

/-- The lines of patches read as these patches. -/
theorem filterMap_patch? {patches frames : List String} (h : List.Forall₂ WritesPatch patches frames)
    (hpatches : ∀ patch ∈ patches, IsName patch) (hblank : "BLANK" ∉ patches)
    (hfound : List.Forall₂ Holds (frames.map ([·])) found) : found.filterMap patch? = patches := by
  induction h generalizing found with
  | nil =>
    cases hfound
    rfl
  | @cons patch frame patches frames hframe _ ih =>
    cases hfound with
    | @cons _ line _ _ hline hrest =>
      have hread : patch? line = some patch := by
        rw [hline.eq_of_singleton frame rfl, patch?, String.ofList_toList]
        rcases hframe with rfl | ⟨rfl, rfl⟩
        · have hne : frame ≠ "BLANK" := by
            rintro rfl
            exact hblank List.mem_cons_self
          simp [(hpatches frame List.mem_cons_self).1, hne]
        · rfl
      rw [List.filterMap_cons_some hread, ih (fun p hp => hpatches p (List.mem_cons_of_mem patch hp))
        (fun hmem => hblank (List.mem_cons_of_mem patch hmem)) hrest]

/-- The lines before the drawings give everything but these. -/
theorem takes_headWords (hs : s.IsPlain) :
    Takes (.empty s.name) (headWords s)
      ⟨s.name, s.background, s.splat, s.pointers, s.spots, []⟩ := by
  have hbackground : Takes (.empty s.name) (s.background.toList.map (["BACKGROUND", ·]))
      ⟨s.name, s.background, none, none, [], []⟩ := by
    cases hname : s.background with
    | none => exact takes_nil _
    | some name =>
      refine takes_directive (d := .background name) ?_ rfl
      simp [Directive.ofWords?, (hs.background name hname).1]
  have hsplat : Takes ⟨s.name, s.background, none, none, [], []⟩ (s.splat.toList.map (["SPLAT", ·]))
      ⟨s.name, s.background, s.splat, none, [], []⟩ := by
    cases hname : s.splat with
    | none => exact takes_nil _
    | some name =>
      refine takes_directive (d := .splat name) ?_ rfl
      simp [Directive.ofWords?, (hs.splat name hname).1]
  have hpointers : Takes ⟨s.name, s.background, s.splat, none, [], []⟩
      (s.pointers.toList.map fun images => ["POINTER", images.1, images.2])
      ⟨s.name, s.background, s.splat, s.pointers, [], []⟩ := by
    cases hnames : s.pointers with
    | none => exact takes_nil _
    | some names =>
      obtain ⟨left, right⟩ := names
      refine takes_directive (d := .pointer left right) ?_ rfl
      have hplain := hs.pointers (left, right) hnames
      simp [Directive.ofWords?, hplain.1.1, hplain.2.1]
  have hspots : Takes ⟨s.name, s.background, s.splat, s.pointers, [], []⟩
      (if s.spots = [] then [] else ["SPOTS"] :: ["\x7b"] :: (s.spots.map spotWords ++ [["\x7d"]]))
      ⟨s.name, s.background, s.splat, s.pointers, s.spots, []⟩ := by
    split
    · rename_i hnone
      rw [hnone]
      exact takes_nil _
    · refine takes_block (d := .spots) rfl rfl ?_ ?_
      · intro ws hws
        obtain ⟨spot, _, rfl⟩ := List.mem_map.mp hws
        exact ⟨List.cons_ne_nil _ _, by simp [spotWords]⟩
      · intro found hfound
        have hplaced : s.spots.foldl setSpot [] = s.spots :=
          foldl_setSpot_of_nodup (by simpa using hs.nodup)
        simp only [followLines, follow, List.filterMap_map, Function.comp_def,
          filterMap_spot? hs.spots hfound, hplaced]
  exact ((hbackground.append hsplat).append hpointers).append hspots

/-- The lines of a drawing add the drawing. -/
theorem takes_drawing (h : WritesDrawing drawing wss) (hplain : drawing.IsPlain) :
    Takes s wss { s with drawings := s.drawings ++ [drawing] } := by
  cases h with
  | picture x y patch hguard =>
    have hx : (x.toNat : Int) = x := Int.toNat_of_nonneg hplain.x_range.1
    have hy : (y.toNat : Int) = y := Int.toNat_of_nonneg hplain.y_range.1
    have htakes := takes_directive (s := s) (ofWords?_picture hguard hplain.guard hplain.x_range
      hplain.y_range (hplain.patches patch List.mem_cons_self)) rfl
    simpa only [followLines, follow, hx, hy] using htakes
  | @animation guard ws patches frames x y tics once hguard hframes =>
    have hx : (x.toNat : Int) = x := Int.toNat_of_nonneg hplain.x_range.1
    have hy : (y.toNat : Int) = y := Int.toNat_of_nonneg hplain.y_range.1
    obtain ⟨htics, hne, hblank⟩ : tics ≤ 99 ∧ patches ≠ [] ∧ "BLANK" ∉ patches := hplain.motion
    refine takes_block (ofWords?_animation hguard hplain.guard hplain.x_range hplain.y_range htics once)
      rfl ?_ ?_
    · intro ws hws
      obtain ⟨frame, hframe, rfl⟩ := List.mem_map.mp hws
      refine ⟨List.cons_ne_nil _ _, fun heq => ?_⟩
      have hname := (isName_of_mem_frames hframes hplain.patches frame hframe).1
      rw [(List.cons.inj heq).1] at hname
      contradiction
    · intro found hfound
      have hread := filterMap_patch? hframes hplain.patches hblank hfound
      simp only [followLines, follow, List.filterMap_map, Function.comp_def, hread, hx, hy]

/-- The lines of drawings add the drawings in their order. -/
theorem takes_drawings {drawings : List Drawing} {written : List (List (List String))}
    (h : List.Forall₂ WritesDrawing drawings written)
    (hplain : ∀ drawing ∈ drawings, drawing.IsPlain) (s : Script) :
    Takes s written.flatten { s with drawings := s.drawings ++ drawings } := by
  induction h generalizing s with
  | nil =>
    rw [List.flatten_nil, List.append_nil]
    exact takes_nil s
  | @cons drawing wss drawings written hdrawing _ ih =>
    have hfirst := takes_drawing (s := s) hdrawing (hplain drawing List.mem_cons_self)
    have hrest := ih (fun d hd => hplain d (List.mem_cons_of_mem drawing hd))
      { s with drawings := s.drawings ++ [drawing] }
    rw [List.append_assoc, List.singleton_append] at hrest
    exact hfirst.append hrest

/-! ### Texts -/

/-- The words of a guard are solid. -/
theorem isSolid_of_writesGuard (h : WritesGuard guard ws) (hguard : guard.IsPlain) :
    ∀ word ∈ ws, IsSolid word := by
  cases h with
  | always => exact fun word hword => absurd hword List.not_mem_nil
  | entering map => simpa using ⟨by simp [IsSolid, isBlank], IsName.isSolid hguard⟩
  | leaving map => simpa using ⟨by simp [IsSolid, isBlank], IsName.isSolid hguard⟩
  | visited map => simpa using ⟨by simp [IsSolid, isBlank], IsName.isSolid hguard⟩
  | travelling origin map horigin =>
    simpa using ⟨by simp [IsSolid, isBlank], horigin.isSolid, IsName.isSolid hguard⟩

/-- Every line before the drawings has words, and these are solid. -/
theorem isSolid_of_mem_headWords (hs : s.IsPlain) :
    ∀ ws ∈ headWords s, ws ≠ [] ∧ ∀ word ∈ ws, IsSolid word := by
  have hkey : ∀ word ∈ ["BACKGROUND", "SPLAT", "POINTER", "SPOTS", "\x7b", "\x7d"],
      IsSolid word := by
    simp [IsSolid, isBlank]
  simp only [List.forall_mem_cons] at hkey
  obtain ⟨hbackground, hsplat, hpointer, hspots, hopen, hclose, _⟩ := hkey
  intro ws hws
  simp only [headWords, List.mem_append, List.mem_map, Option.mem_toList] at hws
  rcases hws with ((⟨name, hname, rfl⟩ | ⟨name, hname, rfl⟩) | ⟨names, hnames, rfl⟩) | hws
  · simpa using ⟨hbackground, (hs.background name hname).isSolid⟩
  · simpa using ⟨hsplat, (hs.splat name hname).isSolid⟩
  · obtain ⟨hleft, hright⟩ := hs.pointers names hnames
    simpa using ⟨hpointer, hleft.isSolid, hright.isSolid⟩
  · split at hws
    · exact absurd hws List.not_mem_nil
    · simp only [List.mem_cons, List.mem_append, List.mem_map, List.not_mem_nil, or_false] at hws
      rcases hws with rfl | rfl | ⟨spot, hspot, rfl⟩ | rfl
      · simpa using hspots
      · simpa using hopen
      · simpa [spotWords] using
          ⟨(hs.spots spot hspot).map.isSolid, isSolid_decimal spot.x, isSolid_decimal spot.y⟩
      · simpa using hclose

/-- Every line of a drawing has words, and these are solid. -/
theorem isSolid_of_writesDrawing (h : WritesDrawing drawing wss) (hplain : drawing.IsPlain) :
    ∀ ws ∈ wss, ws ≠ [] ∧ ∀ word ∈ ws, IsSolid word := by
  have hkey : ∀ word ∈ ["PIC", "ANIMATION", "ONCE", "\x7b", "\x7d"], IsSolid word := by
    simp [IsSolid, isBlank]
  simp only [List.forall_mem_cons] at hkey
  obtain ⟨hpicture, hanimation, honce, hopen, hclose, _⟩ := hkey
  cases h with
  | @picture guard ws x y patch hguard =>
    have hwords := isSolid_of_writesGuard hguard hplain.guard
    have hpatch := (hplain.patches patch List.mem_cons_self).isSolid
    intro vs hvs
    rw [List.mem_singleton.mp hvs]
    refine ⟨by simp, fun word hword => ?_⟩
    rcases List.mem_append.mp hword with hword | hword
    · exact hwords word hword
    · simp only [List.mem_cons, List.not_mem_nil, or_false] at hword
      rcases hword with rfl | rfl | rfl | rfl
      · exact hpicture
      · exact isSolid_decimal x
      · exact isSolid_decimal y
      · exact hpatch
  | @animation guard ws patches frames x y tics once hguard hframes =>
    have hwords := isSolid_of_writesGuard hguard hplain.guard
    intro vs hvs
    simp only [List.mem_cons, List.mem_append, List.mem_map, List.not_mem_nil, or_false] at hvs
    rcases hvs with rfl | rfl | ⟨frame, hframe, rfl⟩ | rfl
    · refine ⟨by simp, fun word hword => ?_⟩
      simp only [List.mem_append, List.mem_cons, List.not_mem_nil, or_false] at hword
      rcases hword with (hword | rfl | rfl | rfl | rfl) | hword
      · exact hwords word hword
      · exact hanimation
      · exact isSolid_decimal x
      · exact isSolid_decimal y
      · exact isSolid_decimal tics
      · cases once with
        | false => exact absurd hword List.not_mem_nil
        | true =>
          rw [List.mem_singleton.mp hword]
          exact honce
    · simpa using hopen
    · simpa using (isName_of_mem_frames hframes hplain.patches frame hframe).isSolid
    · simpa using hclose

/-- Every line of a written script has words, and these are solid. -/
theorem isSolid_of_mem_written (hs : s.IsPlain) {written : List (List (List String))}
    (h : List.Forall₂ WritesDrawing s.drawings written) :
    ∀ ws ∈ headWords s ++ written.flatten, ws ≠ [] ∧ ∀ word ∈ ws, IsSolid word := by
  intro ws hws
  rcases List.mem_append.mp hws with hws | hws
  · exact isSolid_of_mem_headWords hs ws hws
  · obtain ⟨wss, hwss, hws⟩ := List.mem_flatten.mp hws
    obtain ⟨i, hi, rfl⟩ := List.mem_iff_getElem.mp hwss
    have hlt : i < s.drawings.length := h.length_eq ▸ hi
    have hdrawing : WritesDrawing s.drawings[i] written[i] := h.get hlt hi
    exact isSolid_of_writesDrawing hdrawing (hs.drawings _ (List.getElem_mem hlt)) ws hws

/-- Every drawing that can be written has lines. -/
theorem exists_writesDrawing (hplain : drawing.IsPlain) : ∃ wss, WritesDrawing drawing wss := by
  obtain ⟨x, y, guard, motion, patches⟩ := drawing
  obtain ⟨ws, hws⟩ : ∃ ws, WritesGuard guard ws := by
    cases guard with
    | always => exact ⟨_, .always⟩
    | entering map => exact ⟨_, .entering map⟩
    | leaving map => exact ⟨_, .leaving map⟩
    | visited map => exact ⟨_, .visited map⟩
  have hmotion := hplain.motion
  cases motion with
  | still =>
    obtain ⟨patch, rfl⟩ : ∃ patch, patches = [patch] := hmotion
    exact ⟨_, .picture x y patch hws⟩
  | moving tics once =>
    have hframes : List.Forall₂ WritesPatch patches patches :=
      List.forall₂_same.mpr fun patch _ => Or.inl rfl
    exact ⟨_, .animation x y tics once hws hframes⟩

/-- Drawings that can be written have lines. -/
theorem exists_writesDrawings {drawings : List Drawing}
    (hplain : ∀ drawing ∈ drawings, drawing.IsPlain) :
    ∃ written, List.Forall₂ WritesDrawing drawings written := by
  induction drawings with
  | nil => exact ⟨[], List.Forall₂.nil⟩
  | cons drawing drawings ih =>
    obtain ⟨wss, hwss⟩ := exists_writesDrawing (hplain drawing List.mem_cons_self)
    obtain ⟨written, hwritten⟩ := ih fun d hd => hplain d (List.mem_cons_of_mem drawing hd)
    exact ⟨wss :: written, List.Forall₂.cons hwss hwritten⟩

/-- There are texts in which a script is written, and every such text reads as the script. -/
theorem ofText_of_isWritten (hs : s.IsPlain) :
    (∃ text, IsWritten s text) ∧ ∀ text, IsWritten s text → ofText s.name text = s := by
  constructor
  · obtain ⟨written, hwritten⟩ := exists_writesDrawings hs.drawings
    obtain ⟨text, htext, hupper⟩ := exists_laysOut (isSolid_of_mem_written hs hwritten)
    refine ⟨String.ofList text, written, hwritten, ?_⟩
    rw [String.toList_ofList, List.map_congr_left hupper, List.map_id']
    exact htext
  · rintro text ⟨written, hwritten, htext⟩
    have hlines : List.Forall₂ Holds (headWords s ++ written.flatten) (cleanLines text) :=
      htext.holds fun ws hws => (isSolid_of_mem_written hs hwritten ws hws).2
    have htakes : Takes (.empty s.name) (headWords s ++ written.flatten) s :=
      (takes_headWords hs).append (takes_drawings hwritten hs.drawings _)
    rw [ofText_eq_script, Reading.ofText, htakes _ hlines]
    rfl

/-- A name may be a keyword: a script whose splat is `ONCE`, with a picture for the way from one map
to another one, is read from a text in mixed case. -/
theorem ofText_of_isWritten_keyword :
    let s : Script := { Script.empty "INTERA" with
      splat := some "ONCE", drawings := [⟨10, 20, .entering "MAP02", .still, ["PIC"]⟩] }
    let text := "Splat \tOnce\r\n IfTravelling MAP01 map02\tPic 10 20 Pic"
    s.IsPlain ∧ IsWritten s text ∧ ofText s.name text = s := by
  intro s text
  have hname : ∀ name ∈ ["ONCE", "MAP01", "MAP02", "PIC"], IsName name := by
    simp [IsName, name?, Text.IsUpper, isWordChar]
  simp only [List.forall_mem_cons] at hname
  obtain ⟨honce, horigin, hmap, hpic, _⟩ := hname
  have hdrawing : Drawing.IsPlain ⟨10, 20, .entering "MAP02", .still, ["PIC"]⟩ :=
    { x_range := by decide
      y_range := by decide
      guard := hmap
      motion := ⟨"PIC", rfl⟩
      patches := fun patch h => List.mem_singleton.mp h ▸ hpic }
  have hplain : s.IsPlain :=
    { background := fun name h => by cases h
      splat := fun name h => Option.some.inj h ▸ honce
      pointers := fun names h => by cases h
      spots := fun spot h => by cases h
      nodup := List.nodup_nil
      drawings := fun drawing h => List.mem_singleton.mp h ▸ hdrawing }
  have hgap : IsGap [] ∧ IsGap [' '] ∧ IsGap ['\t'] := by simp [IsGap]
  obtain ⟨hnil, hspace, htab⟩ := hgap
  have hwritten : IsWritten s text := by
    refine ⟨[_], List.Forall₂.cons (.picture 10 20 "PIC" (.travelling "MAP01" "MAP02" horigin))
      List.Forall₂.nil, ?_⟩
    have hfirst : Spreads ["SPLAT", "ONCE"] _ :=
      .cons "SPLAT" hnil (Or.inl rfl) (.last "ONCE" htab hnil)
    have hsecond :
        Spreads ["IFTRAVELLING", "MAP01", "MAP02", "PIC", decimal 10, decimal 20, "PIC"] _ :=
      .cons "IFTRAVELLING" hspace (Or.inl rfl) <| .cons "MAP01" hnil (Or.inl rfl) <|
        .cons "MAP02" hnil (Or.inr rfl) <| .cons "PIC" hnil (Or.inl rfl) <|
        .cons (decimal 10) hnil (Or.inl rfl) <| .cons (decimal 20) hnil (Or.inl rfl) <|
        .last "PIC" hnil hnil
    refine Eq.mp (congrArg (LaysOut _) ?_) (LaysOut.cons hfirst (Or.inr rfl) (.last hsecond))
    decide +kernel
  exact ⟨hplain, hwritten, (ofText_of_isWritten hplain).2 text hwritten⟩

end Script

end Interlude
