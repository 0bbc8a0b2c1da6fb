import Mathlib
import Interlude.Text.Blank
import Interlude.Text.Lines
import Interlude.Text.Word

/-!
# Letter case and the pieces of a text

Equality up to case is an equivalence, and two texts are equal in it when their upper-case forms
are equal. A text that is in upper case already is known by it exactly: so it is with everything
that is cut out of a text in upper case, for no way of cutting adds a character.
-/

namespace Interlude.Text

variable {a b c : String} {s line piece : List Char}

/-! ### Equality up to case -/

/-- A text is the same name as itself. -/
theorem sameName_refl (a : String) : sameName a a = true :=
  sameName_iff.mpr rfl

/-- Being the same name goes both ways. -/
theorem sameName_symm (h : sameName a b = true) : sameName b a = true :=
  sameName_iff.mpr (sameName_iff.mp h).symm

/-- Being the same name carries over from text to text. -/
theorem sameName_trans (hab : sameName a b = true) (hbc : sameName b c = true) :
    sameName a c = true :=
  sameName_iff.mpr ((sameName_iff.mp hab).trans (sameName_iff.mp hbc))

/-- The characters of a text in upper case are those of the text, each in upper case. -/
theorem toList_upper (a : String) : (upper a).toList = a.toList.map Char.toUpper := by
  rw [upper, String.toList_ofList]

/-- A text with a character that the other one has in no case is another text. -/
theorem sameLetters_eq_false {word other : List Char} {d : Char} (hd : d ∈ word)
    (hother : d.toLower ∉ other.map Char.toLower) : sameLetters word other = false := by
  rw [← Bool.not_eq_true, sameLetters_iff]
  intro hsame
  exact hother (hsame ▸ List.mem_map_of_mem hd)

private theorem map_toUpper_eq_iff {s t : List Char} :
    s.map Char.toUpper = t.map Char.toUpper ↔ s.map Char.toLower = t.map Char.toLower := by
  constructor
  · intro h
    have := congrArg (List.map Char.toLower) h
    simpa only [List.map_map, Function.comp_def, Char.toLower_toUpper_eq_toLower] using this
  · intro h
    have := congrArg (List.map Char.toUpper) h
    simpa only [List.map_map, Function.comp_def, Char.toUpper_toLower_eq_toUpper] using this

/-- Two texts are the same name exactly if they are equal in upper case. -/
theorem upper_eq_upper_iff : upper a = upper b ↔ sameName a b = true := by
  rw [sameName_iff, ← map_toUpper_eq_iff, ← toList_upper, ← toList_upper, String.toList_inj]

/-! ### Texts in upper case -/

/-- No letter of the text is a lower-case one. -/
def IsUpper (s : List Char) : Prop :=
  ∀ c ∈ s, c.toUpper = c

/-- Putting a text in upper case leaves no lower-case letter. -/
theorem isUpper_map_toUpper (s : List Char) : IsUpper (s.map Char.toUpper) := by
  intro c hc
  obtain ⟨d, _, rfl⟩ := List.mem_map.mp hc
  exact Char.toUpper_toUpper_eq_toUpper d

/-- What has only characters of a text in upper case is in upper case. -/
theorem IsUpper.of_subset (hs : IsUpper s) (hpiece : piece ⊆ s) : IsUpper piece :=
  fun c hc => hs c (hpiece hc)

/-- A text in upper case is its own upper-case form. -/
theorem upper_eq_self (ha : IsUpper a.toList) : upper a = a := by
  apply String.toList_inj.mp
  rw [toList_upper, List.map_congr_left ha, List.map_id']

/-- What is no letter in upper case is the same in lower case. -/
theorem toUpper_eq_self {c : Char} (h : c.toUpper.isUpper = false) : c.toUpper = c := by
  apply Char.toUpper_eq_of_not_isLower
  rw [Char.isUpper_toUpper_eq_isAlpha, Char.isAlpha, Bool.or_eq_false_iff] at h
  rw [h.2]
  exact Bool.false_ne_true

/-- What is no letter in upper case is in the upper-case form of a text only if it is in the text. -/
theorem mem_of_mem_map_toUpper {c : Char} (hc : c.isUpper = false) (h : c ∈ s.map Char.toUpper) :
    c ∈ s := by
  obtain ⟨d, hd, rfl⟩ := List.mem_map.mp h
  rw [toUpper_eq_self hc]
  exact hd

/-- Two texts in upper case that are the same name are equal. -/
theorem eq_of_sameName (ha : IsUpper a.toList) (hb : IsUpper b.toList)
    (h : sameName a b = true) : a = b := by
  rw [← upper_eq_self ha, ← upper_eq_self hb]
  exact upper_eq_upper_iff.mpr h

/-! ### Cutting adds no character -/

/-- A piece between separators has only characters of the whole. -/
theorem subset_of_mem_splitOnP {p : Char → Bool} (h : piece ∈ s.splitOnP p) : piece ⊆ s := by
  induction s generalizing piece with
  | nil =>
    rw [List.splitOnP_nil, List.mem_singleton] at h
    rw [h]
    exact List.nil_subset _
  | cons c s ih =>
    rw [List.splitOnP_cons_eq_if_modifyHead] at h
    split at h
    · rcases List.mem_cons.mp h with rfl | h
      · exact List.nil_subset _
      · exact List.subset_cons_of_subset c (ih h)
    · rcases hpieces : s.splitOnP p with _ | ⟨first, others⟩
      · exact absurd hpieces (List.splitOnP_ne_nil p s)
      · rw [hpieces] at h ih
        rcases List.mem_cons.mp h with rfl | h
        · exact List.cons_subset_cons c (ih List.mem_cons_self)
        · exact List.subset_cons_of_subset c (ih (List.mem_cons_of_mem first h))

private theorem dropReturn_subset (line : List Char) : dropReturn line ⊆ line := by
  unfold dropReturn
  split
  · exact line.dropLast_subset
  · exact List.Subset.refl line

/-- A line has only characters of the text. -/
theorem subset_of_mem_lines (h : line ∈ lines s) : line ⊆ s := by
  unfold lines at h
  rw [List.splitOn_eq_splitOnP] at h
  rcases List.mem_append.mp h with h | h
  · obtain ⟨whole, hwhole, rfl⟩ := List.mem_map.mp h
    exact List.Subset.trans (dropReturn_subset whole)
      (subset_of_mem_splitOnP (List.mem_of_mem_dropLast hwhole))
  · obtain ⟨hlast, _⟩ := Option.filter_eq_some_iff.mp (Option.mem_toList.mp h)
    exact subset_of_mem_splitOnP (List.mem_of_getLast? hlast)

/-- Trimming keeps only characters of the text. -/
theorem trimEnd_subset (s : List Char) : trimEnd s ⊆ s := by
  intro c hc
  rw [trimEnd, List.mem_reverse] at hc
  exact List.mem_reverse.mp ((List.dropWhile_suffix isBlank).subset hc)

theorem trim_subset (s : List Char) : trim s ⊆ s :=
  List.Subset.trans (trimEnd_subset (trimStart s)) (List.dropWhile_suffix isBlank).subset

/-- What stands before a comment has only characters of the text. -/
theorem beforeComment_subset (s : List Char) : beforeComment s ⊆ s := by
  fun_induction beforeComment s with
  | case1 rest => exact List.nil_subset _
  | case2 => exact List.Subset.refl []
  | case3 c rest _ ih => exact List.cons_subset_cons c ih

end Interlude.Text
