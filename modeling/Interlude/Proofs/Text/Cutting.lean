import Mathlib
import Interlude.Text.Blank
import Interlude.Text.Lines
import Interlude.Text.Word

/-!
# Cutting texts that were put together

A text is cut where its pieces were joined as long as no piece holds what it is cut at: at the first
separator, at the ends of lines, at the blanks around it. Cutting at a character leaves no such
character in the pieces.
-/

namespace Interlude.Text

variable {sep c : Char} {s line piece before after : List Char}

/-! ### Runs of characters -/

/-- A run of characters of a class ends where the first other one follows. -/
theorem takeWhile_append_of_stop {p : Char → Bool} (hrun : ∀ c ∈ before, p c = true)
    (hstop : ∀ c ∈ after.head?, p c = false) : (before ++ after).takeWhile p = before := by
  rw [List.takeWhile_append_of_pos hrun]
  cases after with
  | nil => simp
  | cons c rest => simp [hstop c rfl]

theorem dropWhile_append_of_stop {p : Char → Bool} (hrun : ∀ c ∈ before, p c = true)
    (hstop : ∀ c ∈ after.head?, p c = false) : (before ++ after).dropWhile p = after := by
  rw [List.dropWhile_append_of_pos hrun]
  cases after with
  | nil => simp
  | cons c rest => simp [hstop c rfl]

/-- A run of characters of a class does not reach past a character that is not of the class. -/
theorem takeWhile_append_cons {p : Char → Bool} (hc : p c = false) (s rest : List Char) :
    (s ++ c :: rest).takeWhile p = s.takeWhile p := by
  rw [List.takeWhile_append, List.takeWhile_cons_of_neg (Bool.eq_false_iff.mp hc), List.append_nil]
  split
  · rename_i hwhole
    exact ((List.takeWhile_prefix p).eq_of_length hwhole).symm
  · rfl

theorem dropWhile_append_cons {p : Char → Bool} (hc : p c = false) (s rest : List Char) :
    (s ++ c :: rest).dropWhile p = s.dropWhile p ++ c :: rest := by
  rw [List.dropWhile_append, List.dropWhile_cons_of_neg (Bool.eq_false_iff.mp hc)]
  split
  · rename_i hempty
    rw [List.isEmpty_iff.mp hempty, List.nil_append]
  · rfl

/-- A run of characters of a class goes on over one more of them at the end. -/
theorem dropWhile_concat {p : Char → Bool} (hc : p c = true) (s : List Char) :
    (s ++ [c]).dropWhile p = if s.dropWhile p = [] then [] else s.dropWhile p ++ [c] := by
  rw [List.dropWhile_append, List.dropWhile_cons_of_pos hc, List.dropWhile_nil]
  simp only [List.isEmpty_iff]

/-! ### Separators -/

/-- A text is cut at a separator that does not occur before. -/
theorem cutAt_append (h : sep ∉ before) (after : List Char) :
    cutAt sep (before ++ sep :: after) = some (before, after) := by
  have hbefore : ∀ c ∈ before, decide (c ≠ sep) = true :=
    fun c hc => decide_eq_true fun heq => h (heq ▸ hc)
  rw [cutAt, List.dropWhile_append_of_pos hbefore, List.takeWhile_append_of_pos hbefore]
  simp

/-- The separator does not occur before the first cut. -/
theorem not_mem_of_cutAt (h : cutAt sep s = some (before, after)) : sep ∉ before := by
  unfold cutAt at h
  split at h
  · contradiction
  · obtain ⟨rfl, _⟩ := Prod.mk.inj (Option.some.inj h)
    intro hsep
    simpa using List.mem_takeWhile_imp hsep

/-- A text is cut at the same place if there is more behind it. -/
theorem cutAt_append_of_cutAt (h : cutAt sep s = some (before, after)) (rest : List Char) :
    cutAt sep (s ++ rest) = some (before, after ++ rest) := by
  rw [eq_append_of_cutAt h, List.append_assoc, List.cons_append, cutAt_append (not_mem_of_cutAt h)]

/-- Where nothing is cut, the separator does not occur. -/
theorem not_mem_of_cutAt_eq_none (h : cutAt sep s = none) : sep ∉ s := by
  intro hsep
  obtain ⟨before, after, rfl, hbefore⟩ := List.eq_append_cons_of_mem hsep
  rw [cutAt_append hbefore] at h
  contradiction

/-- Nothing is cut where the separator does not occur. -/
theorem cutAt_eq_none (h : sep ∉ s) : cutAt sep s = none := by
  have hrun : ∀ c ∈ s, decide (c ≠ sep) = true :=
    fun c hc => decide_eq_true fun heq => h (heq ▸ hc)
  rw [cutAt, List.dropWhile_eq_nil_iff.mpr hrun]

/-- A run of other characters ends at the first separator, or with the text. -/
theorem takeWhile_ne_append (h : sep ∉ before) (after : List Char) :
    (before ++ sep :: after).takeWhile (· ≠ sep) = before :=
  takeWhile_append_of_stop (fun _ hc => decide_eq_true fun heq => h (heq ▸ hc)) (by simp)

theorem takeWhile_ne_of_not_mem (h : sep ∉ s) : s.takeWhile (· ≠ sep) = s :=
  List.takeWhile_eq_self_iff.mpr fun _ hc => decide_eq_true fun heq => h (heq ▸ hc)

theorem dropWhile_ne_append (h : sep ∉ before) (after : List Char) :
    (before ++ sep :: after).dropWhile (· ≠ sep) = sep :: after :=
  dropWhile_append_of_stop (fun _ hc => decide_eq_true fun heq => h (heq ▸ hc)) (by simp)

theorem dropWhile_ne_of_not_mem (h : sep ∉ s) : s.dropWhile (· ≠ sep) = [] :=
  List.dropWhile_eq_nil_iff.mpr fun _ hc => decide_eq_true fun heq => h (heq ▸ hc)

/-- No piece between separators holds one. -/
theorem not_mem_of_mem_splitOn (h : piece ∈ s.splitOn sep) : sep ∉ piece := by
  induction s generalizing piece with
  | nil =>
    rw [List.splitOn_nil, List.mem_singleton] at h
    simp [h]
  | cons c s ih =>
    rw [List.splitOn_cons_eq_if_modifyHead] at h
    split at h
    · rcases List.mem_cons.mp h with rfl | h
      · exact List.not_mem_nil
      · exact ih h
    · rename_i hc
      obtain ⟨first, others, hpieces⟩ := List.exists_cons_of_ne_nil (List.splitOn_ne_nil sep s)
      rw [hpieces] at h ih
      rcases List.mem_cons.mp h with rfl | h
      · have hfirst := ih List.mem_cons_self
        have hne : sep ≠ c := fun heq => hc (beq_iff_eq.mpr heq.symm)
        exact List.not_mem_cons_of_ne_of_not_mem hne hfirst
      · exact ih (List.mem_cons_of_mem first h)

/-! ### Lines -/

/-- A line that ends is the first line, without a carriage return at its end. -/
theorem lines_append (h : '\n' ∉ line) (rest : List Char) :
    lines (line ++ '\n' :: rest) = dropReturn line :: lines rest := by
  have hrest := List.splitOn_ne_nil '\n' rest
  simp [lines, List.splitOn_append_cons_self_of_not_mem h, List.dropLast_cons_of_ne_nil hrest,
    List.getLast?_cons_of_ne_nil hrest]

/-- The lines of a text go on after the end of a line. -/
theorem lines_append_newline (init rest : List Char) :
    lines (init ++ '\n' :: rest) = lines (init ++ ['\n']) ++ lines rest := by
  have hpieces : ∀ tail : List Char,
      lines (init ++ '\n' :: tail) = (init.splitOn '\n').map dropReturn ++ lines tail := by
    intro tail
    have htail := List.splitOn_ne_nil '\n' tail
    simp [lines, List.splitOn_append_cons_self, List.dropLast_append_of_ne_nil htail,
      List.getLast?_append_of_ne_nil _ htail]
  rw [hpieces, hpieces []]
  simp [lines]

/-- Lines of which each one is ended are these lines, followed by those of the rest. -/
theorem lines_flatMap_append {ls : List (List Char)} (hnewline : ∀ l ∈ ls, '\n' ∉ l)
    (hreturn : ∀ l ∈ ls, dropReturn l = l) (rest : List Char) :
    lines (ls.flatMap (· ++ ['\n']) ++ rest) = ls ++ lines rest := by
  induction ls with
  | nil => rfl
  | cons l ls ih =>
    rw [List.flatMap_cons, List.append_assoc, List.append_assoc, List.singleton_append,
      lines_append (hnewline l List.mem_cons_self), hreturn l List.mem_cons_self,
      ih (fun k hk => hnewline k (List.mem_cons_of_mem l hk))
        fun k hk => hreturn k (List.mem_cons_of_mem l hk), List.cons_append]

/-- A text without the end of a line is one line unless it is empty. -/
theorem lines_of_not_mem (h : '\n' ∉ line) (hne : line ≠ []) : lines line = [line] := by
  rw [lines, List.splitOn_eq_singleton h]
  simp [hne]

/-- A line that does not end in a carriage return loses nothing. -/
theorem dropReturn_concat (h : c ≠ '\r') (s : List Char) : dropReturn (s ++ [c]) = s ++ [c] := by
  simp [dropReturn, h]

/-- A line without a carriage return loses nothing. -/
theorem dropReturn_of_not_mem (h : '\r' ∉ line) : dropReturn line = line :=
  if_neg fun hlast => h (List.mem_of_getLast? hlast)

/-- Lines that hold no end of a line are the lines of the text that they make. -/
theorem lines_flatMap {ls : List (List Char)} (h : ∀ l ∈ ls, '\n' ∉ l ∧ '\r' ∉ l) :
    lines (ls.flatMap (· ++ ['\n'])) = ls := by
  have hlines := lines_flatMap_append (fun l hl => (h l hl).1)
    (fun l hl => dropReturn_of_not_mem (h l hl).2) []
  rwa [List.append_nil, show lines [] = [] from rfl, List.append_nil] at hlines

/-- No line holds the end of a line. -/
theorem newline_not_mem_of_mem_lines (h : line ∈ lines s) : '\n' ∉ line := by
  rcases List.mem_append.mp h with h | h
  · obtain ⟨whole, hwhole, rfl⟩ := List.mem_map.mp h
    have hnewline := not_mem_of_mem_splitOn (List.mem_of_mem_dropLast hwhole)
    unfold dropReturn
    split
    · exact fun hmem => hnewline (List.mem_of_mem_dropLast hmem)
    · exact hnewline
  · obtain ⟨hlast, _⟩ := Option.filter_eq_some_iff.mp (Option.mem_toList.mp h)
    exact not_mem_of_mem_splitOn (List.mem_of_getLast? hlast)

/-! ### Blanks and words -/

/-- No character of a word is a blank. -/
theorem isBlank_of_isWordChar (h : isWordChar c = true) : isBlank c = false := by
  have hrange : 48 ≤ c.toNat ∧ c.toNat ≤ 122 := by
    simp only [isWordChar, Char.isAlphanum, Char.isAlpha, Char.isUpper, Char.isLower, Char.isDigit,
      Bool.or_eq_true, Bool.and_eq_true, decide_eq_true_eq, beq_iff_eq, UInt32.le_iff_toNat_le] at h
    rcases h with ((⟨hlow, hhigh⟩ | ⟨hlow, hhigh⟩) | ⟨hlow, hhigh⟩) | rfl
    · exact ⟨le_trans (by decide) hlow, le_trans hhigh (by decide)⟩
    · exact ⟨le_trans (by decide) hlow, le_trans hhigh (by decide)⟩
    · exact ⟨le_trans (by decide) hlow, le_trans hhigh (by decide)⟩
    · decide
  simp only [isBlank, Bool.or_eq_false_iff, Bool.and_eq_false_iff, decide_eq_false_iff_not,
    beq_eq_false_iff_ne]
  omega

/-- Trimming takes the blanks off both sides of a text that begins and ends with none. -/
theorem trim_append (hbefore : ∀ c ∈ before, isBlank c = true) (hafter : ∀ c ∈ after, isBlank c = true)
    (hfirst : ∃ c rest, s = c :: rest ∧ isBlank c = false)
    (hlast : ∃ init c, s = init ++ [c] ∧ isBlank c = false) :
    trim (before ++ s ++ after) = s := by
  obtain ⟨c, rest, hs, hc⟩ := hfirst
  have hstart : trimStart (before ++ s ++ after) = s ++ after := by
    rw [trimStart, List.append_assoc, List.dropWhile_append_of_pos hbefore, hs]
    simp [hc]
  obtain ⟨init, d, hs', hd⟩ := hlast
  rw [trim, hstart, trimEnd, List.reverse_append,
    List.dropWhile_append_of_pos fun c hc => hafter c (List.mem_reverse.mp hc), hs']
  simp [hd]

/-- A text without a blank at its end is not trimmed there. -/
theorem trimEnd_eq_self (h : s.getLast?.any isBlank = false) : trimEnd s = s := by
  have hdrop : s.reverse.dropWhile isBlank = s.reverse := by
    rw [← List.head?_reverse] at h
    cases hs : s.reverse with
    | nil => rfl
    | cons c rest =>
      rw [hs, List.head?_cons, Option.any_some] at h
      rw [List.dropWhile_cons_of_neg (Bool.eq_false_iff.mp h)]
  rw [trimEnd, hdrop, List.reverse_reverse]

/-- Trimming takes off nothing but blanks. -/
theorem exists_eq_append_trim (s : List Char) :
    ∃ before after, s = before ++ trim s ++ after ∧ (∀ c ∈ before, isBlank c = true) ∧
      ∀ c ∈ after, isBlank c = true := by
  refine ⟨s.takeWhile isBlank, ((trimStart s).reverse.takeWhile isBlank).reverse, ?_, ?_, ?_⟩
  · rw [trim, trimEnd, List.append_assoc, ← List.reverse_append, List.takeWhile_append_dropWhile,
      List.reverse_reverse, trimStart, List.takeWhile_append_dropWhile]
  · exact fun c hc => List.mem_takeWhile_imp hc
  · exact fun c hc => List.mem_takeWhile_imp (List.mem_reverse.mp hc)

/-- A blank at the end is trimmed. -/
theorem trim_concat (hc : isBlank c = true) (s : List Char) : trim (s ++ [c]) = trim s := by
  have hend : ∀ s, trimEnd (s ++ [c]) = trimEnd s := by
    intro s
    rw [trimEnd, List.reverse_append, List.reverse_singleton, List.singleton_append,
      List.dropWhile_cons_of_pos hc, trimEnd]
  unfold trim trimStart
  by_cases hblank : ∀ d ∈ s, isBlank d = true
  · have hall : ∀ d ∈ s ++ [c], isBlank d = true := by
      intro d hd
      rcases List.mem_append.mp hd with hd | hd
      · exact hblank d hd
      · rw [List.mem_singleton.mp hd, hc]
    rw [List.dropWhile_eq_nil_iff.mpr hall, List.dropWhile_eq_nil_iff.mpr hblank]
  · have hne : s.dropWhile isBlank ≠ [] := fun h => hblank (List.dropWhile_eq_nil_iff.mp h)
    rw [List.dropWhile_append, if_neg (by simpa using hne), hend]

/-- A word between blanks is left alone by trimming. -/
theorem trim_word (hs : s ≠ []) (hword : ∀ c ∈ s, isWordChar c = true)
    (hbefore : ∀ c ∈ before, isBlank c = true) (hafter : ∀ c ∈ after, isBlank c = true) :
    trim (before ++ s ++ after) = s := by
  refine trim_append hbefore hafter ?_ ?_
  · obtain ⟨c, rest, rfl⟩ := List.exists_cons_of_ne_nil hs
    exact ⟨c, rest, rfl, isBlank_of_isWordChar (hword c List.mem_cons_self)⟩
  · refine ⟨s.dropLast, s.getLast hs, (List.dropLast_append_getLast hs).symm, ?_⟩
    exact isBlank_of_isWordChar (hword _ (List.getLast_mem hs))

end Interlude.Text
