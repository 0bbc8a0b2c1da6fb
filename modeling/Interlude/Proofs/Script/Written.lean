import Mathlib
import Interlude.Proofs.Decimal.Digits
import Interlude.Proofs.Script.LineByLine

/-!
# Scripts as they are written

A script is written as lines of words: the background, the splat and the pointers, a block with the
spots, and the drawings with their blocks of patches. A guard for entering a map may name the map
that the player comes from, and a frame in which nothing is shown has a word of its own. Between the
words of a line stand spaces and tabs, as many as one likes, also before and after them; a line may
end with a carriage return, the last line need not end at all, and letters may have any case.

Whatever way a text is written, what matters of its lines are the words.
-/

namespace Interlude.Script

open Text (isBlank isWordChar)

variable {word : String} {ws : List String} {line gap rest : List Char} {wss : List (List String)}

/-! ### The words of a script -/

/-- A whole number in decimal digits. -/
def decimal (n : Int) : String :=
  String.ofList (Decimal.signed n)

/-- A name with its letters in upper case. -/
def IsName (name : String) : Prop :=
  name? name = some name ∧ Text.IsUpper name.toList

/-- The ways to write a guard. -/
inductive WritesGuard : Guard → List String → Prop
  | always : WritesGuard .always []
  | entering (map : String) : WritesGuard (.entering map) ["IFENTERING", map]
  | leaving (map : String) : WritesGuard (.leaving map) ["IFLEAVING", map]
  | visited (map : String) : WritesGuard (.visited map) ["IFVISITED", map]
  | travelling (origin map : String) : IsName origin →
      WritesGuard (.entering map) ["IFTRAVELLING", origin, map]

/-- The words that stand for a patch of an animation. -/
def WritesPatch (patch word : String) : Prop :=
  word = patch ∨ patch = blankPatch ∧ word = "BLANK"

/-- The word that keeps an animation from starting again. -/
def onceWords (once : Bool) : List String :=
  if once then ["ONCE"] else []

/-- The ways to write a drawing. -/
inductive WritesDrawing : Drawing → List (List String) → Prop
  | picture {guard : Guard} {ws : List String} (x y : Int) (patch : String) : WritesGuard guard ws →
      WritesDrawing ⟨x, y, guard, .still, [patch]⟩ [ws ++ ["PIC", decimal x, decimal y, patch]]
  | animation {guard : Guard} {ws patches frames : List String} (x y : Int) (tics : Nat)
      (once : Bool) : WritesGuard guard ws → List.Forall₂ WritesPatch patches frames →
      WritesDrawing ⟨x, y, guard, .moving tics once, patches⟩
        ((ws ++ ["ANIMATION", decimal x, decimal y, decimal tics] ++ onceWords once) ::
          ["\x7b"] :: (frames.map ([·]) ++ [["\x7d"]]))

/-- The words of the line of a spot. -/
def spotWords (spot : Spot) : List String :=
  [spot.map, decimal spot.x, decimal spot.y]

/-- The words of the lines before the drawings. -/
def headWords (s : Script) : List (List String) :=
  s.background.toList.map (["BACKGROUND", ·]) ++ s.splat.toList.map (["SPLAT", ·]) ++
    s.pointers.toList.map (fun images => ["POINTER", images.1, images.2]) ++
    if s.spots = [] then [] else ["SPOTS"] :: ["\x7b"] :: (s.spots.map spotWords ++ [["\x7d"]])

/-! ### The lines of a text -/

/-- A run of spaces and tabs. -/
def IsGap (s : List Char) : Prop :=
  ∀ c ∈ s, c = ' ' ∨ c = '\t'

/-- The lines in which words stand in their order, with spaces and tabs between them. -/
inductive Spreads : List String → List Char → Prop
  | last {before after : List Char} (word : String) : IsGap before → IsGap after →
      Spreads [word] (before ++ word.toList ++ after)
  | cons {before rest : List Char} {c : Char} {ws : List String} (word : String) : IsGap before →
      c = ' ' ∨ c = '\t' → Spreads ws rest →
      Spreads (word :: ws) (before ++ word.toList ++ c :: rest)

/-- The texts of lines in which the given words stand. -/
inductive LaysOut : List (List String) → List Char → Prop
  | nil : LaysOut [] []
  | last {ws : List String} {line : List Char} : Spreads ws line → LaysOut [ws] line
  | cons {ws : List String} {line ending rest : List Char} {wss : List (List String)} :
      Spreads ws line → ending = ['\n'] ∨ ending = ['\r', '\n'] → LaysOut wss rest →
      LaysOut (ws :: wss) (line ++ ending ++ rest)

/-- The texts in which a script is written, with letters of any case. -/
def IsWritten (s : Script) (text : String) : Prop :=
  ∃ drawings : List (List (List String)), List.Forall₂ WritesDrawing s.drawings drawings ∧
    LaysOut (headWords s ++ drawings.flatten) (text.toList.map Char.toUpper)

/-! ### What is left of a line -/

/-- A word that stands in no comment and falls into no parts, with letters in upper case. -/
def IsSolid (word : String) : Prop :=
  word.toList ≠ [] ∧ ∀ c ∈ word.toList, isBlank c = false ∧ c ≠ '/' ∧ c.toUpper = c

/-- A name is solid. -/
theorem IsName.isSolid (h : IsName word) : IsSolid word := by
  obtain ⟨hname, hupper⟩ := h
  obtain ⟨⟨hne, _, hall⟩, _⟩ := Option.ite_none_right_eq_some.mp hname
  refine ⟨hne, fun c hc => ?_⟩
  have hword : isWordChar c = true := List.all_eq_true.mp hall c hc
  refine ⟨Text.isBlank_of_isWordChar hword, ?_, hupper c hc⟩
  rintro rfl
  exact absurd hword (by decide)

/-- A number is solid. -/
theorem isSolid_decimal (n : Int) : IsSolid (decimal n) := by
  have hdigit : ∀ c ∈ Decimal.digitsOf n.natAbs, isBlank c = false ∧ c ≠ '/' ∧ c.toUpper = c := by
    intro c hc
    have hc := Decimal.isDigit_of_mem_digitsOf hc
    have hlower : ¬ c.isLower = true := by
      simp only [Char.isDigit, Char.isLower, Bool.and_eq_true, decide_eq_true_eq,
        UInt32.le_iff_toNat_le] at hc ⊢
      intro hlow
      exact absurd (hlow.1.trans hc.2) (by decide)
    refine ⟨Text.isBlank_of_isWordChar (by simp [isWordChar, Char.isAlphanum, hc]), ?_,
      Char.toUpper_eq_of_not_isLower hlower⟩
    rintro rfl
    exact absurd hc (by decide)
  rw [IsSolid, decimal, String.toList_ofList, Decimal.signed]
  split
  · refine ⟨List.cons_ne_nil _ _, fun c hc => ?_⟩
    rcases List.mem_cons.mp hc with rfl | hc
    · decide
    · exact hdigit c hc
  · exact ⟨Decimal.digitsOf_ne_nil _, hdigit⟩

/-- A line is made up of words, and of the word alone if there is only one. -/
structure Holds (ws : List String) (line : List Char) : Prop where
  words_eq : words line = ws
  eq_of_singleton : ∀ word, ws = [word] → line = word.toList

private def isSeparator (c : Char) : Bool :=
  c == ' ' || c == '\t'

private theorem isSeparator_iff {c : Char} : isSeparator c = true ↔ c = ' ' ∨ c = '\t' := by
  simp [isSeparator]

/-- A space or a tab parts the words of a line. -/
theorem words_append_cons {c : Char} (hc : c = ' ' ∨ c = '\t') (line rest : List Char) :
    words (line ++ c :: rest) = words line ++ words rest := by
  change ((line ++ c :: rest).splitOnP isSeparator |>.filter (· ≠ [])).map String.ofList = _
  rw [List.splitOnP_append_cons _ _ (isSeparator_iff.mpr hc), List.filter_append, List.map_append]
  rfl

/-- There are no words in a run of spaces and tabs. -/
theorem words_of_isGap (h : IsGap gap) : words gap = [] := by
  induction gap with
  | nil => rfl
  | cons c gap ih =>
    rw [← List.nil_append (c :: gap), words_append_cons (h c List.mem_cons_self),
      ih fun d hd => h d (List.mem_cons_of_mem c hd)]
    rfl

/-- Spaces and tabs around a line add no words. -/
theorem words_between {before after : List Char} (hbefore : IsGap before) (hafter : IsGap after) :
    words (before ++ line ++ after) = words line := by
  have hend : words (line ++ after) = words line := by
    cases after with
    | nil => rw [List.append_nil]
    | cons c after =>
      rw [words_append_cons (hafter c List.mem_cons_self),
        words_of_isGap fun d hd => hafter d (List.mem_cons_of_mem c hd), List.append_nil]
  rw [List.append_assoc]
  induction before with
  | nil => exact hend
  | cons c before ih =>
    rw [List.cons_append, ← List.nil_append (c :: (before ++ _)),
      words_append_cons (hbefore c List.mem_cons_self),
      ih fun d hd => hbefore d (List.mem_cons_of_mem c hd)]
    rfl

/-- A solid word is a line of one word. -/
theorem words_of_isSolid (h : IsSolid word) : words word.toList = [word] := by
  rw [words_eq_singleton h.1 fun c hc => (h.2 c hc).1, String.ofList_toList]

/-- The words that are spread over a line are its words. -/
theorem Spreads.words_eq (h : Spreads ws line) (hws : ∀ word ∈ ws, IsSolid word) :
    words line = ws := by
  induction h with
  | last word hbefore hafter =>
    rw [words_between hbefore hafter, words_of_isSolid (hws word List.mem_cons_self)]
  | cons word hbefore hc _ ih =>
    have hnil : IsGap [] := fun c hc => absurd hc List.not_mem_nil
    have hfirst : words (_ ++ word.toList ++ []) = words word.toList := words_between hbefore hnil
    rw [List.append_nil] at hfirst
    rw [words_append_cons hc, hfirst, words_of_isSolid (hws word List.mem_cons_self),
      ih fun w hw => hws w (List.mem_cons_of_mem word hw)]
    rfl

/-- A character of a line is a space or a tab, or belongs to a word. -/
theorem Spreads.of_mem (h : Spreads ws line) (hws : ∀ word ∈ ws, IsSolid word) {c : Char}
    (hc : c ∈ line) : (c = ' ' ∨ c = '\t') ∨ isBlank c = false ∧ c ≠ '/' := by
  induction h with
  | last word hbefore hafter =>
    rcases List.mem_append.mp hc with hc | hc
    · rcases List.mem_append.mp hc with hc | hc
      · exact Or.inl (hbefore c hc)
      · have hsolid := (hws word List.mem_cons_self).2 c hc
        exact Or.inr ⟨hsolid.1, hsolid.2.1⟩
    · exact Or.inl (hafter c hc)
  | cons word hbefore hgap _ ih =>
    rcases List.mem_append.mp hc with hc | hc
    · rcases List.mem_append.mp hc with hc | hc
      · exact Or.inl (hbefore c hc)
      · have hsolid := (hws word List.mem_cons_self).2 c hc
        exact Or.inr ⟨hsolid.1, hsolid.2.1⟩
    · rcases List.mem_cons.mp hc with rfl | hc
      · exact Or.inl hgap
      · exact ih (fun w hw => hws w (List.mem_cons_of_mem word hw)) hc

/-- No slash and no end of a line is among the words of a line. -/
theorem Spreads.not_mem (h : Spreads ws line) (hws : ∀ word ∈ ws, IsSolid word) :
    '/' ∉ line ∧ '\n' ∉ line := by
  constructor
  · intro hc
    rcases h.of_mem hws hc with hgap | hsolid
    · exact absurd hgap (by decide)
    · exact hsolid.2 rfl
  · intro hc
    rcases h.of_mem hws hc with hgap | hsolid
    · exact absurd hgap (by decide)
    · exact absurd hsolid.1 (by decide)

/-- A line in which words are spread is not empty. -/
theorem Spreads.ne_nil (h : Spreads ws line) (hws : ∀ word ∈ ws, IsSolid word) : line ≠ [] := by
  cases h with
  | last word _ _ => simp [(hws word List.mem_cons_self).1]
  | cons word _ _ _ => simp

/-- What is left of a line without the blanks around it are the words. -/
theorem Spreads.holds_trim (h : Spreads ws line) (hws : ∀ word ∈ ws, IsSolid word) :
    Holds ws (Text.trim line) where
  words_eq := by
    have hgap : ∀ part : List Char, part ⊆ line → (∀ c ∈ part, isBlank c = true) → IsGap part := by
      intro part hsub hblank c hc
      rcases h.of_mem hws (hsub hc) with hgap | hsolid
      · exact hgap
      · rw [hblank c hc] at hsolid
        exact absurd hsolid.1 (by decide)
    obtain ⟨before, after, hline, hbefore, hafter⟩ := Text.exists_eq_append_trim line
    have hbeforeSub : before ⊆ line := by
      rw [hline, List.append_assoc]
      exact List.subset_append_left _ _
    have hafterSub : after ⊆ line := by
      rw [hline]
      exact List.subset_append_right _ _
    rw [← words_between (hgap before hbeforeSub hbefore) (hgap after hafterSub hafter), ← hline]
    exact h.words_eq hws
  eq_of_singleton := by
    rintro word rfl
    cases h with
    | last _ hbefore hafter =>
      have hblank : ∀ gap : List Char, IsGap gap → ∀ c ∈ gap, isBlank c = true := by
        intro gap hgap c hc
        rcases hgap c hc with rfl | rfl
        · decide
        · decide
      obtain ⟨hne, hsolid⟩ := hws word List.mem_cons_self
      refine Text.trim_append (hblank _ hbefore) (hblank _ hafter) ?_ ?_
      · obtain ⟨c, rest, hword⟩ := List.exists_cons_of_ne_nil hne
        exact ⟨c, rest, hword, (hsolid c (by simp [hword])).1⟩
      · exact ⟨_, _, (List.dropLast_append_getLast hne).symm, (hsolid _ (List.getLast_mem hne)).1⟩
    | cons _ _ _ hrest => nomatch hrest

/-- A text of lines with given words has just these lines with these words. -/
theorem LaysOut.holds {text : List Char} (h : LaysOut wss text)
    (hwss : ∀ ws ∈ wss, ∀ word ∈ ws, IsSolid word) :
    List.Forall₂ Holds wss ((Text.lines text).map fun l => Text.trim (Text.beforeComment l)) := by
  have hkept : ∀ {line : List Char}, '/' ∉ line → Text.beforeComment line = line := by
    intro line hline
    have hall := Text.beforeComment_append hline []
    rw [List.append_nil] at hall
    rw [hall, Text.beforeComment, List.append_nil]
  induction h with
  | nil => exact List.Forall₂.nil
  | @last ws line hline =>
    have hsolid := hwss ws List.mem_cons_self
    rw [Text.lines_of_not_mem (hline.not_mem hsolid).2 (hline.ne_nil hsolid), List.map_singleton,
      hkept (hline.not_mem hsolid).1]
    exact List.Forall₂.cons (hline.holds_trim hsolid) List.Forall₂.nil
  | @cons ws line ending rest wss hline hending _ ih =>
    have hsolid := hwss ws List.mem_cons_self
    obtain ⟨hslash, hnewline⟩ := hline.not_mem hsolid
    have hrest := ih fun vs hvs => hwss vs (List.mem_cons_of_mem ws hvs)
    rcases hending with rfl | rfl
    · rw [List.append_assoc, List.singleton_append, Text.lines_append hnewline, List.map_cons,
        Text.trim_beforeComment_dropReturn, hkept hslash]
      exact List.Forall₂.cons (hline.holds_trim hsolid) hrest
    · have hreturn : '\n' ∉ line ++ ['\r'] := by simp [hnewline]
      have hslash' : '/' ∉ line ++ ['\r'] := by simp [hslash]
      have htext : line ++ ['\r', '\n'] ++ rest = (line ++ ['\r']) ++ '\n' :: rest := by simp
      rw [htext, Text.lines_append hreturn, List.map_cons, Text.trim_beforeComment_dropReturn,
        hkept hslash', Text.trim_concat (by decide)]
      exact List.Forall₂.cons (hline.holds_trim hsolid) hrest

/-! ### Texts for any words -/

/-- There is a line for any words. -/
theorem exists_spreads (hne : ws ≠ []) (hws : ∀ word ∈ ws, IsSolid word) :
    ∃ line, Spreads ws line ∧ Text.IsUpper line := by
  have hnil : IsGap [] := fun c hc => absurd hc List.not_mem_nil
  have hupper : ∀ word ∈ ws, Text.IsUpper word.toList :=
    fun word hword c hc => ((hws word hword).2 c hc).2.2
  induction ws with
  | nil => contradiction
  | cons word ws ih =>
    have hword := hupper word List.mem_cons_self
    cases ws with
    | nil => exact ⟨[] ++ word.toList ++ [], .last word hnil hnil, by simpa using hword⟩
    | cons w ws =>
      obtain ⟨rest, hrest, hrestUpper⟩ := ih (List.cons_ne_nil w ws)
        (fun v hv => hws v (List.mem_cons_of_mem word hv))
        fun v hv => hupper v (List.mem_cons_of_mem word hv)
      refine ⟨[] ++ word.toList ++ ' ' :: rest, .cons word hnil (Or.inl rfl) hrest, ?_⟩
      intro c hc
      rcases List.mem_append.mp hc with hc | hc
      · exact hword c hc
      · rcases List.mem_cons.mp hc with rfl | hc
        · rfl
        · exact hrestUpper c hc

/-- There is a text for any lines of words. -/
theorem exists_laysOut (hwss : ∀ ws ∈ wss, ws ≠ [] ∧ ∀ word ∈ ws, IsSolid word) :
    ∃ text, LaysOut wss text ∧ Text.IsUpper text := by
  induction wss with
  | nil => exact ⟨[], .nil, fun c hc => absurd hc List.not_mem_nil⟩
  | cons ws wss ih =>
    obtain ⟨hne, hws⟩ := hwss ws List.mem_cons_self
    obtain ⟨line, hline, hlineUpper⟩ := exists_spreads hne hws
    obtain ⟨rest, hrest, hrestUpper⟩ := ih fun vs hvs => hwss vs (List.mem_cons_of_mem ws hvs)
    refine ⟨line ++ ['\n'] ++ rest, .cons hline (Or.inl rfl) hrest, ?_⟩
    intro c hc
    rcases List.mem_append.mp hc with hc | hc
    · rcases List.mem_append.mp hc with hc | hc
      · exact hlineUpper c hc
      · rw [List.mem_singleton.mp hc]
        rfl
    · exact hrestUpper c hc

end Interlude.Script
