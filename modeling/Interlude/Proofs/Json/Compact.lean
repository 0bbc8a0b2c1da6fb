import Mathlib
import Interlude.Proofs.Json.ReadBack

/-!
# JSON without blanks

The blanks outside strings say nothing. Which characters are outside is told by reading from the start: a quote opens
or closes a string unless a backslash stands before it within the string. Without these blanks the text of a value is
the same however it was laid out, as no escaped character closes its string early and no string is left open.
-/

namespace Interlude

namespace JsonText

variable {c : Char} {s text short more shortMore w : List Char}

/-- Where the next character of a text stands. -/
inductive Position where
  | outside
  | inString
  /-- Behind the backslash of an escape. -/
  | escaped
  deriving DecidableEq, Repr

/-- Where the character after one in a string stands. -/
def Position.after (c : Char) : Position :=
  if c = '"' then .outside else if c = '\\' then .escaped else .inString

/-- A text from a position on without the blanks that are outside strings. -/
def compactFrom : Position → List Char → List Char
  | _, [] => []
  | .outside, c :: s =>
    if isSpace c then compactFrom .outside s
    else c :: compactFrom (if c = '"' then .inString else .outside) s
  | .inString, c :: s => c :: compactFrom (.after c) s
  | .escaped, c :: s => c :: compactFrom .inString s

/-- A text without the blanks that are outside strings. -/
def compact (s : List Char) : List Char :=
  compactFrom .outside s

/-- A text becomes another one without its blanks, whatever follows it, and does not end within a string. -/
def Compacts (text short : List Char) : Prop :=
  ∀ rest, compact (text ++ rest) = short ++ compact rest

/-! ### Putting texts together -/

theorem Compacts.append (h : Compacts text short) (hmore : Compacts more shortMore) :
    Compacts (text ++ more) (short ++ shortMore) := by
  intro rest
  rw [List.append_assoc, h, hmore, List.append_assoc]

/-- Blanks are left out. -/
theorem compacts_blanks (hw : ∀ c ∈ w, isSpace c = true) : Compacts w [] := by
  intro rest
  induction w with
  | nil => rfl
  | cons b w ih =>
    obtain ⟨hb, hw⟩ := List.forall_mem_cons.mp hw
    rw [List.cons_append, compact, compactFrom, if_pos hb]
    exact ih hw

/-- A character that is neither a blank nor a quote. -/
def isMark (c : Char) : Bool :=
  !isSpace c && c != '"'

/-- Such characters are kept. -/
theorem compacts_marks (h : s.all isMark = true) : Compacts s s := by
  intro rest
  induction s with
  | nil => rfl
  | cons c s ih =>
    obtain ⟨hmark, hs⟩ := Bool.and_eq_true_iff.mp (List.all_cons ▸ h)
    obtain ⟨hspace, hquote⟩ : isSpace c = false ∧ c ≠ '"' := by simpa [isMark] using hmark
    rw [List.cons_append, compact, compactFrom, hspace, if_neg Bool.false_ne_true, if_neg hquote]
    exact congrArg (c :: ·) (ih hs)

/-- The characters of numbers are such characters. -/
theorem isMark_of_isNumberChar (h : isNumberChar c = true) : isMark c = true := by
  by_contra hmark
  simp only [isMark, isSpace, Bool.and_eq_true, Bool.not_eq_true', Bool.or_eq_false_iff, decide_eq_false_iff_not,
    bne_iff_ne, not_and_or, not_not] at hmark
  rcases hmark with (((rfl | rfl) | rfl) | rfl) | rfl <;> simp [isNumberChar] at h

/-! ### Strings -/

/-- Digits to the base 16 do not end a string. -/
theorem after_hexDigit {n : Nat} (hn : n < 16) : Position.after (JsonValue.hexDigit n) = .inString := by
  revert n
  decide

/-- A character of a string is kept with its escape, and the string goes on. -/
theorem compactFrom_escapeChar (c : Char) (s : List Char) :
    compactFrom .inString (JsonValue.escapeChar c ++ s) =
      JsonValue.escapeChar c ++ compactFrom .inString s := by
  obtain ⟨d, hd, -⟩ | ⟨hcontrol, hnumber⟩ | ⟨hplain, hquote, hslash, -⟩ := escapeChar_cases c
  · rw [hd]
    rfl
  · have hhigh := after_hexDigit (show c.toNat / 16 < 16 by omega)
    have hlow := after_hexDigit (show c.toNat % 16 < 16 by omega)
    have hzero : Position.after '0' = .inString := rfl
    have hescape : Position.after '\\' = .escaped := rfl
    simp only [hnumber, List.cons_append, List.nil_append, compactFrom, hescape, hzero, hhigh, hlow]
  · have hstays : Position.after c = .inString := by rw [Position.after, if_neg hquote, if_neg hslash]
    rw [hplain, List.singleton_append, compactFrom, hstays, List.singleton_append]

/-- A quoted string is kept as it is. -/
theorem compacts_quote (name : String) : Compacts (JsonValue.quote name) (JsonValue.quote name) := by
  have hinside (s rest : List Char) : compactFrom .inString (s.flatMap JsonValue.escapeChar ++ '"' :: rest) =
      s.flatMap JsonValue.escapeChar ++ '"' :: compact rest := by
    induction s with
    | nil => rfl
    | cons c s ih =>
      rw [List.flatMap_cons, List.append_assoc, compactFrom_escapeChar, ih, List.append_assoc]
  intro rest
  have hopen : isSpace '"' = false := by decide
  rw [JsonValue.quote, List.append_assoc, List.cons_append, compact, compactFrom, hopen,
    if_neg Bool.false_ne_true, if_pos rfl, List.singleton_append, hinside]
  simp

end JsonText

namespace JsonValue

open JsonText

variable {text short : List Char} {v : JsonValue} {items : List JsonValue} {fields : List (String × JsonValue)}

/-! ### Texts on one line -/

/-- The comma and the colon with blanks behind them become those without. -/
theorem compacts_comma : Compacts Marks.spaced.comma Marks.tight.comma :=
  (compacts_marks (s := [',']) rfl).append (compacts_blanks isSpace_blank)

theorem compacts_colon : Compacts Marks.spaced.colon Marks.tight.colon :=
  (compacts_marks (s := [':']) rfl).append (compacts_blanks isSpace_blank)

/-- The items after the first one keep their order and their commas. -/
theorem compacts_itemsLine (h : ∀ item ∈ items, Compacts (line .spaced item) (line .tight item)) :
    Compacts (itemsLine .spaced items) (itemsLine .tight items) := by
  induction items with
  | nil => exact compacts_marks rfl
  | cons item items ih =>
    obtain ⟨hitem, hitems⟩ := List.forall_mem_cons.mp h
    rw [itemsLine, itemsLine]
    exact (compacts_comma.append hitem).append (ih hitems)

theorem compacts_fieldsLine (h : ∀ field ∈ fields, Compacts (line .spaced field.2) (line .tight field.2)) :
    Compacts (fieldsLine .spaced fields) (fieldsLine .tight fields) := by
  induction fields with
  | nil => exact compacts_marks rfl
  | cons field fields ih =>
    obtain ⟨hfield, hfields⟩ := List.forall_mem_cons.mp h
    rw [fieldsLine, fieldsLine]
    exact (((compacts_comma.append (compacts_quote _)).append compacts_colon).append hfield).append (ih hfields)

/-- The spaced text of a value on one line becomes the tight one. -/
theorem compacts_line (h : v.IsValid) : Compacts (line .spaced v) (line .tight v) := by
  induction h with
  | null => exact compacts_marks rfl
  | number h =>
    exact compacts_marks
      (List.all_eq_true.mpr fun c hc => isMark_of_isNumberChar (isNumberChar_of_isNumber h hc))
  | string s => exact compacts_quote s
  | @array items _ ih =>
    cases items with
    | nil => exact compacts_marks rfl
    | cons item items =>
      obtain ⟨hitem, hitems⟩ := List.forall_mem_cons.mp ih
      rw [line, line]
      exact (compacts_marks (s := ['[']) rfl).append (hitem.append (compacts_itemsLine hitems))
  | @object fields _ ih =>
    cases fields with
    | nil => exact compacts_marks rfl
    | cons field fields =>
      obtain ⟨hfield, hfields⟩ := List.forall_mem_cons.mp ih
      rw [line, line]
      exact (compacts_marks (s := ['{']) rfl).append
        ((((compacts_quote _).append compacts_colon).append hfield).append (compacts_fieldsLine hfields))

/-! ### Texts over several lines -/

namespace Layout

theorem compacts_newline (level : Nat) : Compacts (newline level) [] :=
  compacts_blanks (isSpace_newline level)

/-- The items after the first one, each on a new line, become those on one line. -/
theorem compacts_renderItems (level : Nat) {items : List Layout}
    (h : ∀ item ∈ items, Compacts (item.render (level + 1)) (line .tight item.value)) :
    Compacts (renderItems level items) (itemsLine .tight (values items)) := by
  induction items with
  | nil => exact (compacts_newline level).append (compacts_marks rfl)
  | cons item items ih =>
    obtain ⟨hitem, hitems⟩ := List.forall_mem_cons.mp h
    rw [renderItems, values, itemsLine]
    have hcomma := compacts_marks (s := [',']) rfl
    simpa [Marks.tight] using
      hcomma.append (((compacts_newline (level + 1)).append hitem).append (ih hitems))

theorem compacts_renderFields (level : Nat) {fields : List (String × Layout)}
    (h : ∀ field ∈ fields, Compacts (field.2.render (level + 1)) (line .tight field.2.value)) :
    Compacts (renderFields level fields) (fieldsLine .tight (fieldValues fields)) := by
  induction fields with
  | nil => exact (compacts_newline level).append (compacts_marks rfl)
  | cons field fields ih =>
    obtain ⟨hfield, hfields⟩ := List.forall_mem_cons.mp h
    rw [renderFields, fieldValues, fieldsLine]
    have hcomma := compacts_marks (s := [',']) rfl
    simpa [Marks.tight, Marks.spaced] using hcomma.append (((((compacts_newline (level + 1)).append
      (compacts_quote _)).append compacts_colon).append hfield).append (ih hfields))

/-- Whatever parts of a value stand on one line, without blanks its text is the tight one. -/
theorem compacts_render {l : Layout} (h : l.IsValid) (level : Nat) :
    Compacts (l.render level) (line .tight l.value) := by
  induction h generalizing level with
  | inline h => exact compacts_line h
  | @array items _ ih =>
    cases items with
    | nil => exact compacts_marks (s := ['[', ']']) rfl
    | cons item items =>
      obtain ⟨hitem, hitems⟩ := List.forall_mem_cons.mp ih
      rw [render, value, values, line]
      simpa using (compacts_marks (s := ['[']) rfl).append
        (((compacts_newline (level + 1)).append (hitem (level + 1))).append
          (compacts_renderItems level fun item hitem => hitems item hitem (level + 1)))
  | @object fields _ ih =>
    cases fields with
    | nil => exact compacts_marks (s := ['{', '}']) rfl
    | cons field fields =>
      obtain ⟨hfield, hfields⟩ := List.forall_mem_cons.mp ih
      rw [render, value, fieldValues, line]
      simpa [Marks.tight, Marks.spaced] using (compacts_marks (s := ['{']) rfl).append
        (((((compacts_newline (level + 1)).append (compacts_quote _)).append compacts_colon).append
          (hfield (level + 1))).append
          (compacts_renderFields level fun field hfield => hfields field hfield (level + 1)))

theorem compact_render {l : Layout} (h : l.IsValid) (level : Nat) :
    compact (l.render level) = line .tight l.value := by
  have hcompacts := compacts_render h level []
  rwa [List.append_nil, show compact [] = [] from rfl, List.append_nil] at hcompacts

end Layout

end JsonValue

end Interlude
