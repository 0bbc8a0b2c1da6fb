import Mathlib
import Interlude.Proofs.Json.ReadBack

/-!
# The lines of JSON over several lines

What is laid out is set line by line. A line is indented, and it may end with a comma; its content between them is told
by the parts of the value alone. A part that stands on one line takes up one line, whatever is in it, because no line
feed is left in a string once it is escaped.
-/

namespace Interlude

namespace JsonValue

open JsonText

variable {c : Char} {s t text lead : List Char} {ls ks : List (List Char)} {v : JsonValue}
  {items : List JsonValue} {fields : List (String × JsonValue)}

/-! ### Characters of a text on one line -/

/-- A digit to the base 16 is no control character. -/
theorem le_toNat_hexDigit {n : Nat} (hn : n < 16) : 0x20 ≤ (hexDigit n).toNat := by
  revert n
  decide

/-- Whether a text is without control characters. -/
def isPrintable (text : List Char) : Bool :=
  text.all fun c => 0x20 ≤ c.toNat

@[simp] theorem isPrintable_append (s t : List Char) : isPrintable (s ++ t) = (isPrintable s && isPrintable t) :=
  List.all_append

@[simp] theorem isPrintable_cons (c : Char) (s : List Char) :
    isPrintable (c :: s) = (decide (0x20 ≤ c.toNat) && isPrintable s) :=
  List.all_cons

/-- No control character is left in a character once it is escaped. -/
theorem isPrintable_escapeChar (c : Char) : isPrintable (escapeChar c) = true := by
  obtain ⟨d, hd, hprintable, -⟩ | ⟨hcontrol, hnumber⟩ | ⟨hplain, -, -, hprintable⟩ := escapeChar_cases c
  · rw [hd, isPrintable_cons, isPrintable_cons, decide_eq_true hprintable]
    rfl
  · have hhigh := le_toNat_hexDigit (show c.toNat / 16 < 16 by omega)
    have hlow := le_toNat_hexDigit (show c.toNat % 16 < 16 by omega)
    simp only [hnumber, isPrintable_cons, hhigh, hlow]
    rfl
  · rw [hplain, isPrintable_cons, decide_eq_true hprintable]
    rfl

@[simp] theorem isPrintable_quote (name : String) : isPrintable (quote name) = true := by
  have hname : isPrintable (name.toList.flatMap escapeChar) = true := by
    refine List.all_eq_true.mpr fun d hd => ?_
    obtain ⟨c, -, hd⟩ := List.mem_flatMap.mp hd
    exact List.all_eq_true.mp (isPrintable_escapeChar c) d hd
  rw [quote, isPrintable_append, isPrintable_cons, hname]
  rfl

/-- The characters of numbers are no control characters, no blanks and no commas. -/
theorem of_isNumberChar (h : isNumberChar c = true) : 0x20 ≤ c.toNat ∧ c ≠ ' ' ∧ c ≠ ',' := by
  refine ⟨?_, ?_, ?_⟩
  · simp only [isNumberChar, Char.isDigit, Bool.or_eq_true, Bool.and_eq_true, decide_eq_true_eq, ge_iff_le,
      UInt32.le_iff_toNat_le] at h
    rcases h with ((((h | rfl) | rfl) | rfl) | rfl) | rfl
    · exact Nat.le_trans (by decide) h.1
    · decide
    · decide
    · decide
    · decide
    · decide
  · rintro rfl
    simp [isNumberChar] at h
  · rintro rfl
    simp [isNumberChar] at h

@[simp] theorem isPrintable_comma : isPrintable Marks.spaced.comma = true := rfl

@[simp] theorem isPrintable_colon : isPrintable Marks.spaced.colon = true := rfl

theorem isPrintable_itemsLine (h : ∀ item ∈ items, isPrintable (line .spaced item) = true) :
    isPrintable (itemsLine .spaced items) = true := by
  induction items with
  | nil => rfl
  | cons item items ih =>
    obtain ⟨hitem, hitems⟩ := List.forall_mem_cons.mp h
    simp [itemsLine, hitem, ih hitems]

theorem isPrintable_fieldsLine (h : ∀ field ∈ fields, isPrintable (line .spaced field.2) = true) :
    isPrintable (fieldsLine .spaced fields) = true := by
  induction fields with
  | nil => rfl
  | cons field fields ih =>
    obtain ⟨hfield, hfields⟩ := List.forall_mem_cons.mp h
    simp [fieldsLine, hfield, ih hfields]

/-- The text of a value on one line has no control characters. -/
theorem isPrintable_line (h : v.IsValid) : isPrintable (line .spaced v) = true := by
  induction h with
  | null => rfl
  | number h =>
    exact List.all_eq_true.mpr fun c hc => decide_eq_true (of_isNumberChar (isNumberChar_of_isNumber h hc)).1
  | string s => exact isPrintable_quote s
  | @array items _ ih =>
    cases items with
    | nil => rfl
    | cons item items =>
      obtain ⟨hitem, hitems⟩ := List.forall_mem_cons.mp ih
      simp [line, hitem, isPrintable_itemsLine hitems]
  | @object fields _ ih =>
    cases fields with
    | nil => rfl
    | cons field fields =>
      obtain ⟨hfield, hfields⟩ := List.forall_mem_cons.mp ih
      simp [line, hfield, isPrintable_fieldsLine hfields]

/-! ### Lines -/

/-- A text that can stand on a line: it has no control characters, does not begin with a blank and does not end with
a comma. -/
structure FitsLine (text : List Char) : Prop where
  isPrintable_eq : isPrintable text = true
  first : ∃ c rest, text = c :: rest ∧ c ≠ ' '
  last : ∃ init c, text = init ++ [c] ∧ c ≠ ','

theorem itemsLine_eq_append (m : Marks) (items : List JsonValue) : ∃ init, itemsLine m items = init ++ [']'] := by
  induction items with
  | nil => exact ⟨[], rfl⟩
  | cons item items ih =>
    obtain ⟨init, hinit⟩ := ih
    exact ⟨m.comma ++ line m item ++ init, by simp [itemsLine, hinit]⟩

theorem fieldsLine_eq_append (m : Marks) (fields : List (String × JsonValue)) :
    ∃ init, fieldsLine m fields = init ++ ['}'] := by
  induction fields with
  | nil => exact ⟨[], rfl⟩
  | cons field fields ih =>
    obtain ⟨init, hinit⟩ := ih
    exact ⟨m.comma ++ quote field.1 ++ m.colon ++ line m field.2 ++ init, by simp [fieldsLine, hinit]⟩

/-- A value on one line can stand on a line. -/
theorem fitsLine_line (h : v.IsValid) : FitsLine (line .spaced v) := by
  refine ⟨isPrintable_line h, ?_, ?_⟩
  · cases h with
    | null => exact ⟨_, _, rfl, by decide⟩
    | @number text h =>
      obtain ⟨c, rest, rfl⟩ := List.exists_cons_of_ne_nil (ne_nil_of_isNumber h)
      exact ⟨c, rest, rfl, (of_isNumberChar (isNumberChar_of_isNumber h List.mem_cons_self)).2.1⟩
    | string s => exact ⟨_, _, rfl, by decide⟩
    | @array items => cases items <;> exact ⟨_, _, rfl, by decide⟩
    | @object fields => cases fields <;> exact ⟨_, _, rfl, by decide⟩
  · cases h with
    | null => exact ⟨['n', 'u', 'l'], 'l', rfl, by decide⟩
    | @number text h =>
      obtain ⟨init, c, htext⟩ := (List.eq_nil_or_concat text).resolve_left (ne_nil_of_isNumber h)
      refine ⟨init, c, by simpa [line] using htext, (of_isNumberChar (isNumberChar_of_isNumber h ?_)).2.2⟩
      simp [htext]
    | string s => exact ⟨_, '"', rfl, by decide⟩
    | @array items =>
      cases items with
      | nil => exact ⟨['['], ']', rfl, by decide⟩
      | cons item items =>
        obtain ⟨init, hinit⟩ := itemsLine_eq_append .spaced items
        exact ⟨'[' :: (line .spaced item ++ init), ']', by simp [line, hinit], by decide⟩
    | @object fields =>
      cases fields with
      | nil => exact ⟨['{'], '}', rfl, by decide⟩
      | cons field fields =>
        obtain ⟨init, hinit⟩ := fieldsLine_eq_append .spaced fields
        exact ⟨'{' :: (quote field.1 ++ Marks.spaced.colon ++ line .spaced field.2 ++ init), '}',
          by simp [line, hinit], by decide⟩

theorem fitsLine_singleton (h : isPrintable [c] = true) (hblank : c ≠ ' ') (hcomma : c ≠ ',') : FitsLine [c] :=
  ⟨h, ⟨c, [], rfl, hblank⟩, ⟨[], c, rfl, hcomma⟩⟩

theorem fitsLine_nil_append (text : List Char) (h : FitsLine text) : FitsLine ([] ++ text) :=
  h

/-- A text that can stand on a line can do so behind a name. -/
theorem FitsLine.append (h : FitsLine text) (name : String) : FitsLine (quote name ++ [':', ' '] ++ text) := by
  refine ⟨?_, ⟨'"', _, rfl, by decide⟩, ?_⟩
  · have hcolon : isPrintable [':', ' '] = true := rfl
    rw [isPrintable_append, isPrintable_append, isPrintable_quote, hcolon, h.isPrintable_eq]
    rfl
  · obtain ⟨init, c, rfl, hc⟩ := h.last
    exact ⟨quote name ++ [':', ' '] ++ init, c, (List.append_assoc _ _ _).symm, hc⟩

/-- The content of a line, without the blanks before it and the comma behind it. -/
def content (line : List Char) : List Char :=
  let text := line.dropWhile (· = ' ')
  if text.getLast? = some ',' then text.dropLast else text

/-- A text is set in lines with the given contents, none of which has control characters or is empty. -/
def IsSet (text : List Char) (contents : List (List Char)) : Prop :=
  ∃ ls : List (List Char), text ++ ['\n'] = ls.flatMap (· ++ ['\n']) ∧
    (∀ l ∈ ls, isPrintable l = true ∧ l ≠ []) ∧ ls.map content = contents

/-- A line has blanks before its content, and perhaps a comma behind it. -/
theorem FitsLine.isSet (h : FitsLine text) (n : Nat) {tail : List Char} (htail : tail = [] ∨ tail = [',']) :
    IsSet (List.replicate n ' ' ++ text ++ tail) [text] := by
  obtain ⟨c, rest, hfirst, hc⟩ := h.first
  obtain ⟨init, d, hlast, hd⟩ := h.last
  have hprintable : isPrintable (List.replicate n ' ' ++ text ++ tail) = true := by
    have hblanks : isPrintable (List.replicate n ' ') = true := by simp [isPrintable]
    have hcomma : isPrintable tail = true := by rcases htail with rfl | rfl <;> rfl
    rw [isPrintable_append, isPrintable_append, hblanks, h.isPrintable_eq, hcomma]
    rfl
  have hdrop : (List.replicate n ' ' ++ text ++ tail).dropWhile (· = ' ') = text ++ tail := by
    rw [List.append_assoc]
    refine Text.dropWhile_append_of_stop (fun b hb => decide_eq_true (List.eq_of_mem_replicate hb)) ?_
    simp [hfirst, hc]
  have hcontent : content (List.replicate n ' ' ++ text ++ tail) = text := by
    rw [content, hdrop]
    rcases htail with rfl | rfl
    · simp [hlast, hd]
    · simp
  refine ⟨[List.replicate n ' ' ++ text ++ tail], by simp, ?_, by rw [List.map_singleton, hcontent]⟩
  exact List.forall_mem_singleton.mpr ⟨hprintable, by simp [hfirst]⟩

/-- A text that is set in lines goes on with one that is on the lines after it. -/
theorem IsSet.append (hs : IsSet s ls) (ht : IsSet t ks) : IsSet (s ++ '\n' :: t) (ls ++ ks) := by
  obtain ⟨first, hfirst, hplain, rfl⟩ := hs
  obtain ⟨second, hsecond, hplain', rfl⟩ := ht
  refine ⟨first ++ second, ?_, List.forall_mem_append.mpr ⟨hplain, hplain'⟩, List.map_append⟩
  rw [List.flatMap_append, ← hfirst, ← hsecond]
  simp

/-- These are the contents of the lines of the text. -/
theorem IsSet.map_content_lines (h : IsSet text ls) : (Text.lines text).map content = ls := by
  obtain ⟨raw, hraw, hplain, rfl⟩ := h
  have hends : ∀ l ∈ raw, '\n' ∉ l ∧ '\r' ∉ l := by
    intro l hl
    have hprintable := List.all_eq_true.mp (hplain l hl).1
    exact ⟨fun hmem => absurd (hprintable _ hmem) (by decide), fun hmem => absurd (hprintable _ hmem) (by decide)⟩
  -- The text ends with its last line, behind which there is no line feed.
  obtain rfl | ⟨init, last, rfl⟩ := List.eq_nil_or_concat' raw
  · simp at hraw
  · rw [List.flatMap_append, List.flatMap_singleton, ← List.append_assoc] at hraw
    have hlast : last ∈ init ++ [last] := by simp
    have hinit : ∀ l ∈ init, '\n' ∉ l ∧ '\r' ∉ l := fun l hl => hends l (List.mem_append_left _ hl)
    rw [List.append_cancel_right hraw, Text.lines_flatMap_append (fun l hl => (hinit l hl).1)
      (fun l hl => Text.dropReturn_of_not_mem (hinit l hl).2), Text.lines_of_not_mem (hends last hlast).1
      (hplain last hlast).2]

/-! ### Layouts -/

namespace Layout

mutual

/-- The contents of the lines of a layout, where some text stands before it on the first line. -/
def lines (lead : List Char) : Layout → List (List Char)
  | .inline value => [lead ++ line .spaced value]
  | .array [] => [lead ++ ['[', ']']]
  | .array (item :: items) => (lead ++ ['[']) :: (lines [] item ++ itemLines items ++ [[']']])
  | .object [] => [lead ++ ['{', '}']]
  | .object ((name, value) :: fields) =>
    (lead ++ ['{']) :: (lines (quote name ++ [':', ' ']) value ++ fieldLines fields ++ [['}']])

/-- The contents of the lines of items. -/
def itemLines : List Layout → List (List Char)
  | [] => []
  | item :: items => lines [] item ++ itemLines items

/-- The contents of the lines of fields, each value behind its name. -/
def fieldLines : List (String × Layout) → List (List Char)
  | [] => []
  | (name, value) :: fields => lines (quote name ++ [':', ' ']) value ++ fieldLines fields

end

theorem itemLines_eq_flatMap (items : List Layout) : itemLines items = items.flatMap (lines []) := by
  induction items with
  | nil => rfl
  | cons item items ih => rw [itemLines, ih, List.flatMap_cons]

/-- A bracket that ends an array or an object, on a line of its own. -/
theorem isSet_close (level : Nat) {bracket : Char} (hbracket : FitsLine [bracket]) {tail : List Char}
    (htail : tail = [] ∨ tail = [',']) (hs : IsSet s ls) :
    IsSet (s ++ (newline level ++ [bracket]) ++ tail) (ls ++ [[bracket]]) := by
  simpa [newline] using hs.append (hbracket.isSet (2 * level) htail)

/-- The items of an array are set one after the other, with commas between them. -/
theorem isSet_renderItems (level : Nat) {item : Layout} {items : List Layout} {tail : List Char}
    (h : ∀ l ∈ item :: items, ∀ tail, tail = [] ∨ tail = [','] →
      IsSet (List.replicate (2 * (level + 1)) ' ' ++ l.render (level + 1) ++ tail) (l.lines []))
    (htail : tail = [] ∨ tail = [',']) :
    IsSet (List.replicate (2 * (level + 1)) ' ' ++ item.render (level + 1) ++ renderItems level items ++ tail)
      (item.lines [] ++ itemLines items ++ [[']']]) := by
  have hclose : FitsLine [']'] := fitsLine_singleton rfl (by decide) (by decide)
  obtain ⟨hitem, hitems⟩ := List.forall_mem_cons.mp h
  induction items generalizing item with
  | nil => simpa [renderItems, itemLines] using isSet_close level hclose htail (hitem [] (.inl rfl))
  | cons next items ih =>
    obtain ⟨hnext, hrest⟩ := List.forall_mem_cons.mp hitems
    simpa [renderItems, itemLines, newline] using (hitem [','] (.inr rfl)).append (ih hitems hnext hrest)

/-- So are the fields of an object, each value behind its name. -/
theorem isSet_renderFields (level : Nat) {name : String} {value : Layout} {fields : List (String × Layout)}
    {tail : List Char}
    (h : ∀ field ∈ (name, value) :: fields, ∀ tail, tail = [] ∨ tail = [','] →
      IsSet (List.replicate (2 * (level + 1)) ' ' ++ (quote field.1 ++ [':', ' '] ++ field.2.render (level + 1)) ++ tail)
        (field.2.lines (quote field.1 ++ [':', ' '])))
    (htail : tail = [] ∨ tail = [',']) :
    IsSet (List.replicate (2 * (level + 1)) ' ' ++ (quote name ++ [':', ' '] ++ value.render (level + 1)) ++
        renderFields level fields ++ tail)
      (value.lines (quote name ++ [':', ' ']) ++ fieldLines fields ++ [['}']]) := by
  have hclose : FitsLine ['}'] := fitsLine_singleton rfl (by decide) (by decide)
  obtain ⟨hfield, hfields⟩ := List.forall_mem_cons.mp h
  induction fields generalizing name value with
  | nil => simpa [renderFields, fieldLines] using isSet_close level hclose htail (hfield [] (.inl rfl))
  | cons next fields ih =>
    obtain ⟨hnext, hrest⟩ := List.forall_mem_cons.mp hfields
    simpa [renderFields, fieldLines, newline] using (hfield [','] (.inr rfl)).append (ih hfields hnext hrest)

/-- A layout is set in its lines, behind the text before it and with the comma behind it. -/
theorem isSet_render {l : Layout} (h : l.IsValid) (level : Nat) {lead tail : List Char}
    (hlead : ∀ text, FitsLine text → FitsLine (lead ++ text)) (htail : tail = [] ∨ tail = [',']) :
    IsSet (List.replicate (2 * level) ' ' ++ (lead ++ l.render level) ++ tail) (l.lines lead) := by
  induction h generalizing level lead tail with
  | inline h => exact (hlead _ (fitsLine_line h)).isSet _ htail
  | @array items _ ih =>
    cases items with
    | nil =>
      have hvalid : (JsonValue.array []).IsValid := .array (by simp)
      exact (hlead _ (fitsLine_line hvalid)).isSet _ htail
    | cons item items =>
      have hopen := (hlead ['['] (fitsLine_singleton rfl (by decide) (by decide))).isSet (2 * level) (.inl rfl)
      have hitems := isSet_renderItems level
        (fun l hl tail htail => ih l hl (level + 1) fitsLine_nil_append htail) htail
      simpa [render, lines, newline] using hopen.append hitems
  | @object fields _ ih =>
    cases fields with
    | nil =>
      have hvalid : (JsonValue.object []).IsValid := .object (by simp)
      exact (hlead _ (fitsLine_line hvalid)).isSet _ htail
    | cons field fields =>
      have hopen := (hlead ['{'] (fitsLine_singleton rfl (by decide) (by decide))).isSet (2 * level) (.inl rfl)
      have hfields := isSet_renderFields level
        (fun p hp tail htail => ih p hp (level + 1) (fun _ h => h.append p.1) htail) htail
      simpa [render, lines, newline] using hopen.append hfields

/-- The lines of a layout have the contents that its parts tell. -/
theorem map_content_lines {l : Layout} (h : l.IsValid) : (Text.lines (l.render 0)).map content = l.lines [] := by
  have hset := isSet_render h 0 fitsLine_nil_append (.inl rfl)
  exact IsSet.map_content_lines (by simpa using hset)

end Layout

end JsonValue

end Interlude
