import Mathlib
import Interlude.Json.Layout
import Interlude.Proofs.Json.Reader
import Interlude.Proofs.Text.Cutting

/-!
# Reading JSON back

Every value whose numbers are numbers of the grammar is read back from its text, on one line as well
as over several lines. A text is put together from the texts of the parts; so is what is read, one
lemma for each way of putting texts together. Only numbers depend on what follows them: no character
that could go on with the number.
-/

namespace Interlude

namespace JsonText

variable {c : Char} {s rest w text more : List Char} {v : JsonValue} {name : String}
  {items : List JsonValue} {fields : List (String × JsonValue)}

/-! ### Blanks -/

theorem skip_append (hw : ∀ c ∈ w, isSpace c = true) (s : List Char) : skip (w ++ s) = skip s :=
  List.dropWhile_append_of_pos hw

theorem skip_cons (hc : isSpace c = false) (s : List Char) : skip (c :: s) = c :: s := by
  rw [skip, List.dropWhile_cons, hc]
  rfl

/-! ### Strings -/

/-- A digit to the base 16 is read back. -/
theorem hexValue?_hexDigit {n : Nat} (hn : n < 16) :
    hexValue? (JsonValue.hexDigit n) = some n := by
  revert n
  decide

/-- An escape is read as its character. -/
theorem string?_escape {t : List Char} (h : escape? t = some (c, s))
    (hshorter : s.length < t.length) :
    string? ('\\' :: t) = (string? s).map fun (cs, after) => (c :: cs, after) := by
  rw [string?]
  simp [h, hshorter]

/-- A control character is read back from its number. -/
theorem escape?_number (hc : c.toNat < 0x20) (s : List Char) :
    escape? ('u' :: '0' :: '0' :: JsonValue.hexDigit (c.toNat / 16) ::
      JsonValue.hexDigit (c.toNat % 16) :: s) = some (c, s) := by
  have hzero : hexValue? '0' = some 0 := rfl
  have hunit : 256 * (16 * 0 + 0) + (16 * (c.toNat / 16) + c.toNat % 16) = c.toNat := by omega
  have hsmall : c.toNat < 0xD800 ∨ 0xE000 ≤ c.toNat := .inl (by omega)
  simp only [escape?, Char.reduceEq, or_self, if_false, if_true, unicode?, codeUnit?, hzero,
    hexValue?_hexDigit (show c.toNat / 16 < 16 by omega),
    hexValue?_hexDigit (show c.toNat % 16 < 16 by omega), Option.bind_eq_bind, Option.bind_some,
    hunit, if_pos hsmall, Char.ofNat_toNat]

/-- The ways in which a character is written: behind a backslash by one that stands for it, by its number if it is a
control character, or as it is. -/
theorem escapeChar_cases (c : Char) :
    (∃ d, JsonValue.escapeChar c = ['\\', d] ∧ 0x20 ≤ d.toNat ∧ ∀ s, escape? (d :: s) = some (c, s)) ∨
    (c.toNat < 0x20 ∧ JsonValue.escapeChar c =
      ['\\', 'u', '0', '0', JsonValue.hexDigit (c.toNat / 16), JsonValue.hexDigit (c.toNat % 16)]) ∨
    (JsonValue.escapeChar c = [c] ∧ c ≠ '"' ∧ c ≠ '\\' ∧ 0x20 ≤ c.toNat) := by
  by_cases hmark : c ∈ ['"', '\\', '\x08', '\t', '\n', '\x0c', '\r']
  · refine .inl ?_
    simp only [List.mem_cons, List.not_mem_nil, or_false] at hmark
    rcases hmark with rfl | rfl | rfl | rfl | rfl | rfl | rfl <;>
      exact ⟨_, rfl, by decide, fun s => by simp [escape?]⟩
  · simp only [List.mem_cons, List.not_mem_nil, or_false, not_or] at hmark
    by_cases hcontrol : c.toNat < 0x20
    · exact .inr (.inl ⟨hcontrol, by simp [JsonValue.escapeChar, hmark, hcontrol]⟩)
    · have hplain : JsonValue.escapeChar c = [c] := by simp [JsonValue.escapeChar, hmark, hcontrol]
      exact .inr (.inr ⟨hplain, hmark.1, hmark.2.1, not_lt.mp hcontrol⟩)

/-- An escaped character is read back. -/
theorem string?_escapeChar_append (c : Char) (s : List Char) :
    string? (JsonValue.escapeChar c ++ s) =
      (string? s).map fun (cs, after) => (c :: cs, after) := by
  obtain ⟨d, hd, -, hread⟩ | ⟨hcontrol, hnumber⟩ | ⟨hplain, hquote, hslash, hprintable⟩ := escapeChar_cases c
  · rw [hd]
    exact string?_escape (hread s) (by simp)
  · rw [hnumber]
    exact string?_escape (escape?_number hcontrol s) (by simp; omega)
  · rw [hplain, List.singleton_append, string?]
    simp [hquote, hslash, not_lt.mpr hprintable]

/-- A quoted string is read back. -/
theorem string?_quoted (s rest : List Char) :
    string? (s.flatMap JsonValue.escapeChar ++ '"' :: rest) = some (s, rest) := by
  induction s with
  | nil =>
    rw [List.flatMap_nil, List.nil_append, string?]
    simp
  | cons c s ih =>
    rw [List.flatMap_cons, List.append_assoc, string?_escapeChar_append, ih]
    rfl

/-! ### Numbers -/

theorem isNumberChar_of_isDigit (h : c.isDigit = true) : isNumberChar c = true := by
  simp [isNumberChar, h]

theorem ne_nil_of_isNumber (h : isNumber text = true) : text ≠ [] := by
  rintro rfl
  simp [isNumber, isUnsigned, isDigits] at h

/-- An exponent has characters of numbers only. -/
theorem isNumberChar_of_isExponent (h : isExponent text = true) (hc : c ∈ text) :
    isNumberChar c = true := by
  unfold isExponent at h
  split at h
  · simp at hc
  · next e rest =>
    have hdigits {s : List Char} (hs : isDigits s = true) (hc : c ∈ s) : isNumberChar c = true :=
      isNumberChar_of_isDigit (List.all_eq_true.mp (Bool.and_eq_true_iff.mp hs).2 c hc)
    obtain ⟨he, hrest⟩ := Bool.and_eq_true_iff.mp h
    obtain rfl | hc := List.mem_cons.mp hc
    · simp only [Bool.or_eq_true, decide_eq_true_eq] at he
      obtain rfl | rfl := he <;> rfl
    · split at hrest
      · obtain rfl | hc := List.mem_cons.mp hc
        · rfl
        · exact hdigits hrest hc
      · obtain rfl | hc := List.mem_cons.mp hc
        · rfl
        · exact hdigits hrest hc
      · exact hdigits hrest hc

/-- A fraction has characters of numbers only. -/
theorem isNumberChar_of_isFraction (h : isFraction text = true) (hc : c ∈ text) :
    isNumberChar c = true := by
  unfold isFraction at h
  split at h
  · next rest =>
    obtain ⟨-, hexponent⟩ := Bool.and_eq_true_iff.mp h
    obtain rfl | hc := List.mem_cons.mp hc
    · rfl
    · rw [← List.takeWhile_append_dropWhile (p := Char.isDigit) (l := rest)] at hc
      obtain hc | hc := List.mem_append.mp hc
      · exact isNumberChar_of_isDigit (List.mem_takeWhile_imp hc)
      · exact isNumberChar_of_isExponent hexponent hc
  · exact isNumberChar_of_isExponent h hc

/-- A number has characters of numbers only. -/
theorem isNumberChar_of_isNumber (h : isNumber text = true) (hc : c ∈ text) :
    isNumberChar c = true := by
  have hunsigned {s : List Char} (hs : isUnsigned s = true) (hc : c ∈ s) :
      isNumberChar c = true := by
    obtain ⟨-, hfraction⟩ := Bool.and_eq_true_iff.mp hs
    rw [← List.takeWhile_append_dropWhile (p := Char.isDigit) (l := s)] at hc
    obtain hc | hc := List.mem_append.mp hc
    · exact isNumberChar_of_isDigit (List.mem_takeWhile_imp hc)
    · exact isNumberChar_of_isFraction hfraction hc
  unfold isNumber at h
  split at h
  · obtain rfl | hc := List.mem_cons.mp hc
    · rfl
    · exact hunsigned h hc
  · exact hunsigned h hc

/-! ### Values -/

/-- What follows does not go on with a number. -/
def Stops (rest : List Char) : Prop :=
  ∀ c ∈ rest.head?, isNumberChar c = false

/-- A text is read as a value, whatever follows it. -/
def Reads (text : List Char) (v : JsonValue) : Prop :=
  ∀ rest, Stops rest → value? (skip (text ++ rest)) = some (v, rest)

/-- A text is read as the items and the end of an array. -/
def ReadsItems (text : List Char) (items : List JsonValue) : Prop :=
  ∀ rest, items? (text ++ rest) = some (items, rest)

/-- A text is read as the fields and the end of an object. -/
def ReadsFields (text : List Char) (fields : List (String × JsonValue)) : Prop :=
  ∀ rest, fields? (text ++ rest) = some (fields, rest)

/-- Blanks before a value are passed over. -/
theorem Reads.append (hw : ∀ c ∈ w, isSpace c = true) (h : Reads text v) :
    Reads (w ++ text) v := by
  intro rest hrest
  rw [List.append_assoc, skip_append hw, h rest hrest]

theorem reads_null : Reads ['n', 'u', 'l', 'l'] .null := by
  intro rest _
  rw [List.cons_append, skip_cons (by decide), value?]
  simp

/-- A number is read up to what does not go on with it. -/
theorem reads_number (h : isNumber text = true) : Reads text (.number text) := by
  intro rest hrest
  have hchars : ∀ c ∈ text, isNumberChar c = true := fun c => isNumberChar_of_isNumber h
  obtain ⟨c, tail, rfl⟩ := List.exists_cons_of_ne_nil (ne_nil_of_isNumber h)
  have hread : number? (c :: (tail ++ rest)) = some (c :: tail, rest) := by
    rw [← List.cons_append, number?, Text.takeWhile_append_of_stop hchars hrest,
      Text.dropWhile_append_of_stop hchars hrest, if_pos h]
  have hfirst := hchars c List.mem_cons_self
  have hspace : isSpace c = false := by
    by_contra hspace
    simp only [isSpace, Bool.not_eq_false, Bool.or_eq_true, decide_eq_true_eq] at hspace
    rcases hspace with ((rfl | rfl) | rfl) | rfl <;> simp [isNumberChar] at hfirst
  have hother : c ≠ '"' ∧ c ≠ '[' ∧ c ≠ '{' ∧ c ≠ 'n' := by
    refine ⟨?_, ?_, ?_, ?_⟩ <;> rintro rfl <;> simp [isNumberChar] at hfirst
  rw [List.cons_append, skip_cons hspace, value?]
  simp [hother, hread]

theorem reads_quote (s : String) : Reads (JsonValue.quote s) (.string s) := by
  intro rest _
  rw [JsonValue.quote, List.cons_append, List.cons_append, skip_cons (by decide), value?]
  simp [string?_quoted]

theorem reads_array_nil : Reads ['[', ']'] (.array []) := by
  intro rest _
  rw [List.cons_append, skip_cons (by decide), value?]
  simp [empty?, skip_cons, isSpace]

theorem reads_object_nil : Reads ['{', '}'] (.object []) := by
  intro rest _
  rw [List.cons_append, skip_cons (by decide), value?]
  simp [empty?, skip_cons, isSpace]

/-- No value begins with a bracket that ends an array. -/
theorem empty?_of_items? (h : items? s = some (items, rest)) : empty? ']' s = none := by
  unfold empty?
  rw [items?] at h
  cases hs : skip s with
  | nil => rfl
  | cons c tail =>
    rw [hs] at h
    simp only
    rw [if_neg]
    rintro rfl
    rw [value?] at h
    simp [number?, isNumberChar, isNumber, isUnsigned, isDigits] at h

theorem reads_array (h : ReadsItems text items) : Reads ('[' :: text) (.array items) := by
  intro rest _
  rw [List.cons_append, skip_cons (by decide), value?]
  simp [empty?_of_items? (h rest), h rest]

theorem empty?_of_fields? (h : fields? s = some (fields, rest)) : empty? '}' s = none := by
  unfold empty?
  rw [fields?, name?] at h
  cases hs : skip s with
  | nil => rfl
  | cons c tail =>
    rw [hs] at h
    simp only
    rw [if_neg]
    rintro rfl
    simp at h

theorem reads_object (h : ReadsFields text fields) :
    Reads ('{' :: text) (.object fields) := by
  intro rest _
  rw [List.cons_append, skip_cons (by decide), value?]
  simp [empty?_of_fields? (h rest), h rest]

/-! ### Parts of arrays and objects -/

theorem stops_cons (hc : isNumberChar c = false) (s : List Char) : Stops (c :: s) := by
  simpa [Stops] using hc

/-- Neither a blank nor a mark goes on with a number. -/
theorem stops_append (hw : ∀ c ∈ w, isSpace c = true) (hc : isNumberChar c = false)
    (s : List Char) : Stops (w ++ c :: s) := by
  cases w with
  | nil => exact stops_cons hc s
  | cons b w =>
    have hb := hw b List.mem_cons_self
    simp only [isSpace, Bool.or_eq_true, decide_eq_true_eq] at hb
    rcases hb with ((rfl | rfl) | rfl) | rfl <;> exact stops_cons (by decide) _

theorem next?_done (bracket : Char) (hw : ∀ c ∈ w, isSpace c = true)
    (hbracket : isSpace bracket = false) (s : List Char) :
    next? bracket (w ++ bracket :: s) = some (.done s) := by
  simp [next?, skip_append hw, skip_cons hbracket]

theorem next?_more (bracket : Char) (hbracket : ',' ≠ bracket) (s : List Char) :
    next? bracket (',' :: s) = some (.more s) := by
  simp [next?, skip_cons, isSpace, hbracket]

/-- The last item with the end of the array. -/
theorem readsItems_singleton (h : Reads text v) (hw : ∀ c ∈ w, isSpace c = true) :
    ReadsItems (text ++ (w ++ [']'])) [v] := by
  intro rest
  have hitem := h _ (stops_append hw (c := ']') (by decide) rest)
  rw [items?, List.append_assoc, List.append_assoc, List.singleton_append, hitem]
  simp only [next?_done ']' hw (by decide) rest]

/-- An item before others. -/
theorem readsItems_cons (h : Reads text v) (hmore : ReadsItems more items) :
    ReadsItems (text ++ ',' :: more) (v :: items) := by
  intro rest
  have hitem := h _ (stops_cons (c := ',') (by decide) (more ++ rest))
  have hshorter : (more ++ rest).length < (text ++ ',' :: (more ++ rest)).length := by
    simp
    omega
  rw [items?, List.append_assoc, List.cons_append, hitem]
  simp only [next?_more ']' (by decide), hmore rest, if_pos hshorter, Option.map_some]

/-- The name of a field is read up to its value. -/
theorem name?_quote (hw : ∀ c ∈ w, isSpace c = true) (name : String) (s : List Char) :
    name? (w ++ (JsonValue.quote name ++ ':' :: s)) = some (name, s) := by
  rw [name?, skip_append hw, JsonValue.quote, List.cons_append, List.cons_append,
    skip_cons (by decide)]
  simp [string?_quoted, skip_cons, isSpace]

/-- The last field with the end of the object. -/
theorem readsFields_singleton (hw : ∀ c ∈ w, isSpace c = true) (name : String) (h : Reads text v)
    {u : List Char} (hu : ∀ c ∈ u, isSpace c = true) :
    ReadsFields (w ++ (JsonValue.quote name ++ ':' :: (text ++ (u ++ ['}'])))) [(name, v)] := by
  intro rest
  have hvalue := h _ (stops_append hu (c := '}') (by decide) rest)
  have hshorter : (text ++ (u ++ '}' :: rest)).length <
      (w ++ (JsonValue.quote name ++ ':' :: (text ++ (u ++ '}' :: rest)))).length := by
    simp
    omega
  simp only [List.append_assoc, List.cons_append, List.nil_append]
  rw [fields?, name?_quote hw]
  simp only [if_pos hshorter, hvalue, next?_done '}' hu (by decide)]

/-- A field before others. -/
theorem readsFields_cons (hw : ∀ c ∈ w, isSpace c = true) (name : String) (h : Reads text v)
    (hmore : ReadsFields more fields) :
    ReadsFields (w ++ (JsonValue.quote name ++ ':' :: (text ++ ',' :: more)))
      ((name, v) :: fields) := by
  intro rest
  have hvalue := h _ (stops_cons (c := ',') (by decide) (more ++ rest))
  have hshorter : (text ++ ',' :: (more ++ rest)).length <
      (w ++ (JsonValue.quote name ++ ':' :: (text ++ ',' :: (more ++ rest)))).length := by
    simp
    omega
  have hmoreShorter : (more ++ rest).length <
      (w ++ (JsonValue.quote name ++ ':' :: (text ++ ',' :: (more ++ rest)))).length := by
    simp
    omega
  simp only [List.append_assoc, List.cons_append]
  rw [fields?, name?_quote hw]
  simp only [if_pos hshorter, hvalue, next?_more '}' (by decide), if_pos hmoreShorter,
    hmore rest, Option.map_some]

end JsonText

namespace JsonValue

open JsonText

variable {text : List Char} {v : JsonValue} {items : List JsonValue} {name : String}
  {fields : List (String × JsonValue)}

/-! ### Texts on one line -/

/-- Every number in a value is a number of the grammar. -/
inductive IsValid : JsonValue → Prop where
  | null : IsValid .null
  | number {text : List Char} (h : isNumber text = true) : IsValid (.number text)
  | string (s : String) : IsValid (.string s)
  | array {items : List JsonValue} (h : ∀ item ∈ items, IsValid item) : IsValid (.array items)
  | object {fields : List (String × JsonValue)} (h : ∀ field ∈ fields, IsValid field.2) :
    IsValid (.object fields)

theorem isSpace_blank : ∀ c ∈ [' '], isSpace c = true := by
  simp [isSpace]

/-- The items of an array are read back if each of them is. -/
theorem readsItems_itemsLine (h : Reads text v)
    (hitems : ∀ item ∈ items, Reads (line .spaced item) item) :
    ReadsItems (text ++ itemsLine .spaced items) (v :: items) := by
  induction items generalizing text v with
  | nil =>
    rw [itemsLine]
    exact readsItems_singleton (w := []) h (by simp)
  | cons item items ih =>
    have hmore := ih ((hitems item List.mem_cons_self).append isSpace_blank)
      fun item hitem => hitems item (List.mem_cons_of_mem _ hitem)
    rw [itemsLine]
    simpa [Marks.spaced] using readsItems_cons h hmore

/-- The fields of an object are read back if each value is. -/
theorem readsFields_fieldsLine {w : List Char} (hw : ∀ c ∈ w, isSpace c = true) (name : String)
    (h : Reads text v) (hfields : ∀ field ∈ fields, Reads (line .spaced field.2) field.2) :
    ReadsFields (w ++ (quote name ++ ':' :: (text ++ fieldsLine .spaced fields)))
      ((name, v) :: fields) := by
  induction fields generalizing w name text v with
  | nil =>
    rw [fieldsLine]
    exact readsFields_singleton hw name h (u := []) (by simp)
  | cons field fields ih =>
    obtain ⟨next, value⟩ := field
    have hmore := ih isSpace_blank next ((hfields _ List.mem_cons_self).append isSpace_blank)
      fun field hfield => hfields field (List.mem_cons_of_mem _ hfield)
    rw [fieldsLine]
    simpa [Marks.spaced] using readsFields_cons hw name h hmore

/-- A value is read back from its text on one line. -/
theorem reads_line (h : v.IsValid) : Reads (line .spaced v) v := by
  induction h with
  | null => exact reads_null
  | number h => exact reads_number h
  | string s => exact reads_quote s
  | @array items _ ih =>
    cases items with
    | nil => exact reads_array_nil
    | cons item items =>
      rw [line]
      exact reads_array (readsItems_itemsLine (ih item List.mem_cons_self)
        fun item hitem => ih item (List.mem_cons_of_mem _ hitem))
  | @object fields _ ih =>
    cases fields with
    | nil => exact reads_object_nil
    | cons field fields =>
      obtain ⟨name, value⟩ := field
      have hread := readsFields_fieldsLine (w := []) (by simp) name
        ((ih _ List.mem_cons_self).append isSpace_blank)
        fun field hfield => ih field (List.mem_cons_of_mem _ hfield)
      rw [line]
      simpa [Marks.spaced] using reads_object hread

/-! ### Texts over several lines -/

namespace Layout

/-- Every number in what is laid out is a number of the grammar. -/
inductive IsValid : Layout → Prop where
  | inline {v : JsonValue} (h : v.IsValid) : IsValid (.inline v)
  | array {items : List Layout} (h : ∀ item ∈ items, IsValid item) : IsValid (.array items)
  | object {fields : List (String × Layout)} (h : ∀ field ∈ fields, IsValid field.2) :
    IsValid (.object fields)

theorem values_map {α : Type} (f : α → Layout) (as : List α) :
    values (as.map f) = as.map fun a => (f a).value := by
  induction as with
  | nil => rfl
  | cons a as ih => rw [List.map_cons, values, ih, List.map_cons]

theorem isSpace_newline (level : Nat) : ∀ c ∈ newline level, isSpace c = true := by
  intro c hc
  obtain rfl | hc := List.mem_cons.mp hc
  · rfl
  · rw [List.eq_of_mem_replicate hc]
    rfl

/-- The items of an array are read back if each of them is. -/
theorem readsItems_renderItems (level : Nat) (h : Reads text v) {items : List Layout}
    (hitems : ∀ item ∈ items, Reads (item.render (level + 1)) item.value) :
    ReadsItems (text ++ renderItems level items) (v :: values items) := by
  induction items generalizing text v with
  | nil =>
    rw [renderItems, values]
    exact readsItems_singleton h (isSpace_newline level)
  | cons item items ih =>
    have hmore := ih ((hitems item List.mem_cons_self).append (isSpace_newline (level + 1)))
      fun item hitem => hitems item (List.mem_cons_of_mem _ hitem)
    rw [renderItems, values]
    exact readsItems_cons h hmore

/-- The fields of an object are read back if each value is. -/
theorem readsFields_renderFields (level : Nat) (name : String) (h : Reads text v)
    {fields : List (String × Layout)}
    (hfields : ∀ field ∈ fields, Reads (field.2.render (level + 1)) field.2.value) :
    ReadsFields (newline (level + 1) ++ (quote name ++ ':' :: (text ++ renderFields level fields)))
      ((name, v) :: fieldValues fields) := by
  induction fields generalizing name text v with
  | nil =>
    rw [renderFields, fieldValues]
    exact readsFields_singleton (isSpace_newline _) name h (isSpace_newline level)
  | cons field fields ih =>
    obtain ⟨next, value⟩ := field
    have hmore := ih next ((hfields _ List.mem_cons_self).append isSpace_blank)
      fun field hfield => hfields field (List.mem_cons_of_mem _ hfield)
    rw [renderFields, fieldValues]
    simpa using readsFields_cons (isSpace_newline _) name h hmore

/-- What is laid out is read back from its text. -/
theorem reads_render {l : Layout} (h : l.IsValid) (level : Nat) :
    Reads (l.render level) l.value := by
  induction h generalizing level with
  | inline h =>
    rw [render, value]
    exact reads_line h
  | @array items _ ih =>
    rw [value]
    cases items with
    | nil => exact reads_array_nil
    | cons item items =>
      have hread := readsItems_renderItems level
        ((ih item List.mem_cons_self (level + 1)).append (isSpace_newline (level + 1)))
        fun item hitem => ih item (List.mem_cons_of_mem _ hitem) (level + 1)
      rw [render, values]
      exact reads_array hread
  | @object fields _ ih =>
    rw [value]
    cases fields with
    | nil => exact reads_object_nil
    | cons field fields =>
      obtain ⟨name, value⟩ := field
      have hread := readsFields_renderFields level name
        ((ih _ List.mem_cons_self (level + 1)).append isSpace_blank)
        fun field hfield => ih field (List.mem_cons_of_mem _ hfield) (level + 1)
      rw [render, fieldValues]
      simpa using reads_object hread

/-- The text of what is laid out is JSON and stands for its value. -/
theorem ofText?_render {l : Layout} (h : l.IsValid) :
    ofText? (String.ofList (l.render 0)) = some l.value := by
  have hread := reads_render h 0 [] (by simp [Stops])
  rw [List.append_nil] at hread
  rw [ofText?, String.toList_ofList, hread]
  exact if_pos rfl

end Layout

end JsonValue

end Interlude
