import Mathlib
import Interlude.Proofs.Script.WellFormed

/-!
# Coordinates in digits

The place of a picture is written in one to three digits, and zeros may stand before the number. The
place of a spot is a number that has room in 32 bits, without a zero before it, however many digits
it has. The two forms have the numbers up to 999 without zeros before them in common, and these are
read alike in both.
-/

namespace Interlude.Script

open Decimal (ofDigits ofDigits_lt)
open Text (isBlank isWordChar)

variable {name : String} {line rest gap gap' gap'' digits x y : List Char}

/-! ### Digits -/

/-- Digits and nothing else. -/
def AreDigits (digits : List Char) : Prop :=
  ∀ c ∈ digits, c.isDigit = true

/-- One to three of them. -/
def IsShort (digits : List Char) : Prop :=
  1 ≤ digits.length ∧ digits.length ≤ 3

/-- No zero stands before a number. -/
def StartsPlainly (digits : List Char) : Prop :=
  digits.head? = some '0' → digits = ['0']

/-- A number that has room in 32 bits, without a zero before it. -/
def IsPlainNumber (digits : List Char) : Prop :=
  digits ≠ [] ∧ StartsPlainly digits ∧ ofDigits digits < 2 ^ 31

instance (digits : List Char) : Decidable (IsShort digits) :=
  inferInstanceAs (Decidable (_ ∧ _))

instance (digits : List Char) : Decidable (StartsPlainly digits) :=
  inferInstanceAs (Decidable (_ → _))

instance (digits : List Char) : Decidable (IsPlainNumber digits) :=
  inferInstanceAs (Decidable (_ ∧ _ ∧ _))

/-- Without digits there is no number. -/
@[simp] theorem not_isShort_nil : ¬ IsShort [] := by decide

/-- Without digits there is no number. -/
@[simp] theorem not_isPlainNumber_nil : ¬ IsPlainNumber [] := by decide

/-- Up to three digits without a zero before the number are a number of either form. -/
theorem isPlainNumber_iff_isShort (hdigits : AreDigits digits) (hlength : digits.length ≤ 3)
    (hstart : StartsPlainly digits) : IsPlainNumber digits ↔ IsShort digits := by
  have hroom : ofDigits digits < 2 ^ 31 :=
    calc ofDigits digits
        < 10 ^ digits.length := ofDigits_lt hdigits
      _ ≤ 10 ^ 3 := Nat.pow_le_pow_right (by decide) hlength
      _ < 2 ^ 31 := by decide
  constructor
  · intro h
    exact ⟨List.length_pos_iff.mpr h.1, hlength⟩
  · intro h
    exact ⟨List.length_pos_iff.mp h.1, hstart, hroom⟩

/-- Digits are the coordinate of a drawing if there are one to three of them. -/
theorem coordinate?_ofList (hdigits : AreDigits digits) :
    coordinate? (String.ofList digits) = if IsShort digits then some (ofDigits digits) else none := by
  have hall : digits.all Char.isDigit = true := List.all_eq_true.mpr hdigits
  have hiff : (digits ≠ [] ∧ digits.length ≤ 3 ∧ digits.all Char.isDigit = true) ↔ IsShort digits := by
    rw [IsShort, Nat.one_le_iff_ne_zero, Ne, Ne, List.length_eq_zero_iff]
    simp only [hall, and_true]
  rw [coordinate?, number?, String.toList_ofList]
  simp only [hiff]

/-- Digits of which the first one is no zero make up a positive number. -/
theorem positive?_of_head {d : Char} (hdigits : AreDigits (d :: rest)) (hd : d ≠ '0') :
    positive? (d :: rest) = some (ofDigits (d :: rest)) := by
  have hrest : rest.all Char.isDigit = true :=
    List.all_eq_true.mpr fun c hc => hdigits c (List.mem_cons_of_mem d hc)
  rw [positive?, hdigits d List.mem_cons_self, hrest, if_pos]
  simpa using hd

/-- A number of no more than 31 binary digits has room in 32. -/
theorem inRange_natCast (n : Nat) :
    inRange n = if n < 2 ^ 31 then some (n : Int) else none := by
  have hiff : (Int32.minValue.toInt ≤ (n : Int) ∧ (n : Int) ≤ Int32.maxValue.toInt) ↔ n < 2 ^ 31 := by
    have hmin : Int32.minValue.toInt = -2 ^ 31 := rfl
    have hmax : Int32.maxValue.toInt = 2 ^ 31 - 1 := rfl
    rw [hmin, hmax]
    omega
  rw [inRange]
  simp only [hiff]

/-- Digits are the coordinate of a spot if they are a number of 32 bits without a zero before it. -/
theorem spotCoordinate?_ofList (hdigits : AreDigits digits) :
    spotCoordinate? (String.ofList digits) =
      if IsPlainNumber digits then some (ofDigits digits : Int) else none := by
  rw [spotCoordinate?, String.toList_ofList]
  cases digits with
  | nil => rfl
  | cons d rest =>
    have hd : d.isDigit = true := hdigits d List.mem_cons_self
    by_cases hzero : d = '0'
    · subst hzero
      cases rest with
      | nil => rfl
      | cons c rest =>
        have hplain : ¬ IsPlainNumber ('0' :: c :: rest) := fun h => by simpa using h.2.1 rfl
        rw [if_neg hplain]
        rfl
    · have hplain : IsPlainNumber (d :: rest) ↔ ofDigits (d :: rest) < 2 ^ 31 := by
        simp [IsPlainNumber, StartsPlainly, hzero]
      simp only [hplain]
      rw [← inRange_natCast]
      split
      · rename_i heq
        exact absurd (List.cons.inj heq).1 hzero
      · rename_i heq
        rw [(List.cons.inj heq).1] at hd
        contradiction
      · rename_i heq
        rw [(List.cons.inj heq).1] at hd
        contradiction
      · rw [positive?_of_head hdigits hzero, Option.bind_some]

/-! ### Lines -/

/-- A run of spaces and tabs parts the words of a line. -/
theorem words_append_gap (hgap : IsGap gap) (hne : gap ≠ []) (line rest : List Char) :
    words (line ++ gap ++ rest) = words line ++ words rest := by
  obtain ⟨c, after, rfl⟩ := List.exists_cons_of_ne_nil hne
  have hafter : IsGap after := fun d hd => hgap d (List.mem_cons_of_mem c hd)
  have hnil : IsGap [] := fun d hd => absurd hd List.not_mem_nil
  have hrest : words (after ++ rest ++ []) = words rest := words_between hafter hnil
  rw [List.append_nil] at hrest
  rw [List.append_assoc, List.cons_append, words_append_cons (hgap c List.mem_cons_self), hrest]

/-- Digits are one word, if there are any. -/
theorem words_of_areDigits (hdigits : AreDigits digits) :
    words digits = if digits = [] then [] else [String.ofList digits] := by
  split
  · rename_i hnil
    rw [hnil]
    rfl
  · rename_i hne
    refine words_eq_singleton hne fun c hc => Text.isBlank_of_isWordChar ?_
    simp [isWordChar, Char.isAlphanum, hdigits c hc]

/-- A word of one to eight letters, digits and underscores is a name, and a line of it is one word. -/
theorem words_of_isWord (hlength : 1 ≤ name.length ∧ name.length ≤ 8)
    (hword : ∀ c ∈ name.toList, isWordChar c = true) :
    name? name = some name ∧ words name.toList = [name] := by
  have hne : name.toList ≠ [] := List.length_pos_iff.mp hlength.1
  refine ⟨if_pos ⟨hne, hlength.2, List.all_eq_true.mpr hword⟩, ?_⟩
  rw [words_eq_singleton hne fun c hc => Text.isBlank_of_isWordChar (hword c hc), String.ofList_toList]

/-- With a name and digits, a line is a spot if both numbers are plain. -/
theorem spot?_of_words (hname : name? name = some name) (hx : AreDigits x) (hy : AreDigits y)
    (hline : words line = name :: (words x ++ words y)) :
    spot? line = if IsPlainNumber x ∧ IsPlainNumber y then
      some ⟨name, ofDigits x, ofDigits y⟩ else none := by
  rw [spot?, hline, words_of_areDigits hx, words_of_areDigits hy]
  -- Where digits are missing, the line has too few words.
  rcases eq_or_ne x [] with rfl | hxnil
  · by_cases hynil : y = [] <;> simp [hynil]
  rcases eq_or_ne y [] with rfl | hynil
  · simp [hxnil]
  simp only [if_neg hxnil, if_neg hynil, List.singleton_append, hname, spotCoordinate?_ofList hx,
    spotCoordinate?_ofList hy]
  by_cases hxplain : IsPlainNumber x <;> by_cases hyplain : IsPlainNumber y <;>
    simp [hxplain, hyplain]

/-- With digits and a name after its word, a line is a picture if both numbers are short. -/
theorem ofLine?_of_words (hname : name? name = some name) (hx : AreDigits x) (hy : AreDigits y)
    (hline : words line = "PIC" :: (words x ++ words y ++ [name])) :
    Directive.ofLine? line = if IsShort x ∧ IsShort y then
      some (.picture .always (ofDigits x) (ofDigits y) name) else none := by
  have hguard : Directive.ofWords? ([] ++ words line) = drawing? .always (words line) :=
    ofWords?_append .always trivial (Or.inl (by rw [hline]; rfl))
  rw [List.nil_append] at hguard
  rw [Directive.ofLine?, hguard, hline, words_of_areDigits hx, words_of_areDigits hy]
  rcases eq_or_ne x [] with rfl | hxnil
  · by_cases hynil : y = [] <;> simp [hynil, drawing?]
  rcases eq_or_ne y [] with rfl | hynil
  · simp [hxnil, drawing?]
  simp only [if_neg hxnil, if_neg hynil, List.cons_append, List.nil_append, drawing?, hname,
    coordinate?_ofList hx, coordinate?_ofList hy]
  by_cases hxshort : IsShort x <;> by_cases hyshort : IsShort y <;> simp [hxshort, hyshort]

/-- The line of a spot and that of a picture with the same numbers are read alike exactly if both or
neither of the two forms takes the numbers: one to three digits in the line of a picture, a number of
32 bits without a zero before it in the line of a spot. Up to three digits without a zero before the
number are taken by both or, where one is missing, by neither. -/
theorem coordinates_of_spot_and_picture (hlength : 1 ≤ name.length ∧ name.length ≤ 8)
    (hword : ∀ c ∈ name.toList, isWordChar c = true) (hx : AreDigits x) (hy : AreDigits y)
    (hgap : IsGap gap ∧ gap ≠ []) (hgap' : IsGap gap' ∧ gap' ≠ []) (hgap'' : IsGap gap'' ∧ gap'' ≠ []) :
    let spotLine := name.toList ++ gap ++ x ++ gap' ++ y
    let pictureLine := "PIC".toList ++ gap ++ x ++ gap' ++ y ++ gap'' ++ name.toList
    let asPicture := fun spot : Spot => Directive.picture .always spot.x.toNat spot.y.toNat spot.map
    (spot? spotLine = if IsPlainNumber x ∧ IsPlainNumber y then
        some ⟨name, ofDigits x, ofDigits y⟩ else none) ∧
      (Directive.ofLine? pictureLine = if IsShort x ∧ IsShort y then
        some (.picture .always (ofDigits x) (ofDigits y) name) else none) ∧
      ((spot? spotLine).map asPicture = Directive.ofLine? pictureLine ↔
        (IsPlainNumber x ∧ IsPlainNumber y ↔ IsShort x ∧ IsShort y)) ∧
      ((∀ digits ∈ [x, y], StartsPlainly digits ∧ digits.length ≤ 3) →
        (spot? spotLine).map asPicture = Directive.ofLine? pictureLine) := by
  intro spotLine pictureLine asPicture
  obtain ⟨hname, hwords⟩ := words_of_isWord hlength hword
  have hpic : words "PIC".toList = ["PIC"] := by decide +kernel
  have hspotWords : words spotLine = name :: (words x ++ words y) := by
    rw [words_append_gap hgap'.1 hgap'.2, words_append_gap hgap.1 hgap.2, hwords, List.append_assoc]
    rfl
  have hpictureWords : words pictureLine = "PIC" :: (words x ++ words y ++ [name]) := by
    rw [words_append_gap hgap''.1 hgap''.2, words_append_gap hgap'.1 hgap'.2,
      words_append_gap hgap.1 hgap.2, hwords, hpic, List.append_assoc ["PIC"],
      List.append_assoc ["PIC"]]
    rfl
  have hspot := spot?_of_words hname hx hy hspotWords
  have hpicture := ofLine?_of_words hname hx hy hpictureWords
  have halike : (spot? spotLine).map asPicture = Directive.ofLine? pictureLine ↔
      (IsPlainNumber x ∧ IsPlainNumber y ↔ IsShort x ∧ IsShort y) := by
    rw [hspot, hpicture]
    by_cases hplain : IsPlainNumber x ∧ IsPlainNumber y <;>
      by_cases hshort : IsShort x ∧ IsShort y <;> simp [hplain, hshort, asPicture]
  refine ⟨hspot, hpicture, halike, fun h => halike.mpr ?_⟩
  obtain ⟨hxstart, hxlength⟩ := h x List.mem_cons_self
  obtain ⟨hystart, hylength⟩ := h y (List.mem_cons_of_mem x List.mem_cons_self)
  rw [isPlainNumber_iff_isShort hx hxlength hxstart, isPlainNumber_iff_isShort hy hylength hystart]

/-- Numbers of three digits and of one are read alike, with any spaces and tabs before them. -/
theorem coordinates_of_spot_and_picture_tabs :
    ((1 ≤ "e1m1".length ∧ "e1m1".length ≤ 8) ∧ (∀ c ∈ "e1m1".toList, isWordChar c = true) ∧
      AreDigits ['1', '8', '5'] ∧ AreDigits ['0'] ∧ IsGap [' ', '\t'] ∧ IsGap ['\t']) ∧
      spot? "e1m1 \t185\t0".toList = some ⟨"e1m1", 185, 0⟩ ∧
      Directive.ofLine? "PIC \t185\t0 \te1m1".toList = some (.picture .always 185 0 "e1m1") := by
  have hlength : 1 ≤ "e1m1".length ∧ "e1m1".length ≤ 8 := by decide
  have hword : ∀ c ∈ "e1m1".toList, isWordChar c = true := by simp [isWordChar]
  have hx : AreDigits ['1', '8', '5'] := by simp [AreDigits]
  have hy : AreDigits ['0'] := by simp [AreDigits]
  have hgap : IsGap [' ', '\t'] := by simp [IsGap]
  have hgap' : IsGap ['\t'] := by simp [IsGap]
  obtain ⟨hspot, hpicture, -, -⟩ := coordinates_of_spot_and_picture hlength hword hx hy
    ⟨hgap, by decide⟩ ⟨hgap', by decide⟩ ⟨hgap, by decide⟩
  have hplain : IsPlainNumber ['1', '8', '5'] ∧ IsPlainNumber ['0'] := by decide
  have hshort : IsShort ['1', '8', '5'] ∧ IsShort ['0'] := by decide
  rw [if_pos hplain] at hspot
  rw [if_pos hshort] at hpicture
  exact ⟨⟨hlength, hword, hx, hy, hgap, hgap'⟩, hspot, hpicture⟩

/-- A zero before a coordinate keeps a line from being a spot, and a fourth digit keeps it from being a
picture. -/
theorem coordinates_with_leading_zero :
    (Script.ofText "INTERA" "SPOTS\n\x7b\nMAP01 007 5\n\x7d").spots = [] ∧
      Script.warningsOf "SPOTS\n\x7b\nMAP01 007 5\n\x7d" = [.notSpot 3 "MAP01 007 5".toList] ∧
      (Script.ofText "INTERA" "PIC 007 5 MAP01").drawings =
        [⟨7, 5, .always, .still, ["MAP01"]⟩] ∧
      (Script.ofText "INTERA" "SPOTS\n\x7b\nMAP01 1000 5\n\x7d").spots = [⟨"MAP01", 1000, 5⟩] ∧
      (Script.ofText "INTERA" "PIC 1000 5 MAP01").drawings = [] := by
  decide +kernel

end Interlude.Script
