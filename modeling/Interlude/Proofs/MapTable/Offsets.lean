import Mathlib
import Interlude.Proofs.MapTable.ReadBack
import Interlude.Proofs.MapTable.Scanning
import Interlude.Proofs.Text.Offsets

/-!
# Reading definitions by offsets

Definitions can be read without cutting the text up, by counting bytes: a line begins at some offset, its token ends
so many bytes further on, and braces are looked for from there. Every offset that is reached so is a place of
the text, so that all pieces can be taken, and every round goes on behind what the rounds before it have read. What
is read is the same as by cutting, and each definition stands in a span of its own.
-/

namespace Interlude.Mapinfo

open Text (byteSize from? upTo? between? trimStart isWordChar sameLetters)

variable {c : Char} {s line token rest word afterWord : List Char}

/-! ### Headers -/

/-- The token of the definition that a line begins, and the number of bytes up to its end. There is nothing at all
if a piece that is taken does not lie between two places. -/
def headerAt? (line : List Char) : Option (Option (List Char × Nat)) :=
  let trimmed := trimStart line
  match upTo? 3 trimmed with
  | none => some none
  | some word =>
    if sameLetters word ['m', 'a', 'p'] then do
      let afterWord ← from? 3 trimmed
      let fromToken := trimStart afterWord
      let width := byteSize (fromToken.takeWhile isWordChar)
      if byteSize fromToken = byteSize afterWord ∨ width = 0 ∨ maxToken < width then return none
      let token ← upTo? width fromToken
      return some (token, byteSize line - byteSize fromToken + width)
    else some none

/-- A character of ASCII has one byte. -/
theorem utf8Size_eq_one (h : c.toNat < 128) : c.utf8Size = 1 :=
  Char.utf8Size_eq_one_iff.mpr (UInt32.le_iff_toNat_le.mpr (Nat.lt_succ_iff.mp h))

/-- Characters of words have one byte. -/
theorem utf8Size_of_isWordChar (h : isWordChar c = true) : c.utf8Size = 1 := by
  refine utf8Size_eq_one ?_
  simp only [isWordChar, Char.isAlphanum, Char.isAlpha, Char.isUpper, Char.isLower, Char.isDigit, Bool.or_eq_true,
    Bool.and_eq_true, decide_eq_true_eq, beq_iff_eq, UInt32.le_iff_toNat_le, ge_iff_le] at h
  rcases h with ((h | h) | h) | rfl
  · exact Nat.lt_of_le_of_lt h.2 (by decide)
  · exact Nat.lt_of_le_of_lt h.2 (by decide)
  · exact Nat.lt_of_le_of_lt h.2 (by decide)
  · decide

/-- A character has one byte if it has one in lower case. -/
theorem utf8Size_of_toLower (h : c.toLower.toNat < 128) : c.utf8Size = 1 := by
  by_cases hupper : c.isUpper = true
  · exact utf8Size_of_isWordChar (by simp [isWordChar, Char.isAlphanum, Char.isAlpha, hupper])
  · rw [Char.toLower_eq_of_not_isUpper hupper] at h
    exact utf8Size_eq_one h

/-- The word that begins a definition has a byte for each of its letters. -/
theorem byteSize_of_sameLetters (h : sameLetters word ['m', 'a', 'p'] = true) :
    word.length = 3 ∧ byteSize word = 3 := by
  have hlower : word.map Char.toLower = ['m', 'a', 'p'] := Text.sameLetters_iff.mp h
  have hlength : word.length = 3 := by simpa using congrArg List.length hlower
  refine ⟨hlength, (Text.byteSize_eq_length fun c hc => utf8Size_of_toLower ?_).trans hlength⟩
  have hmem : c.toLower ∈ ['m', 'a', 'p'] := hlower ▸ List.mem_map_of_mem hc
  have hletters : ∀ d ∈ ['m', 'a', 'p'], d.toNat < 128 := by simp
  exact hletters _ hmem

/-- On a line the blanks are those that do not end it. -/
theorem dropWhile_isInlineBlank (h : '\n' ∉ s) : s.dropWhile isInlineBlank = trimStart s := by
  induction s with
  | nil => rfl
  | cons c s ih =>
    rw [List.mem_cons, not_or] at h
    have hc : isInlineBlank c = Text.isBlank c := by
      simp [isInlineBlank, Ne.symm h.1]
    rw [trimStart, List.dropWhile_cons, List.dropWhile_cons, hc, ih h.2]
    rfl

/-- What is left of a text is all of it if it has as many characters, or as many bytes. -/
theorem byteSize_dropWhile_eq_iff (p : Char → Bool) (s : List Char) :
    byteSize (s.dropWhile p) = byteSize s ↔ (s.dropWhile p).length = s.length := by
  have hsize := congrArg byteSize (List.takeWhile_append_dropWhile (p := p) (l := s))
  have hlength := congrArg List.length (List.takeWhile_append_dropWhile (p := p) (l := s))
  rw [Text.byteSize_append] at hsize
  rw [List.length_append] at hlength
  rw [show byteSize (s.dropWhile p) = byteSize s ↔ byteSize (s.takeWhile p) = 0 by omega,
    show (s.dropWhile p).length = s.length ↔ (s.takeWhile p).length = 0 by omega,
    Text.byteSize_eq_zero_iff, List.length_eq_zero_iff]

/-- A token has a byte for each of its characters, and it ends at a place. -/
theorem token_places (fromToken : List Char) :
    byteSize (fromToken.takeWhile isWordChar) = (fromToken.takeWhile isWordChar).length ∧
      upTo? (byteSize (fromToken.takeWhile isWordChar)) fromToken = some (fromToken.takeWhile isWordChar) ∧
      byteSize fromToken =
        byteSize (fromToken.takeWhile isWordChar) + byteSize (fromToken.dropWhile isWordChar) := by
  have hparts := List.takeWhile_append_dropWhile (p := isWordChar) (l := fromToken)
  refine ⟨Text.byteSize_eq_length fun c hc => utf8Size_of_isWordChar (List.mem_takeWhile_imp hc), ?_, ?_⟩
  · exact Text.upTo?_eq_some_iff.mpr ⟨_, hparts.symm, rfl⟩
  · rw [← Text.byteSize_append, hparts]

/-- On a line that begins with the word, the token is looked for behind the blanks after it. -/
theorem header?_of_word (hline : '\n' ∉ line) (htrimmed : trimStart line = word ++ afterWord)
    (hletters : sameLetters word ['m', 'a', 'p'] = true) : header? line =
      let fromToken := trimStart afterWord
      let token := fromToken.takeWhile isWordChar
      if fromToken.length ≠ afterWord.length ∧ 0 < token.length ∧ token.length ≤ maxToken then
        some (token, fromToken.dropWhile isWordChar)
      else none := by
  obtain ⟨m, a, p, rfl⟩ := List.length_eq_three.mp (byteSize_of_sameLetters hletters).1
  have hnewline : '\n' ∉ afterWord := fun hmem =>
    hline ((List.dropWhile_suffix _).subset (htrimmed ▸ List.mem_append_right _ hmem))
  rw [header?, dropWhile_isInlineBlank hline, htrimmed]
  simp only [List.cons_append, List.nil_append, dropWhile_isInlineBlank hnewline, hletters, Bool.true_and,
    Bool.and_eq_true, bne_iff_ne, decide_eq_true_eq, and_assoc]

/-- It is the same by offsets, as the word and the token end at places. -/
theorem headerAt?_of_word (htrimmed : trimStart line = word ++ afterWord)
    (hletters : sameLetters word ['m', 'a', 'p'] = true) : headerAt? line =
      let fromToken := trimStart afterWord
      let token := fromToken.takeWhile isWordChar
      some (if byteSize fromToken = byteSize afterWord ∨ byteSize token = 0 ∨ maxToken < byteSize token then none
        else some (token, byteSize line - byteSize fromToken + byteSize token)) := by
  have hsize := (byteSize_of_sameLetters hletters).2
  have hword : upTo? 3 (word ++ afterWord) = some word := hsize ▸ Text.upTo?_append word afterWord
  have hafter : from? 3 (word ++ afterWord) = some afterWord := hsize ▸ Text.from?_append word afterWord
  have htoken := (token_places (trimStart afterWord)).2.1
  rw [headerAt?, htrimmed]
  simp only [hword, hletters, hafter, htoken, if_true, Option.bind_eq_bind, Option.bind_some]
  split <;> rfl

/-- No token is looked for on a line that does not begin with the word. -/
theorem header?_of_no_word (hline : '\n' ∉ line)
    (h : ∀ word afterWord, trimStart line = word ++ afterWord → sameLetters word ['m', 'a', 'p'] = false) :
    header? line = none ∧ headerAt? line = some none := by
  constructor
  · rw [header?, dropWhile_isInlineBlank hline]
    split
    · rename_i m a p afterWord htrimmed
      simp [h [m, a, p] afterWord htrimmed]
    · rfl
  · rw [headerAt?]
    cases hfirst : upTo? 3 (trimStart line) with
    | none => rfl
    | some word =>
      obtain ⟨after, htrimmed, -⟩ := Text.upTo?_eq_some_iff.mp hfirst
      simp [h word after htrimmed]

/-- The header of a line is found by offsets, and all its pieces can be taken. -/
theorem headerAt?_eq (hline : '\n' ∉ line) : headerAt? line =
    some ((header? line).map fun (token, rest) => (token, byteSize line - byteSize rest)) := by
  by_cases hword : ∃ word afterWord, trimStart line = word ++ afterWord ∧
      sameLetters word ['m', 'a', 'p'] = true
  · obtain ⟨word, afterWord, htrimmed, hletters⟩ := hword
    have hsame : byteSize (trimStart afterWord) = byteSize afterWord ↔
        (trimStart afterWord).length = afterWord.length := byteSize_dropWhile_eq_iff Text.isBlank afterWord
    have hinside : byteSize (trimStart afterWord) ≤ byteSize line := by
      have hparts : line = line.takeWhile Text.isBlank ++ (word ++
          (afterWord.takeWhile Text.isBlank ++ trimStart afterWord)) := by
        rw [trimStart, List.takeWhile_append_dropWhile, ← htrimmed, trimStart, List.takeWhile_append_dropWhile]
      rw [hparts]
      simp only [Text.byteSize_append]
      omega
    rw [headerAt?_of_word htrimmed hletters, header?_of_word hline htrimmed hletters]
    generalize trimStart afterWord = fromToken at hsame hinside
    obtain ⟨hwidth, -, hbehind⟩ := token_places fromToken
    simp only
    by_cases haccepted : fromToken.length ≠ afterWord.length ∧ 0 < (fromToken.takeWhile isWordChar).length ∧
        (fromToken.takeWhile isWordChar).length ≤ maxToken
    · have hcount : byteSize line - byteSize fromToken + byteSize (fromToken.takeWhile isWordChar) =
          byteSize line - byteSize (fromToken.dropWhile isWordChar) := by omega
      rw [if_pos haccepted, if_neg (by rw [hsame]; omega), Option.map_some, hcount]
    · rw [if_neg haccepted, if_pos (by rw [hsame]; omega), Option.map_none]
  · have hnone := header?_of_no_word hline fun word afterWord htrimmed =>
      Bool.eq_false_iff.mpr fun hletters => hword ⟨word, afterWord, htrimmed, hletters⟩
    rw [hnone.1, hnone.2, Option.map_none]

/-- The header of the definition that a text begins is found on its first line. -/
theorem headerAt?_takeWhile (s : List Char) : headerAt? (s.takeWhile (· ≠ '\n')) =
    some ((header? s).map fun (token, rest) => (token, byteSize s - byteSize rest)) := by
  by_cases hmem : '\n' ∈ s
  · obtain ⟨first, more, rfl, hfirst⟩ := List.eq_append_cons_of_mem hmem
    have hbehind : ∀ rest : List Char, byteSize (first ++ '\n' :: more) - byteSize (rest ++ '\n' :: more) =
        byteSize first - byteSize rest := by
      intro rest
      rw [Text.byteSize_append, Text.byteSize_append, Nat.add_sub_add_right]
    rw [Text.takeWhile_ne_append hfirst, headerAt?_eq hfirst, header?_append_newline]
    cases header? first with
    | none => rfl
    | some found => simp only [Option.map_some, hbehind]
  · rw [Text.takeWhile_ne_of_not_mem hmem, headerAt?_eq hmem]

/-! ### Definitions -/

/-- Where a definition stands: the offsets of its header, of its opening brace, and of its closing brace or of the
end of the text. -/
structure Span where
  start : Nat
  opening : Nat
  closing : Nat
  deriving DecidableEq, Repr

/-- A definition and where it stands. -/
structure Placed where
  span : Span
  block : Block
  deriving DecidableEq, Repr

/-- Reads the definitions of a text from an offset on, in so many rounds at most. There is nothing at all if they do
not suffice, or if a piece that is taken does not lie between two places. -/
def scanFrom? (text : List Char) (rounds pos : Nat) : Option (List Placed × Option Fault) :=
  if byteSize text ≤ pos then some ([], none)
  else
    match rounds with
    | 0 => none
    | rounds + 1 => do
      let lineEnd := (← Text.find? '\n' pos text).getD (byteSize text)
      match ← headerAt? (← between? pos lineEnd text) with
      | none => scanFrom? text rounds (lineEnd + 1)
      | some (token, consumed) =>
        let token' := String.ofList token
        match ← Text.find? '{' (pos + consumed) text with
        | none => return ([], some (.noBlock token'))
        | some opening =>
          let closing? ← Text.find? '}' opening text
          let closing := closing?.getD (byteSize text)
          let block : Block := ⟨token', properties (← between? (opening + 1) closing text)⟩
          let (following, fault) ← scanFrom? text rounds (closing + 1)
          return (⟨⟨pos, opening, closing⟩, block⟩ :: following,
            if closing?.isNone then some (.unclosed token') else fault)

/-- The header of a definition: the word and, behind blanks, the token, with blanks in front or without. -/
def IsHeader (header token : List Char) : Prop :=
  ∃ blanks word gap, header = blanks ++ word ++ gap ++ token ∧ (∀ c ∈ blanks, isInlineBlank c = true) ∧
    sameLetters word ['m', 'a', 'p'] = true ∧ gap ≠ [] ∧ (∀ c ∈ gap, isInlineBlank c = true) ∧
    IsToken (String.ofList token)

/-- What is read as a header is one, and the token is read as far as it goes. -/
theorem isHeader_of_header? (h : header? s = some (token, rest)) :
    ∃ header, s = header ++ rest ∧ IsHeader header token ∧ ∀ c ∈ rest.head?, isWordChar c = false := by
  have htoken := isToken_of_header? h
  unfold header? at h
  split at h
  · rename_i m a p afterWord htrimmed
    simp only [Option.ite_none_right_eq_some, Bool.and_eq_true, bne_iff_ne, decide_eq_true_eq, Option.some.injEq,
      Prod.mk.injEq] at h
    obtain ⟨⟨⟨⟨hletters, hgap⟩, -⟩, -⟩, hword, hrest⟩ := h
    have hblanks := List.takeWhile_append_dropWhile (p := isInlineBlank) (l := s)
    have hafter := List.takeWhile_append_dropWhile (p := isInlineBlank) (l := afterWord)
    have hparts := List.takeWhile_append_dropWhile (p := isWordChar) (l := afterWord.dropWhile isInlineBlank)
    rw [hword, hrest] at hparts
    refine ⟨s.takeWhile isInlineBlank ++ [m, a, p] ++ afterWord.takeWhile isInlineBlank ++ token, ?_,
      ⟨_, _, _, rfl, fun c hc => List.mem_takeWhile_imp hc, hletters, ?_,
        fun c hc => List.mem_takeWhile_imp hc, htoken⟩, ?_⟩
    · simp only [List.append_assoc]
      rw [hparts, hafter, List.cons_append, List.cons_append, List.cons_append, List.nil_append, ← htrimmed, hblanks]
    · intro hempty
      rw [hempty, List.nil_append] at hafter
      exact hgap (congrArg List.length hafter)
    · intro c hc
      rw [← hrest] at hc
      have hstop := List.head?_dropWhile_not isWordChar (afterWord.dropWhile isInlineBlank)
      rw [Option.mem_def.mp hc] at hstop
      simpa using hstop
  · contradiction

/-- A definition stands in a text where its span tells: there is its header, and its block goes from the first opening
brace behind the header to the first closing brace behind that one, or to the end of the text. -/
def Placed.StandsIn (p : Placed) (text : List Char) : Prop :=
  ∃ before header token gap body after, text = before ++ header ++ gap ++ '{' :: body ++ after ∧
    IsHeader header token ∧ (∀ c ∈ (gap ++ ['{']).head?, isWordChar c = false) ∧ '{' ∉ gap ∧ '}' ∉ body ∧
    (after = [] ∨ ∃ rest, after = '}' :: rest) ∧
    p = ⟨⟨byteSize before, byteSize (before ++ header ++ gap), byteSize (before ++ header ++ gap ++ '{' :: body)⟩,
      ⟨String.ofList token, properties body⟩⟩

/-- Where a definition stands is within the text, and its braces come in their order. -/
theorem Placed.StandsIn.span_bounds {text : List Char} {p : Placed} (h : p.StandsIn text) :
    p.span.start < p.span.opening ∧ p.span.opening < p.span.closing ∧ p.span.closing ≤ byteSize text := by
  obtain ⟨before, header, token, gap, body, after, rfl, hheader, -, -, -, -, rfl⟩ := h
  obtain ⟨blanks, word, behind, rfl, -, hletters, -⟩ := hheader
  have hword := (byteSize_of_sameLetters hletters).2
  have hbrace := ('{' : Char).utf8Size_pos
  simp only [Text.byteSize_append, Text.byteSize_cons]
  omega

/-! ### Rounds -/

variable {text header gap inner : List Char} {rounds pos : Nat}

/-- What stands after a line that is ended. -/
theorem afterLine_append (h : '\n' ∉ s) (rest : List Char) : afterLine (s ++ '\n' :: rest) = rest := by
  rw [afterLine, Text.dropWhile_ne_append h, List.drop_one, List.tail_cons]

/-- Nothing stands after the last line. -/
theorem afterLine_of_not_mem (h : '\n' ∉ s) : afterLine s = [] := by
  rw [afterLine, Text.dropWhile_ne_of_not_mem h, List.drop_nil]

/-- There are rounds left where there is something to read. -/
theorem exists_rounds (hs : s ≠ []) (h : byteSize s ≤ rounds) : ∃ left, rounds = left + 1 := by
  have hsize := mt Text.byteSize_eq_zero_iff.mp hs
  exact Nat.exists_eq_succ_of_ne_zero (by omega)

/-- At the end of the text there is nothing to read, and neither is there past it. -/
theorem scanFrom?_end (h : byteSize text ≤ pos) : scanFrom? text rounds pos = some ([], none) := by
  unfold scanFrom?
  rw [if_pos h]

/-- A round takes the first line of what is ahead and looks for a header on it. -/
theorem scanFrom?_round (hs : s ≠ []) (before : List Char) (rounds : Nat) :
    scanFrom? (before ++ s) (rounds + 1) (byteSize before) =
      match header? s with
      | none => scanFrom? (before ++ s) rounds (byteSize before + byteSize (s.takeWhile (· ≠ '\n')) + 1)
      | some (token, rest) => do
        let token' := String.ofList token
        match ← Text.find? '{' (byteSize before + (byteSize s - byteSize rest)) (before ++ s) with
        | none => return ([], some (.noBlock token'))
        | some opening =>
          let closing? ← Text.find? '}' opening (before ++ s)
          let closing := closing?.getD (byteSize (before ++ s))
          let block : Block := ⟨token', properties (← between? (opening + 1) closing (before ++ s))⟩
          let (following, fault) ← scanFrom? (before ++ s) rounds (closing + 1)
          return (⟨⟨byteSize before, opening, closing⟩, block⟩ :: following,
            if closing?.isNone then some (.unclosed token') else fault) := by
  have hahead : ¬ byteSize (before ++ s) ≤ byteSize before := by
    rw [Text.byteSize_append]
    have := mt Text.byteSize_eq_zero_iff.mp hs
    omega
  have hline : between? (byteSize before) (byteSize before + byteSize (s.takeWhile (· ≠ '\n'))) (before ++ s) =
      some (s.takeWhile (· ≠ '\n')) := by
    have hparts := Text.between?_append before (s.takeWhile (· ≠ '\n')) (s.dropWhile (· ≠ '\n'))
    rwa [List.append_assoc, List.takeWhile_append_dropWhile] at hparts
  rw [scanFrom?, if_neg hahead]
  simp only [Text.find?_append '\n' before s, Option.bind_eq_bind, Option.bind_some, Text.find?_getD, hline,
    headerAt?_takeWhile]
  cases header? s <;> rfl

/-- A line without a header is passed over. -/
theorem scanFrom?_of_header?_eq_none (hs : s ≠ []) (h : header? s = none) (before : List Char) (rounds : Nat) :
    scanFrom? (before ++ s) (rounds + 1) (byteSize before) =
      scanFrom? (before ++ s) rounds (byteSize before + byteSize (s.takeWhile (· ≠ '\n')) + 1) := by
  simp only [scanFrom?_round hs, h]

/-- The opening brace is looked for from the end of the header on. -/
theorem find?_behind_header (sep : Char) (before header rest : List Char) :
    Text.find? sep (byteSize before + (byteSize (header ++ rest) - byteSize rest)) (before ++ (header ++ rest)) =
      some ((Text.cutAt sep rest).map fun p => byteSize (before ++ header) + byteSize p.1) := by
  have hplace : byteSize before + (byteSize (header ++ rest) - byteSize rest) = byteSize (before ++ header) := by
    rw [Text.byteSize_append, Text.byteSize_append, Nat.add_sub_cancel]
  rw [hplace, ← List.append_assoc]
  exact Text.find?_append sep (before ++ header) rest

/-- Where no brace follows a header, reading ends. -/
theorem scanFrom?_of_noBlock (h : header? (header ++ rest) = some (token, rest)) (hs : header ++ rest ≠ [])
    (hopen : Text.cutAt '{' rest = none) (before : List Char) (rounds : Nat) :
    scanFrom? (before ++ (header ++ rest)) (rounds + 1) (byteSize before) =
      some ([], some (.noBlock (String.ofList token))) := by
  simp only [scanFrom?_round hs, h, find?_behind_header, hopen, Option.map_none, Option.bind_eq_bind,
    Option.bind_some]
  rfl

/-- The piece from behind an opening brace to the closing one. -/
theorem between?_block (front inner : List Char) :
    between? (byteSize front + 1) (byteSize (front ++ '{' :: inner.takeWhile (· ≠ '}'))) (front ++ '{' :: inner) =
      some (inner.takeWhile (· ≠ '}')) := by
  have hbrace : ('{' : Char).utf8Size = 1 := rfl
  have hparts := Text.between?_append (front ++ ['{']) (inner.takeWhile (· ≠ '}')) (inner.dropWhile (· ≠ '}'))
  rw [List.append_assoc (front ++ ['{']), List.takeWhile_append_dropWhile, List.append_assoc] at hparts
  simpa only [Text.byteSize_append, Text.byteSize_cons, Text.byteSize_nil, hbrace, List.singleton_append,
    Nat.add_zero, Nat.add_assoc] using hparts

/-- The block of a definition is the text between its braces, and reading goes on behind it. -/
theorem scanFrom?_of_block (h : header? (header ++ rest) = some (token, rest))
    (hs : header ++ rest ≠ []) (hopen : Text.cutAt '{' rest = some (gap, inner)) (before : List Char) (rounds : Nat) :
    let front := before ++ header ++ gap
    let body := inner.takeWhile (· ≠ '}')
    scanFrom? (before ++ (header ++ rest)) (rounds + 1) (byteSize before) = do
      let (following, fault) ← scanFrom? (before ++ (header ++ rest)) rounds (byteSize (front ++ '{' :: body) + 1)
      return (⟨⟨byteSize before, byteSize front, byteSize (front ++ '{' :: body)⟩,
          ⟨String.ofList token, properties body⟩⟩ :: following,
        if (Text.cutAt '}' inner).isNone then some (.unclosed (String.ofList token)) else fault) := by
  intro front body
  have htext : before ++ (header ++ rest) = front ++ '{' :: inner := by
    rw [Text.eq_append_of_cutAt hopen]
    simp [front]
  have hopening : byteSize (before ++ header) + byteSize gap = byteSize front :=
    (Text.byteSize_append _ _).symm
  have hfind := find?_behind_header '{' before header rest
  have hclose : Text.find? '}' (byteSize front) (front ++ '{' :: inner) = _ :=
    Text.find?_append '}' front ('{' :: inner)
  have hclosing := Text.find?_getD '}' front ('{' :: inner)
  have hpiece : between? (byteSize front + 1) (byteSize (front ++ '{' :: body)) (front ++ '{' :: inner) = some body :=
    between?_block front inner
  have hbody : ('{' :: inner).takeWhile (· ≠ '}') = '{' :: body := by simp [body]
  have hnone : ((Text.cutAt '}' ('{' :: inner)).map fun p => byteSize front + byteSize p.1).isNone =
      (Text.cutAt '}' inner).isNone := by
    rw [Option.isNone_map, Bool.eq_iff_iff, Option.isNone_iff_eq_none, Option.isNone_iff_eq_none]
    refine ⟨fun hcut => Text.cutAt_eq_none fun hmem => ?_, fun hcut => Text.cutAt_eq_none ?_⟩
    · exact Text.not_mem_of_cutAt_eq_none hcut (List.mem_cons_of_mem _ hmem)
    · exact List.not_mem_cons_of_ne_of_not_mem (by decide) (Text.not_mem_of_cutAt_eq_none hcut)
  rw [hbody, ← Text.byteSize_append] at hclosing
  rw [scanFrom?_round hs]
  simp only [h, hfind, hopen, Option.map_some, Option.bind_eq_bind, Option.bind_some, hopening]
  rw [htext]
  simp only [hclose, hclosing, hpiece, hnone, Option.bind_some]

/-- The definition that is read stands where it is read. -/
theorem standsIn_of_isHeader (hheader : IsHeader header token)
    (hstop : ∀ c ∈ rest.head?, isWordChar c = false) (hopen : Text.cutAt '{' rest = some (gap, inner))
    (before : List Char) :
    let front := before ++ header ++ gap
    let body := inner.takeWhile (· ≠ '}')
    Placed.StandsIn ⟨⟨byteSize before, byteSize front, byteSize (front ++ '{' :: body)⟩,
      ⟨String.ofList token, properties body⟩⟩ (before ++ (header ++ rest)) := by
  have hrest := Text.eq_append_of_cutAt hopen
  refine ⟨before, header, token, gap, inner.takeWhile (· ≠ '}'), inner.dropWhile (· ≠ '}'), ?_, hheader, ?_,
    Text.not_mem_of_cutAt hopen, fun hmem => by simpa using List.mem_takeWhile_imp hmem, ?_, rfl⟩
  · simp [hrest]
  · intro c hc
    refine hstop c ?_
    rw [hrest]
    cases gap <;> exact hc
  · by_cases hmem : '}' ∈ inner
    · obtain ⟨body, after, rfl, hbody⟩ := List.eq_append_cons_of_mem hmem
      exact Or.inr ⟨after, Text.dropWhile_ne_append hbody after⟩
    · exact Or.inl (Text.dropWhile_ne_of_not_mem hmem)

/-! ### The whole text -/

/-- Definitions that stand in a text from a place on, in spans that are one behind the other. -/
structure AreFrom (start : Nat) (text : List Char) (placed : List Placed) : Prop where
  apart : placed.Pairwise fun a b => a.span.closing < b.span.start
  standsIn : ∀ p ∈ placed, start ≤ p.span.start ∧ p.StandsIn text

theorem AreFrom.nil {start : Nat} : AreFrom start text [] :=
  ⟨List.Pairwise.nil, fun _ hp => absurd hp List.not_mem_nil⟩

/-- They stand from any earlier place on. -/
theorem AreFrom.mono {start start' : Nat} {placed : List Placed} (h : AreFrom start text placed)
    (hle : start' ≤ start) : AreFrom start' text placed :=
  ⟨h.apart, fun p hp => ⟨hle.trans (h.standsIn p hp).1, (h.standsIn p hp).2⟩⟩

/-- A definition that stands before all of them is one more. -/
theorem AreFrom.cons {start : Nat} {p : Placed} {placed : List Placed} (hp : p.StandsIn text)
    (hstart : start ≤ p.span.start) (h : AreFrom (p.span.closing + 1) text placed) :
    AreFrom start text (p :: placed) := by
  have hclosing := hp.span_bounds
  refine ⟨List.pairwise_cons.mpr ⟨fun q hq => (h.standsIn q hq).1, h.apart⟩, ?_⟩
  exact List.forall_mem_cons.mpr ⟨⟨hstart, hp⟩, (h.mono (by omega)).standsIn⟩

/-- From any place on, the same is read by offsets as by cutting, with as many rounds as there are bytes ahead, and the
definitions stand from there on. -/
theorem exists_scanFrom?_eq (s before : List Char) (rounds : Nat) (h : byteSize s ≤ rounds) :
    ∃ placed, scanFrom? (before ++ s) rounds (byteSize before) = some (placed, (scan s).fault) ∧
      placed.map Placed.block = (scan s).blocks ∧ AreFrom (byteSize before) (before ++ s) placed := by
  fun_induction scan s generalizing before rounds with
  | case1 => exact ⟨[], scanFrom?_end (by simp), rfl, AreFrom.nil⟩
  | case2 s hs hheader ih =>
    obtain ⟨rounds, rfl⟩ := exists_rounds hs h
    rw [scanFrom?_of_header?_eq_none hs hheader]
    by_cases hmem : '\n' ∈ s
    · obtain ⟨line, more, rfl, hline⟩ := List.eq_append_cons_of_mem hmem
      have htext : before ++ (line ++ '\n' :: more) = before ++ line ++ ['\n'] ++ more := by simp
      have hplace : byteSize before + byteSize line + 1 = byteSize (before ++ line ++ ['\n']) := by
        rw [← Text.byteSize_append]
        exact (Text.byteSize_append _ ['\n']).symm
      have hahead : byteSize more ≤ rounds := by
        have hnewline := ('\n' : Char).utf8Size_pos
        simp only [Text.byteSize_append, Text.byteSize_cons] at h
        omega
      obtain ⟨placed, hscan, hblocks, hplaced⟩ := (afterLine_append hline more ▸ ih) _ rounds hahead
      rw [Text.takeWhile_ne_append hline, afterLine_append hline, htext, hplace]
      exact ⟨placed, hscan, hblocks, hplaced.mono (by simp only [Text.byteSize_append]; omega)⟩
    · rw [afterLine_of_not_mem hmem, scan, dif_pos rfl, Text.takeWhile_ne_of_not_mem hmem]
      exact ⟨[], scanFrom?_end (by rw [Text.byteSize_append]; omega), rfl, AreFrom.nil⟩
  | case3 s hs token rest hheader _ hopen =>
    obtain ⟨rounds, rfl⟩ := exists_rounds hs h
    obtain ⟨header, rfl, -⟩ := isHeader_of_header? hheader
    exact ⟨[], scanFrom?_of_noBlock hheader hs hopen before rounds, rfl, AreFrom.nil⟩
  | case4 s hs token rest hheader _ gap inner hopen hclose =>
    obtain ⟨rounds, rfl⟩ := exists_rounds hs h
    obtain ⟨header, rfl, hparts, hstop⟩ := isHeader_of_header? hheader
    have hstand := standsIn_of_isHeader hparts hstop hopen before
    have hround := scanFrom?_of_block hheader hs hopen before rounds
    have htext : before ++ (header ++ rest) = before ++ header ++ gap ++ '{' :: inner := by
      rw [Text.eq_append_of_cutAt hopen]
      simp
    simp only [Text.takeWhile_ne_of_not_mem (Text.not_mem_of_cutAt_eq_none hclose), hclose, ← htext,
      scanFrom?_end (Nat.le_succ _)] at hstand hround
    exact ⟨_, hround, rfl, AreFrom.cons hstand (Nat.le_refl _) AreFrom.nil⟩
  | case5 s hs token rest hheader _ gap inner hopen body after hclose following ih =>
    obtain ⟨rounds, rfl⟩ := exists_rounds hs h
    obtain ⟨header, rfl, hparts, hstop⟩ := isHeader_of_header? hheader
    have hstand := standsIn_of_isHeader hparts hstop hopen before
    have hround := scanFrom?_of_block hheader hs hopen before rounds
    have hbody : inner.takeWhile (· ≠ '}') = body := by
      rw [Text.eq_append_of_cutAt hclose, Text.takeWhile_ne_append (Text.not_mem_of_cutAt hclose)]
    simp only [hbody, hclose] at hstand hround
    have htext : before ++ (header ++ rest) = before ++ header ++ gap ++ '{' :: body ++ ['}'] ++ after := by
      rw [Text.eq_append_of_cutAt hopen, Text.eq_append_of_cutAt hclose]
      simp
    have hplace : byteSize (before ++ header ++ gap ++ '{' :: body) + 1 =
        byteSize (before ++ header ++ gap ++ '{' :: body ++ ['}']) :=
      (Text.byteSize_append _ ['}']).symm
    have hahead : byteSize after ≤ rounds := by
      have hbrace := ('}' : Char).utf8Size_pos
      have hsize := congrArg byteSize htext
      simp only [Text.byteSize_append, Text.byteSize_cons] at hsize h
      omega
    obtain ⟨placed, hscan, hblocks, hplaced⟩ := ih _ rounds hahead
    rw [← htext, ← hplace] at hscan hplaced
    rw [hscan] at hround
    exact ⟨_, hround, congrArg _ hblocks, AreFrom.cons hstand (Nat.le_refl _) hplaced⟩

/-- Reading a text by offsets ends within as many rounds as the text has bytes, takes only pieces that lie between
two places of the text, and reads what is read by cutting. The definitions stand one behind the other in spans of
their own, each of which goes from a header through the first opening brace behind it to the first closing brace
behind that one, or to the end of the text. -/
theorem scanFrom?_eq_scan (text : String) :
    ∃ placed, scanFrom? text.toList text.utf8ByteSize 0 = some (placed, (scan text.toList).fault) ∧
      placed.map Placed.block = (scan text.toList).blocks ∧
      placed.Pairwise (fun a b => a.span.closing < b.span.start) ∧
      ∀ p ∈ placed, p.StandsIn text.toList ∧ IsToken p.block.token ∧ p.span.start < p.span.opening ∧
        p.span.opening < p.span.closing ∧ p.span.closing ≤ text.utf8ByteSize := by
  obtain ⟨placed, hscan, hblocks, hplaced⟩ :=
    exists_scanFrom?_eq text.toList [] text.utf8ByteSize (Text.byteSize_toList text).le
  refine ⟨placed, hscan, hblocks, hplaced.apart, fun p hp => ?_⟩
  have hstand := (hplaced.standsIn p hp).2
  have hbounds := hstand.span_bounds
  rw [List.nil_append, Text.byteSize_toList] at hbounds
  refine ⟨hstand, ?_, hbounds⟩
  obtain ⟨-, -, token, -, -, -, -, ⟨-, -, -, -, -, -, -, -, htoken⟩, -, -, -, -, rfl⟩ := hstand
  exact htoken

end Interlude.Mapinfo
