import Interlude.MapTable.Basic
import Interlude.Text.Blank
import Interlude.Text.Lines

/-!
# Reading map definitions

A definition is a line that begins with the word `map` and a token, and after it, wherever they
stand, an opening brace, lines of the form `key = value`, and a closing brace. Everything else in
the text is passed over. Reading goes through the text once and always ends: what is left to read
is a shorter end of the text each time.
-/

namespace Interlude.Mapinfo

/-- The properties of a map that matter here. -/
inductive Key where
  | titlePatch | enterPic | exitPic | next | secretNext | music
  deriving DecidableEq, Repr

/-- The property with a name in lower case. -/
def Key.ofWord? : String → Option Key
  | "titlepatch" => some .titlePatch
  | "enterpic" => some .enterPic
  | "exitpic" => some .exitPic
  | "next" => some .next
  | "secretnext" => some .secretNext
  | "music" => some .music
  | _ => none

/-- A definition: the token of the map and the properties in the order of the lines. -/
structure Block where
  token : String
  properties : List (Key × String)
  deriving DecidableEq, Repr

/-- What is wrong at the end of a text. -/
inductive Fault where
  /-- There is no opening brace after the token. -/
  | noBlock (token : String)
  /-- There is no closing brace; the block goes to the end of the text. -/
  | unclosed (token : String)
  deriving DecidableEq, Repr

/-- The text of a fault. -/
def Fault.message : Fault → String
  | .noBlock token => s!"mapinfo: MAP {token} has no property block"
  | .unclosed token => s!"mapinfo: MAP {token} block is not closed"

/-- The definitions of a text and what is wrong at its end. -/
structure Scan where
  blocks : List Block
  fault : Option Fault
  deriving DecidableEq, Repr

/-- The longest token. -/
def maxToken : Nat := 8

/-- A blank that does not end the line. -/
def isInlineBlank (c : Char) : Bool :=
  Text.isBlank c && c != '\n'

/-- The token of the definition that the first line begins, and the text after the token. -/
def header? (s : List Char) : Option (List Char × List Char) :=
  match s.dropWhile isInlineBlank with
  | m :: a :: p :: afterWord =>
    let fromToken := afterWord.dropWhile isInlineBlank
    let token := fromToken.takeWhile Text.isWordChar
    if Text.sameLetters [m, a, p] ['m', 'a', 'p'] && fromToken.length != afterWord.length &&
        0 < token.length && token.length ≤ maxToken
    then some (token, fromToken.dropWhile Text.isWordChar)
    else none
  | _ => none

/-- A value without the quotes around it, if there are quotes on both sides. -/
def unquote (value : List Char) : List Char :=
  match value with
  | '"' :: inner => if inner.getLast? = some '"' then inner.dropLast else value
  | _ => value

/-- The property that a line gives, if its key is a word that matters. -/
def property? (line : List Char) : Option (Key × String) := do
  let (before, after) ← Text.cutAt '=' line
  let word := Text.trim before
  if word.isEmpty || !word.all Text.isWordChar then none
  let key ← Key.ofWord? (Text.lower (String.ofList word))
  return (key, String.ofList (unquote (Text.trim after)))

/-- The properties in the text between the braces. -/
def properties (body : List Char) : List (Key × String) :=
  (Text.lines body).filterMap property?

/-- The text after the first line. -/
def afterLine (s : List Char) : List Char :=
  (s.dropWhile (· ≠ '\n')).drop 1

theorem length_dropWhile_le (p : Char → Bool) (s : List Char) :
    (s.dropWhile p).length ≤ s.length :=
  (List.dropWhile_suffix p).length_le

/-- What follows the token is shorter than the text. -/
theorem length_lt_of_header {s token rest : List Char} (h : header? s = some (token, rest)) :
    rest.length < s.length := by
  unfold header? at h
  split at h
  · rename_i m a p afterWord found
    simp only [Option.ite_none_right_eq_some, Option.some.injEq, Prod.mk.injEq] at h
    have h1 := length_dropWhile_le isInlineBlank s
    have h2 := length_dropWhile_le isInlineBlank afterWord
    have h3 := length_dropWhile_le Text.isWordChar (afterWord.dropWhile isInlineBlank)
    rw [found] at h1
    simp only [List.length_cons] at h1
    rw [← h.2.2]
    omega
  · simp at h

/-- Past a cut there is less text than before it. -/
theorem length_lt_of_cutAt {sep : Char} {s before after : List Char}
    (h : Text.cutAt sep s = some (before, after)) : after.length < s.length := by
  rw [Text.eq_append_of_cutAt h]
  simp
  omega

/-- Reads the definitions from the start of a line on. -/
def scan (s : List Char) : Scan :=
  if _ : s = [] then ⟨[], none⟩
  else
    match _ : header? s with
    | none => scan (afterLine s)
    | some (token, rest) =>
      let token := String.ofList token
      match _ : Text.cutAt '{' rest with
      | none => ⟨[], some (.noBlock token)⟩
      | some (_, inner) =>
        match _ : Text.cutAt '}' inner with
        | none => ⟨[⟨token, properties inner⟩], some (.unclosed token)⟩
        | some (body, rest) =>
          let following := scan rest
          { following with blocks := ⟨token, properties body⟩ :: following.blocks }
termination_by s.length
decreasing_by
  · have := length_dropWhile_le (· ≠ '\n') s
    have := List.length_pos_iff.2 ‹s ≠ []›
    simp only [afterLine, List.length_drop]
    omega
  · have := length_lt_of_header ‹header? s = _›
    have := length_lt_of_cutAt ‹Text.cutAt '{' _ = _›
    have := length_lt_of_cutAt ‹Text.cutAt '}' _ = _›
    omega

/-! ### From definitions to map records -/

/-- The last value of a property; an empty one counts as absent. -/
def Block.property? (b : Block) (key : Key) : Option String :=
  (b.properties.reverse.lookup key).filter (· ≠ "")

/-- The name of the end picture in a value of the form `endpic, "NAME"`. -/
def endPicture? (next : String) : Option String :=
  let s := next.toList
  if Text.sameLetters (s.take 6) ['e', 'n', 'd', 'p', 'i', 'c'] then
    match Text.trimStart (s.drop 6) with
    | ',' :: afterComma =>
      match Text.trim afterComma with
      | '"' :: quoted =>
        let name := quoted.dropLast
        if quoted.getLast? = some '"' ∧ name ≠ [] ∧ name.length ≤ maxToken ∧
            name.all Text.isWordChar
        then some (String.ofList name)
        else none
      | _ => none
    | _ => none
  else none

/-- Whether a value is one of the words that end the game. -/
def isEndGame (next : String) : Bool :=
  Text.sameLetters (next.toList.take 7) ['E', 'n', 'd', 'G', 'a', 'm', 'e']

/-- The script that a picture property refers to by a dollar sign. -/
def scriptOf? (pic : String) : Option String :=
  match pic.toList with
  | '$' :: name => some (String.ofList name)
  | _ => none

/-- The picture that a picture property names itself. -/
def literalOf? (pic : String) : Option String :=
  if (scriptOf? pic).isSome then none else some pic

/-- The next map, unless it is the one that follows in the table. -/
def explicitNext (next following : Option String) : Option String :=
  next.filter fun n => following.all fun f => !Text.sameName f n

/-- Where the player goes from a map: to an end picture, to the end, or to the next maps. -/
structure Exits where
  endPic : Option String
  next : Option String
  secretNext : Option String

/-- The exits by the values of the two properties and the token of the map that follows. A secret
exit that leads where the next one leads is none of its own. -/
def Exits.ofProperties (next secretNext following : Option String) : Exits :=
  match next.bind endPicture? with
  | some pic => ⟨some pic, none, none⟩
  | none =>
    if next.any isEndGame then ⟨none, none, none⟩
    else ⟨none, explicitNext next following, secretNext.filter fun s => next ≠ some s⟩

/-- The record of a definition with its number and the token of the definition that follows. -/
def Block.record (b : Block) (ordinal : Nat) (following : Option String) : MapRecord :=
  let enterPic := b.property? .enterPic
  let exitPic := b.property? .exitPic
  let exits := Exits.ofProperties (b.property? .next) (b.property? .secretNext) following
  { ordinal
    token := b.token
    levelPic := b.property? .titlePatch
    enterScript := enterPic.bind scriptOf?
    exitScript := exitPic.bind scriptOf?
    enterPic := enterPic.bind literalOf?
    exitPic := exitPic.bind literalOf?
    endPic := exits.endPic
    next := exits.next
    secretNext := exits.secretNext
    music := b.property? .music }

/-- The records of definitions in the order of the table, numbered from `ordinal` on. -/
def records (ordinal : Nat) : List Block → List MapRecord
  | [] => []
  | b :: rest => b.record ordinal (rest.head?.map (·.token)) :: records (ordinal + 1) rest

/-- The definitions in the order of the table. -/
def arrange (order : OrdinalOrder) (blocks : List Block) : List Block :=
  match order with
  | .declaration => blocks
  | .sortedByToken =>
    blocks.mergeSort fun a b => !decide (Text.upper b.token < Text.upper a.token)

end Interlude.Mapinfo

namespace Interlude

/-- The map table of a text. -/
def MapTable.ofText (text : String) (order : OrdinalOrder) : MapTable :=
  ⟨Mapinfo.records 1 (Mapinfo.arrange order (Mapinfo.scan text.toList).blocks)⟩

/-- What is wrong at the end of a text. -/
def MapTable.faultOfText (text : String) : Option Mapinfo.Fault :=
  (Mapinfo.scan text.toList).fault

end Interlude
