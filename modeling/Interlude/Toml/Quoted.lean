/-!
# Quoted text in TOML

Text between quotes comes in four forms: on one line or over several, with escapes or literally. The
functions here take what follows the opening quotes; `read` holds the characters read so far, the
last one first.
-/

namespace Interlude.Toml

/-- Whether a character must not stand in a text as it is. -/
def isControl (c : Char) : Bool :=
  (c.toNat < 0x20 && c != '\t') || c.toNat == 0x7F

/-- The value of a digit to the base 16. -/
def hexValue? (c : Char) : Option Nat :=
  if c.isDigit then some (c.toNat - '0'.toNat)
  else if 'a' ≤ c.toLower ∧ c.toLower ≤ 'f' then some (c.toLower.toNat - 'a'.toNat + 10)
  else none

/-- The character with a number, unless that number is none of a character. -/
def codePoint? (digits : List Char) : Option Char := do
  let n := (← digits.mapM hexValue?).foldl (fun n d => 16 * n + d) 0
  if n.isValidChar then some (Char.ofNat n) else none

/-- The character that a letter after a backslash stands for. -/
def escape? (c : Char) : Option Char :=
  match c with
  | 'b' => some '\x08'
  | 't' => some '\t'
  | 'n' => some '\n'
  | 'f' => some '\x0c'
  | 'r' => some '\r'
  | 'e' => some '\x1b'
  | '"' => some '"'
  | '\\' => some '\\'
  | _ => none

/-- Text on one line with escapes, up to the quote. -/
def basic? (read : List Char) : List Char → Option (List Char × List Char)
  | [] => none
  | '"' :: rest => some (read.reverse, rest)
  | '\\' :: 'x' :: a :: b :: rest => do basic? ((← codePoint? [a, b]) :: read) rest
  | '\\' :: 'u' :: a :: b :: c :: d :: rest => do basic? ((← codePoint? [a, b, c, d]) :: read) rest
  | '\\' :: 'U' :: a :: b :: c :: d :: e :: f :: g :: h :: rest => do
    basic? ((← codePoint? [a, b, c, d, e, f, g, h]) :: read) rest
  | '\\' :: c :: rest => do basic? ((← escape? c) :: read) rest
  | c :: rest => if isControl c then none else basic? (c :: read) rest

/-- Text on one line without escapes, up to the quote. -/
def literal? (read : List Char) : List Char → Option (List Char × List Char)
  | [] => none
  | '\'' :: rest => some (read.reverse, rest)
  | c :: rest => if isControl c then none else literal? (c :: read) rest

/-- Whether nothing but blanks stands before the end of the line. -/
def isLineEnd : List Char → Bool
  | '\n' :: _ => true
  | '\r' :: '\n' :: _ => true
  | ' ' :: rest => isLineEnd rest
  | '\t' :: rest => isLineEnd rest
  | _ => false

/-- Text over several lines with escapes, up to three quotes; one or two more belong to the text.
`skipping` tells that a backslash has ended a line, so that blanks and lines are passed over. -/
def basicLines? (skipping : Bool) (read : List Char) : List Char → Option (List Char × List Char)
  | [] => none
  | '"' :: '"' :: '"' :: '"' :: '"' :: rest => some (('"' :: '"' :: read).reverse, rest)
  | '"' :: '"' :: '"' :: '"' :: rest => some (('"' :: read).reverse, rest)
  | '"' :: '"' :: '"' :: rest => some (read.reverse, rest)
  | '\\' :: 'x' :: a :: b :: rest => do basicLines? false ((← codePoint? [a, b]) :: read) rest
  | '\\' :: 'u' :: a :: b :: c :: d :: rest => do
    basicLines? false ((← codePoint? [a, b, c, d]) :: read) rest
  | '\\' :: 'U' :: a :: b :: c :: d :: e :: f :: g :: h :: rest => do
    basicLines? false ((← codePoint? [a, b, c, d, e, f, g, h]) :: read) rest
  | '\\' :: c :: rest =>
    if isLineEnd (c :: rest) then basicLines? true read (c :: rest)
    else do basicLines? false ((← escape? c) :: read) rest
  | '\r' :: '\n' :: rest =>
    basicLines? skipping (if skipping then read else '\n' :: '\r' :: read) rest
  | '\n' :: rest => basicLines? skipping (if skipping then read else '\n' :: read) rest
  | c :: rest =>
    if skipping && (c == ' ' || c == '\t') then basicLines? true read rest
    else if isControl c then none
    else basicLines? false (c :: read) rest

/-- Text over several lines without escapes, up to three quotes; one or two more belong to the
text. -/
def literalLines? (read : List Char) : List Char → Option (List Char × List Char)
  | [] => none
  | '\'' :: '\'' :: '\'' :: '\'' :: '\'' :: rest => some (('\'' :: '\'' :: read).reverse, rest)
  | '\'' :: '\'' :: '\'' :: '\'' :: rest => some (('\'' :: read).reverse, rest)
  | '\'' :: '\'' :: '\'' :: rest => some (read.reverse, rest)
  | '\r' :: '\n' :: rest => literalLines? ('\n' :: '\r' :: read) rest
  | '\n' :: rest => literalLines? ('\n' :: read) rest
  | c :: rest => if isControl c then none else literalLines? (c :: read) rest

/-- Text over several lines does not begin with the end of the line that opens it. -/
def dropLineEnd : List Char → List Char
  | '\n' :: rest => rest
  | '\r' :: '\n' :: rest => rest
  | s => s

/-- A text in quotes of any form, and what follows it. -/
def quoted? : List Char → Option (List Char × List Char)
  | '"' :: '"' :: '"' :: rest => basicLines? false [] (dropLineEnd rest)
  | '"' :: rest => basic? [] rest
  | '\'' :: '\'' :: '\'' :: rest => literalLines? [] (dropLineEnd rest)
  | '\'' :: rest => literal? [] rest
  | _ => none

end Interlude.Toml
