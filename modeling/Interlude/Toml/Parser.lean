import Interlude.Toml.Quoted
import Interlude.Toml.Scalar

/-!
# Reading TOML

A TOML text consists of lines: headers of tables, keys with values, comments and empty lines. Only
text in triple quotes and what stands in brackets or braces goes over several lines. Every function
takes the characters ahead and gives what it has read with those that follow; `bound` is a number of
rounds that no text of its length can exceed, and `depth` the number of brackets and braces that may
still be opened.
-/

namespace Interlude.Toml

/-- Drops blanks. -/
def dropBlanks (s : List Char) : List Char :=
  s.dropWhile fun c => c == ' ' || c == '\t'

/-- Drops blanks, ends of lines and comments. -/
def dropGap (inComment : Bool) : List Char → Option (List Char)
  | [] => some []
  | '\n' :: rest => dropGap false rest
  | '\r' :: '\n' :: rest => dropGap false rest
  | c :: rest =>
    if inComment then if isControl c then none else dropGap true rest
    else if c = ' ' ∨ c = '\t' then dropGap false rest
    else if c = '#' then dropGap true rest
    else some (c :: rest)

/-- What follows the end of a line, before which only blanks and a comment may stand. -/
def endLine? (s : List Char) : Option (List Char) :=
  let comment := match dropBlanks s with
    | '#' :: rest => rest.dropWhile fun c => !isControl c
    | rest => rest
  match comment with
  | [] => some []
  | '\n' :: rest => some rest
  | '\r' :: '\n' :: rest => some rest
  | _ => none

/-- Whether a character may be part of a key without quotes. -/
def isKeyChar (c : Char) : Bool :=
  c.isAlphanum || c == '_' || c == '-'

/-- A key without dots. -/
def simpleKey? (s : List Char) : Option (String × List Char) :=
  match s with
  | '"' :: rest => (basic? [] rest).map fun (key, rest) => (String.ofList key, rest)
  | '\'' :: rest => (literal? [] rest).map fun (key, rest) => (String.ofList key, rest)
  | s =>
    let key := s.takeWhile isKeyChar
    if key.isEmpty then none else some (String.ofList key, s.dropWhile isKeyChar)

/-- The most keys that dots may join, and the most brackets and braces that may be open at once. -/
def deepest : Nat := 80

/-- Up to `most` keys with dots between them, and what follows them and blanks. -/
def keys? : (most : Nat) → List Char → Option (List String × List Char)
  | 0, _ => none
  | most + 1, s => do
    let (name, rest) ← simpleKey? (dropBlanks s)
    match dropBlanks rest with
    | '.' :: rest =>
      let (names, rest) ← keys? most rest
      return (name :: names, rest)
    | rest => return ([name], rest)

/-- A key, of which dots part the names of the tables on the way. -/
def key? (s : List Char) : Option (List String × List Char) :=
  keys? deepest s

mutual

/-- A value. -/
def value? (depth : Nat) : (bound : Nat) → List Char → Option (Toml × List Char)
  | 0, _ => none
  | bound + 1, s =>
    match s with
    | '[' :: rest => do
      guard (0 < depth)
      let (items, rest) ← items? (depth - 1) bound rest
      return (.array items, rest)
    | '\x7b' :: rest => do
      guard (0 < depth)
      let (fields, rest) ← fields? (depth - 1) bound [] rest
      return (.table (Draft.completeFields fields), rest)
    | s =>
      match quoted? s with
      | some (chars, rest) => some (.text (String.ofList chars), rest)
      | none => do
        let (run, rest) := scalarRun s
        return (← scalar? run, rest)

/-- The items of an array and its end. -/
def items? (depth : Nat) : (bound : Nat) → List Char → Option (List Toml × List Char)
  | 0, _ => none
  | bound + 1, s => do
    match ← dropGap false s with
    | ']' :: rest => return ([], rest)
    | s =>
      let (item, rest) ← value? depth bound s
      match ← dropGap false rest with
      | ',' :: rest =>
        let (items, rest) ← items? depth bound rest
        return (item :: items, rest)
      | ']' :: rest => return ([item], rest)
      | _ => none

/-- The fields of a table in braces and its end. -/
def fields? (depth : Nat) :
    (bound : Nat) → Draft.Fields → List Char → Option (Draft.Fields × List Char)
  | 0, _, _ => none
  | bound + 1, fields, s => do
    match ← dropGap false s with
    | '\x7d' :: rest => return (fields, rest)
    | s =>
      let (key, rest) ← key? s
      match ← dropGap false rest with
      | '=' :: rest =>
        let (v, rest) ← value? depth bound (← dropGap false rest)
        let fields ← Draft.assign? v key fields
        match ← dropGap false rest with
        | ',' :: rest => fields? depth bound fields rest
        | '\x7d' :: rest => return (fields, rest)
        | _ => none
      | _ => none

end

/-- The name of a table in its header, up to the closing bracket. -/
def header? (s : List Char) : Option (List String × List Char) := do
  let (path, rest) ← key? s
  match rest with
  | ']' :: rest => return (path, rest)
  | _ => none

/-- Reads lines from a place on; `path` is the table that keys belong to. -/
def lines? : (bound : Nat) → (path : List String) → Draft.Fields → List Char → Option Draft.Fields
  | 0, _, _, _ => none
  | bound + 1, path, fields, s => do
    match ← dropGap false s with
    | [] => return fields
    | '[' :: '[' :: rest =>
      let (path, rest) ← header? rest
      match rest with
      | ']' :: rest =>
        let fields ← Draft.within (Draft.append? (path.getLastD "")) path.dropLast fields
        lines? bound path fields (← endLine? rest)
      | _ => none
    | '[' :: rest =>
      let (path, rest) ← header? rest
      let fields ← Draft.within (Draft.open? (path.getLastD "")) path.dropLast fields
      lines? bound path fields (← endLine? rest)
    | s =>
      let (key, rest) ← key? s
      match rest with
      | '=' :: rest =>
        let (v, rest) ← value? deepest bound (dropBlanks rest)
        let fields ← Draft.within (Draft.assign? v key) path fields
        lines? bound path fields (← endLine? rest)
      | _ => none

/-- Drops the mark of the byte order, which may stand before the first line. -/
def dropByteOrderMark : List Char → List Char
  | '\uFEFF' :: rest => rest
  | s => s

/-- The table of a text. -/
def ofText? (source : String) : Option Toml := do
  let s := dropByteOrderMark source.toList
  return .table (Draft.completeFields (← lines? (2 * s.length + 2) [] [] s))

end Interlude.Toml
