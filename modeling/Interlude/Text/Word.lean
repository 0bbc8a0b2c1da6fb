/-!
# Words and letter case

Names in map tables and scripts are words of ASCII letters, digits and underscores. Case matters
nowhere in them, and only the ASCII letters have a case.
-/

namespace Interlude.Text

/-- An ASCII letter, an ASCII digit or an underscore. -/
def isWordChar (c : Char) : Bool :=
  c.isAlphanum || c == '_'

/-- A text with its ASCII letters in upper case. -/
def upper (s : String) : String :=
  String.ofList (s.toList.map Char.toUpper)

/-- A text with its ASCII letters in lower case. -/
def lower (s : String) : String :=
  String.ofList (s.toList.map Char.toLower)

/-- Equality of characters up to the case of ASCII letters. -/
def sameLetters (a b : List Char) : Bool :=
  a.map Char.toLower == b.map Char.toLower

/-- Equality of texts up to the case of ASCII letters. -/
def sameName (a b : String) : Bool :=
  sameLetters a.toList b.toList

theorem sameLetters_iff {a b : List Char} :
    sameLetters a b = true ↔ a.map Char.toLower = b.map Char.toLower := by
  simp [sameLetters]

theorem sameName_iff {a b : String} :
    sameName a b = true ↔ a.toList.map Char.toLower = b.toList.map Char.toLower :=
  sameLetters_iff

end Interlude.Text
