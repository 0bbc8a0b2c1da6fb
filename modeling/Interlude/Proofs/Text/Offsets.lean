import Mathlib
import Interlude.Proofs.Text.Cutting

/-!
# Offsets in bytes

A place in a text is told by the number of bytes before it. Not every number is a place: there is nothing past the
end of the text, and nothing begins within a character. So a piece can only be taken between two places, and it is
taken wherever a text is put together from pieces.
-/

namespace Interlude.Text

variable {sep : Char} {s before after : List Char} {n : Nat}

/-! ### Sizes -/

/-- The number of bytes of a text. -/
def byteSize : List Char → Nat
  | [] => 0
  | c :: s => c.utf8Size + byteSize s

@[simp] theorem byteSize_nil : byteSize [] = 0 := rfl

@[simp] theorem byteSize_cons (c : Char) (s : List Char) :
    byteSize (c :: s) = c.utf8Size + byteSize s := rfl

@[simp] theorem byteSize_append (s t : List Char) : byteSize (s ++ t) = byteSize s + byteSize t := by
  induction s with
  | nil => simp
  | cons c s ih => simp [ih, Nat.add_assoc]

/-- The bytes of a text are those of its characters. -/
theorem byteSize_toList (s : String) : byteSize s.toList = s.utf8ByteSize := by
  rw [← String.ofList_toList (s := s), String.toList_ofList]
  induction s.toList with
  | nil => rfl
  | cons c s ih =>
    rw [byteSize_cons, ih, String.ofList_cons, String.utf8ByteSize_append, String.utf8ByteSize_singleton]

/-- Only the empty text has no bytes. -/
theorem byteSize_eq_zero_iff : byteSize s = 0 ↔ s = [] := by
  cases s with
  | nil => simp
  | cons c s => simp [c.utf8Size_pos.ne']

/-- A text of characters of one byte has as many bytes as characters. -/
theorem byteSize_eq_length (h : ∀ c ∈ s, c.utf8Size = 1) : byteSize s = s.length := by
  induction s with
  | nil => rfl
  | cons c s ih =>
    obtain ⟨hc, hs⟩ := List.forall_mem_cons.mp h
    rw [byteSize_cons, hc, ih hs, List.length_cons, Nat.add_comm]

/-! ### Places -/

/-- The text before a place and the text from there on. -/
def splitAt? : (offset : Nat) → List Char → Option (List Char × List Char)
  | 0, s => some ([], s)
  | _ + 1, [] => none
  | n + 1, c :: s =>
    if c.utf8Size ≤ n + 1 then (splitAt? (n + 1 - c.utf8Size) s).map fun (before, after) => (c :: before, after)
    else none

/-- The text from a place on. -/
def from? (offset : Nat) (s : List Char) : Option (List Char) :=
  (splitAt? offset s).map Prod.snd

/-- The text before a place. -/
def upTo? (offset : Nat) (s : List Char) : Option (List Char) :=
  (splitAt? offset s).map Prod.fst

/-- The text between two places, of which the first one is not behind the other. -/
def between? (start stop : Nat) (s : List Char) : Option (List Char) :=
  if start ≤ stop then from? start s >>= upTo? (stop - start) else none

/-- The place of the first occurrence of a character from a place on, if there is one. There is nothing at all where
the search cannot begin. -/
def find? (sep : Char) (start : Nat) (s : List Char) : Option (Option Nat) := do
  let ahead ← from? start s
  return (cutAt sep ahead).map fun (before, _) => start + byteSize before

/-- Where two pieces are joined is a place. -/
theorem splitAt?_append (before after : List Char) :
    splitAt? (byteSize before) (before ++ after) = some (before, after) := by
  induction before with
  | nil => rw [byteSize_nil, splitAt?, List.nil_append]
  | cons c before ih =>
    obtain ⟨n, hn⟩ := Nat.exists_eq_add_of_lt c.utf8Size_pos
    rw [Nat.zero_add] at hn
    have hsize : c.utf8Size + byteSize before = n + byteSize before + 1 := by omega
    have hrest : n + byteSize before + 1 - c.utf8Size = byteSize before := by omega
    rw [byteSize_cons, hsize, List.cons_append, splitAt?, if_pos (by omega), hrest, ih]
    rfl

/-- There are no other places. -/
theorem splitAt?_eq_some_iff :
    splitAt? n s = some (before, after) ↔ s = before ++ after ∧ n = byteSize before := by
  constructor
  · intro h
    fun_induction splitAt? n s generalizing before after with
    | case1 s =>
      obtain ⟨rfl, rfl⟩ := Prod.mk.inj (Option.some.inj h)
      exact ⟨rfl, rfl⟩
    | case2 => contradiction
    | case3 n c s hfits ih =>
      obtain ⟨⟨init, rest⟩, hsplit, heq⟩ := Option.map_eq_some_iff.mp h
      obtain ⟨rfl, rfl⟩ := Prod.mk.inj heq
      obtain ⟨rfl, hsize⟩ := ih hsplit
      exact ⟨rfl, by rw [byteSize_cons]; omega⟩
    | case4 => contradiction
  · rintro ⟨rfl, rfl⟩
    exact splitAt?_append before after

/-! ### Pieces of a text -/

@[simp] theorem from?_append (before after : List Char) :
    from? (byteSize before) (before ++ after) = some after := by
  rw [from?, splitAt?_append]
  rfl

@[simp] theorem upTo?_append (before after : List Char) :
    upTo? (byteSize before) (before ++ after) = some before := by
  rw [upTo?, splitAt?_append]
  rfl

theorem upTo?_eq_some_iff : upTo? n s = some before ↔ ∃ after, s = before ++ after ∧ n = byteSize before := by
  simp [upTo?, splitAt?_eq_some_iff]

/-- A piece is taken between its ends. -/
theorem between?_append (before piece after : List Char) :
    between? (byteSize before) (byteSize before + byteSize piece) (before ++ piece ++ after) = some piece := by
  rw [between?, if_pos (Nat.le_add_right _ _), List.append_assoc, from?_append, Nat.add_sub_cancel_left]
  exact upTo?_append piece after

/-- A search finds the place where the text ahead is cut. -/
theorem find?_append (sep : Char) (before ahead : List Char) : find? sep (byteSize before) (before ++ ahead) =
    some ((cutAt sep ahead).map fun p => byteSize before + byteSize p.1) := by
  rw [find?, from?_append]
  rfl

/-- What a search finds, or the end of the text if it finds nothing. -/
theorem find?_getD (sep : Char) (before ahead : List Char) :
    ((cutAt sep ahead).map fun p => byteSize before + byteSize p.1).getD (byteSize (before ++ ahead)) =
      byteSize before + byteSize (ahead.takeWhile (· ≠ sep)) := by
  by_cases hmem : sep ∈ ahead
  · obtain ⟨first, after, rfl, hfirst⟩ := List.eq_append_cons_of_mem hmem
    rw [cutAt_append hfirst, takeWhile_ne_append hfirst, Option.map_some, Option.getD_some]
  · rw [cutAt_eq_none hmem, takeWhile_ne_of_not_mem hmem, Option.map_none, Option.getD_none, byteSize_append]

end Interlude.Text
