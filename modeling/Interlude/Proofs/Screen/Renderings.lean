import Mathlib
import Interlude.Proofs.Text.Cutting
import Interlude.Proofs.Text.Escapes
import Interlude.Proofs.Text.LetterCase
import Interlude.Screen

/-!
# The two renderings of the exit screen

With colours a cell is a sequence of codes and a character, and a row ends by a sequence of its own and a line
feed. Without the sequences, and without the blanks at the ends of lines, this is the plain rendering: a code
page knows neither escapes nor ends of lines. The codes can be read back, because the first two digits of a
colour tell it from every other one; so cells that are rendered alike look alike, whatever their characters
are, and rows and screens that are rendered alike have the same shape.
-/

namespace Interlude

/-! ### Codes -/

namespace Screen

/-- The codes of a look: the colour behind, the colour in front, and whether it blinks. -/
def codesOf (bg fg : Nat) (blink : Bool) : List Char :=
  (bgCodes.getD (bg % 8) "").toList ++ ';' :: (fgCodes.getD (fg % 16) "").toList ++
    if blink then [';', '5'] else []

/-- The number of the colour whose code begins with the two digits that a text begins with. -/
def colorOf (codes : List String) (text : List Char) : Nat :=
  codes.findIdx fun code => code.toList.take 2 == text.take 2

/-- The look of which codes tell. -/
def lookOf (codes : List Char) : Nat × Nat × Bool :=
  let bg := colorOf bgCodes codes
  let front := codes.drop ((bgCodes.getD bg "").length + 1)
  let fg := colorOf fgCodes front
  (bg, fg, !(front.drop (fgCodes.getD fg "").length).isEmpty)

/-- The look is read back from its codes, in which there is no letter m. -/
theorem lookOf_codesOf : ∀ (bg : Fin 8) (fg : Fin 16) (blink : Bool),
    lookOf (codesOf bg fg blink) = (bg.val, fg.val, blink) ∧ 'm' ∉ codesOf bg fg blink := by
  decide +kernel

/-- No codes are those that set all colours back. -/
theorem codesOf_ne_reset (bg fg : Nat) (blink : Bool) : codesOf bg fg blink ≠ ['0'] := by
  intro h
  have hmem : ';' ∈ codesOf bg fg blink := by simp [codesOf]
  rw [h] at hmem
  exact absurd hmem (by decide)

end Screen

namespace Cell

open Screen Text

/-- A cell has colours that a code is there for. -/
def HasColors (c : Cell) : Prop :=
  c.fg < 16 ∧ c.bg < 8

/-- Two cells look alike: they show one character in the same colours, and both blink or neither does. -/
def LooksLike (a b : Cell) : Prop :=
  a.char = b.char ∧ a.fg = b.fg ∧ a.bg = b.bg ∧ a.blink = b.blink

/-- The codes of a cell. -/
def codes (c : Cell) : List Char :=
  codesOf c.bg c.fg c.blink

variable {a b c : Cell}

/-- There is no letter m in the codes of a cell. -/
theorem m_notMem_codes (c : Cell) : 'm' ∉ c.codes := by
  have hcodes : c.codes = codesOf (c.bg % 8) (c.fg % 16) c.blink := by
    simp [codes, codesOf]
  rw [hcodes]
  exact (lookOf_codesOf ⟨c.bg % 8, Nat.mod_lt _ (by decide)⟩ ⟨c.fg % 16, Nat.mod_lt _ (by decide)⟩
    c.blink).2

/-- The look of a cell is read back from its codes. -/
theorem HasColors.lookOf_codes (h : c.HasColors) : lookOf c.codes = (c.bg, c.fg, c.blink) :=
  (lookOf_codesOf ⟨c.bg, h.2⟩ ⟨c.fg, h.1⟩ c.blink).1

/-- A cell is rendered as its codes and its character. -/
theorem toList_ansiCell (c : Cell) : (ansiCell c).toList = escapeOf c.codes ++ [c.char] := by
  have htoString (s : String) : toString s = s := rfl
  cases hblink : c.blink with
  | false => simp [ansiCell, escapeOf, escapeChar, codes, codesOf, hblink, htoString]
  | true => simp [ansiCell, escapeOf, escapeChar, codes, codesOf, hblink, htoString]

/-- Cells with the same codes and the same character look alike. -/
theorem looksLike_of_codes_eq (ha : a.HasColors) (hb : b.HasColors) (hcodes : a.codes = b.codes)
    (hchar : a.char = b.char) : a.LooksLike b := by
  have hlooks := ha.lookOf_codes
  rw [hcodes, hb.lookOf_codes, Prod.mk.injEq, Prod.mk.injEq] at hlooks
  obtain ⟨hbg, hfg, hblink⟩ := hlooks
  exact ⟨hchar, hfg.symm, hbg.symm, hblink.symm⟩

/-- Cells that look alike are rendered alike. -/
theorem LooksLike.ansiCell_eq (h : a.LooksLike b) : ansiCell a = ansiCell b := by
  obtain ⟨hchar, hfg, hbg, hblink⟩ := h
  rw [ansiCell, ansiCell, hchar, hfg, hbg, hblink]

end Cell

/-! ### Rows and screens -/

namespace Screen

open Text

/-- The text of a row with colours. -/
def ansiRow (row : List Cell) : List Char :=
  row.flatMap (fun c => (ansiCell c).toList) ++ (escapeOf ['0'] ++ ['\n'])

/-- The text of a screen with colours is that of its rows. -/
theorem toList_ansi (s : Screen) : s.ansi.toList = s.rows.flatMap ansiRow := by
  have hreset : "\x1b[0m\n".toList = escapeOf ['0'] ++ ['\n'] := by decide
  simp only [ansi, String.toList_join, List.flatMap_map, String.toList_append, hreset]
  rfl

/-- The text of a row begins with its first sequence: that of a cell, or that of the end of the row. -/
theorem ansiRow_nil_append (rest : List Char) :
    ansiRow [] ++ rest = escapeOf ['0'] ++ ('\n' :: rest) := by
  simp [ansiRow]

theorem ansiRow_cons_append (c : Cell) (row : List Cell) (rest : List Char) :
    ansiRow (c :: row) ++ rest = escapeOf c.codes ++ (c.char :: (ansiRow row ++ rest)) := by
  simp [ansiRow, Cell.toList_ansiCell]

/-- The sequence that ends a row has no letter m before its end. -/
theorem m_notMem_reset : 'm' ∉ ['0'] := by
  decide

/-- A row is known from the text that it begins. -/
theorem looksLike_of_ansiRow_append_eq {row row' : List Cell} {rest rest' : List Char}
    (hrow : ∀ c ∈ row, c.HasColors) (hrow' : ∀ c ∈ row', c.HasColors)
    (h : ansiRow row ++ rest = ansiRow row' ++ rest') :
    List.Forall₂ Cell.LooksLike row row' ∧ rest = rest' := by
  induction row generalizing row' with
  | nil =>
    cases row' with
    | nil => exact ⟨.nil, List.append_cancel_left h⟩
    | cons b row' =>
      -- The sequence that ends a row is none with which a cell begins.
      rw [ansiRow_nil_append, ansiRow_cons_append] at h
      have hcodes := (escapeOf_append_inj m_notMem_reset b.m_notMem_codes h).1
      exact absurd hcodes.symm (codesOf_ne_reset _ _ _)
  | cons a row ih =>
    cases row' with
    | nil =>
      rw [ansiRow_nil_append, ansiRow_cons_append] at h
      have hcodes := (escapeOf_append_inj a.m_notMem_codes m_notMem_reset h).1
      exact absurd hcodes (codesOf_ne_reset _ _ _)
    | cons b row' =>
      obtain ⟨ha, hrow⟩ := List.forall_mem_cons.mp hrow
      obtain ⟨hb, hrow'⟩ := List.forall_mem_cons.mp hrow'
      rw [ansiRow_cons_append, ansiRow_cons_append] at h
      obtain ⟨hcodes, hothers⟩ := escapeOf_append_inj a.m_notMem_codes b.m_notMem_codes h
      obtain ⟨hchar, hothers⟩ := List.cons.inj hothers
      obtain ⟨hcells, hrest⟩ := ih hrow hrow' hothers
      exact ⟨.cons (Cell.looksLike_of_codes_eq ha hb hcodes hchar) hcells, hrest⟩

/-- The cells of a screen have colours that codes are there for. -/
def HasColors (s : Screen) : Prop :=
  ∀ row ∈ s.rows, ∀ c ∈ row, c.HasColors

/-- Screens that are rendered alike have the same shape, and their cells look alike. -/
theorem looksLike_of_flatMap_ansiRow_eq {rows rows' : List (List Cell)}
    (hrows : ∀ row ∈ rows, ∀ c ∈ row, c.HasColors) (hrows' : ∀ row ∈ rows', ∀ c ∈ row, c.HasColors)
    (h : rows.flatMap ansiRow = rows'.flatMap ansiRow) :
    List.Forall₂ (List.Forall₂ Cell.LooksLike) rows rows' := by
  induction rows generalizing rows' with
  | nil =>
    cases rows' with
    | nil => exact .nil
    | cons row' rows' => simp [ansiRow] at h
  | cons row rows ih =>
    cases rows' with
    | nil => simp [ansiRow] at h
    | cons row' rows' =>
      obtain ⟨hrow, hrows⟩ := List.forall_mem_cons.mp hrows
      obtain ⟨hrow', hrows'⟩ := List.forall_mem_cons.mp hrows'
      rw [List.flatMap_cons, List.flatMap_cons] at h
      obtain ⟨hfirst, hothers⟩ := looksLike_of_ansiRow_append_eq hrow hrow' h
      exact .cons hfirst (ih hrows hrows' hothers)

/-- Items that are alike in what a function gives for them give the same list. -/
private theorem map_eq_of_forall₂ {α β : Type} {r : α → α → Prop} {f : α → β} {items others : List α}
    (hf : ∀ a b, r a b → f a = f b) (h : List.Forall₂ r items others) : items.map f = others.map f := by
  induction h with
  | nil => rfl
  | cons hitem _ ih => rw [List.map_cons, List.map_cons, hf _ _ hitem, ih]

/-- With its colours a screen is rendered like another one exactly if the two have the same shape and their
cells look alike. -/
theorem ansi_eq_iff {s t : Screen} (hs : s.HasColors) (ht : t.HasColors) :
    s.ansi = t.ansi ↔ List.Forall₂ (List.Forall₂ Cell.LooksLike) s.rows t.rows := by
  constructor
  · intro h
    have htexts := congrArg String.toList h
    rw [toList_ansi, toList_ansi] at htexts
    exact looksLike_of_flatMap_ansiRow_eq hs ht htexts
  · intro h
    rw [ansi, ansi]
    refine congrArg String.join (map_eq_of_forall₂ (fun row row' hrow => ?_) h)
    have hcells : row.map ansiCell = row'.map ansiCell :=
      map_eq_of_forall₂ (fun _ _ hlike => Cell.LooksLike.ansiCell_eq hlike) hrow
    rw [hcells]

/-! ### Without colours -/

/-- The characters of a row. -/
def rowText (row : List Cell) : List Char :=
  row.map Cell.char

/-- No cell of a screen shows an escape or the end of a line. -/
def IsText (s : Screen) : Prop :=
  ∀ row ∈ s.rows, ∀ c ∈ rowText row, c ≠ escapeChar ∧ c ≠ '\n' ∧ c ≠ '\r'

/-- No byte stands for an escape or for the end of a line. -/
theorem isText_char (b : UInt8) :
    CodePage437.char b ≠ escapeChar ∧ CodePage437.char b ≠ '\n' ∧ CodePage437.char b ≠ '\r' := by
  have hall : ∀ n < 256, CodePage437.char (.ofNat n) ≠ escapeChar ∧
      CodePage437.char (.ofNat n) ≠ '\n' ∧ CodePage437.char (.ofNat n) ≠ '\r' := by decide +kernel
  have hb := hall b.toNat b.toNat_lt
  rwa [UInt8.ofNat_toNat] at hb

/-- So the screen of a lump is text. -/
theorem isText_ofLump (lump : ByteArray) : (ofLump lump).IsText := by
  intro row hrow c hc
  obtain ⟨line, -, rfl⟩ := List.mem_map.mp hrow
  obtain ⟨cell, hcell, rfl⟩ := List.mem_map.mp hc
  obtain ⟨column, -, rfl⟩ := List.mem_map.mp hcell
  exact isText_char _

/-- A row without its sequences is its characters. -/
theorem withoutEscapes_ansiRow {row : List Cell} (h : ∀ c ∈ rowText row, c ≠ escapeChar)
    (rest : List Char) :
    withoutEscapes (ansiRow row ++ rest) = rowText row ++ '\n' :: withoutEscapes rest := by
  induction row with
  | nil =>
    rw [ansiRow_nil_append, withoutEscapes_escapeOf m_notMem_reset, withoutEscapes_cons (by decide)]
    rfl
  | cons c row ih =>
    obtain ⟨hc, hrow⟩ := List.forall_mem_cons.mp h
    rw [ansiRow_cons_append, withoutEscapes_escapeOf c.m_notMem_codes, withoutEscapes_cons hc, ih hrow]
    rfl

/-- A screen without its sequences is the characters of its rows. -/
theorem withoutEscapes_flatMap_ansiRow {rows : List (List Cell)}
    (h : ∀ row ∈ rows, ∀ c ∈ rowText row, c ≠ escapeChar) :
    withoutEscapes (rows.flatMap ansiRow) = (rows.map rowText).flatMap (· ++ ['\n']) := by
  induction rows with
  | nil => simp [withoutEscapes]
  | cons row rows ih =>
    obtain ⟨hrow, hrows⟩ := List.forall_mem_cons.mp h
    rw [List.flatMap_cons, withoutEscapes_ansiRow hrow, ih hrows]
    simp

variable {s : Screen}

/-- The lines of a screen without its sequences are the characters of its rows. -/
theorem IsText.lines_withoutEscapes_ansi (h : s.IsText) :
    lines (withoutEscapes s.ansi.toList) = s.rows.map rowText := by
  rw [toList_ansi, withoutEscapes_flatMap_ansiRow fun row hrow c hc => (h row hrow c hc).1]
  refine lines_flatMap fun line hline => ?_
  obtain ⟨row, hrow, rfl⟩ := List.mem_map.mp hline
  exact ⟨fun hc => (h row hrow _ hc).2.1 rfl, fun hc => (h row hrow _ hc).2.2 rfl⟩

/-- The lines of the plain rendering are the rows, trimmed. -/
theorem IsText.lines_plain (h : s.IsText) : lines s.plain.toList = s.rows.map plainRow := by
  have hplain : s.plain.toList = (s.rows.map plainRow).flatMap (· ++ ['\n']) := by
    rw [plain, String.toList_ofList, List.flatMap_map]
  rw [hplain]
  refine lines_flatMap fun line hline => ?_
  obtain ⟨row, hrow, rfl⟩ := List.mem_map.mp hline
  exact ⟨fun hc => (h row hrow _ (trimEnd_subset _ hc)).2.1 rfl,
    fun hc => (h row hrow _ (trimEnd_subset _ hc)).2.2 rfl⟩

/-- The plain rendering is the one with colours, without its sequences and without the blanks at the ends of
its lines. -/
theorem IsText.plain_eq (h : s.IsText) :
    String.ofList ((lines (withoutEscapes s.ansi.toList)).flatMap fun line => trimEnd line ++ ['\n'])
      = s.plain := by
  rw [h.lines_withoutEscapes_ansi, List.flatMap_map, plain]
  rfl

/-- The plain rendering of the screen of a lump is the one with colours, without its sequences and without the
blanks at the ends of its lines, and it has a line for every row. Of the one with colours nothing is lost: two
screens are rendered alike exactly if they have the same shape and show the same characters in the same
colours, blinking at the same places. -/
theorem renderings_agree :
    (∀ lump : ByteArray,
      String.ofList ((lines (withoutEscapes (ofLump lump).ansi.toList)).flatMap fun line =>
          trimEnd line ++ ['\n']) = (ofLump lump).plain ∧
        (lines (ofLump lump).plain.toList).length = 25) ∧
    ∀ s t : Screen, s.HasColors → t.HasColors →
      (s.ansi = t.ansi ↔ List.Forall₂ (List.Forall₂ Cell.LooksLike) s.rows t.rows) := by
  refine ⟨fun lump => ⟨(isText_ofLump lump).plain_eq, ?_⟩, fun s t => ansi_eq_iff⟩
  rw [(isText_ofLump lump).lines_plain, List.length_map, ofLump, List.length_map, List.length_range]
  rfl

/-- Two screens of a row and an empty one that hold different bytes for a blank are rendered alike. -/
theorem renderings_agree_blanks :
    let s : Screen := ⟨[[.ofBytes 0 0x87], []]⟩
    let t : Screen := ⟨[[.ofBytes 0x20 0x87], []]⟩
    s ≠ t ∧ s.HasColors ∧ t.HasColors ∧ s.ansi = t.ansi := by
  have hs : HasColors ⟨[[.ofBytes 0 0x87], []]⟩ := by simp [HasColors, Cell.HasColors, Cell.ofBytes]
  have ht : HasColors ⟨[[.ofBytes 0x20 0x87], []]⟩ := by simp [HasColors, Cell.HasColors, Cell.ofBytes]
  have hlike : (Cell.ofBytes 0 0x87).LooksLike (.ofBytes 0x20 0x87) := ⟨by decide, rfl, rfl, rfl⟩
  exact ⟨by decide, hs, ht, (renderings_agree.2 _ _ hs ht).mpr (.cons (.cons hlike .nil) (.cons .nil .nil))⟩

end Screen

end Interlude
