import Mathlib
import Interlude.Lump.Name
import Interlude.Proofs.Bytes.Yields

/-!
# Operations one after the other

A cursor can be put anywhere, also past the end of its buffer, and whatever was done before, the next operation is
told by the position alone. A read or a skip succeeds where enough bytes are left; then it gives what these bytes
say, and the cursor moves just past them. Where too few are left, it tells the position, and the cursor stays.
There is one exception, a read of no bytes past the end of the buffer: too few bytes are never left for it, but
the buffer has no such place from which they could be taken.
-/

namespace Interlude.Cursor

/-! ### Operations -/

/-- What can be asked of a cursor. -/
inductive Operation where
  | u8
  | i16
  | i32
  /-- A name in a field of fixed width. -/
  | name
  /-- So many bytes as they are. -/
  | take (n : Nat)
  | skip (n : Nat)
  | seek (pos : Nat)
  deriving DecidableEq, Repr

/-- What an operation gives. -/
inductive Answer where
  | nothing
  | number (n : Int)
  | name (s : String)
  | bytes (run : List UInt8)
  deriving DecidableEq, Repr

namespace Operation

/-- The reader that does what is asked. -/
def reading : Operation → Reading Answer
  | u8 => do return .number (← Cursor.u8).toNat
  | i16 => do return .number (← Cursor.i16).toInt
  | i32 => do return .number (← Cursor.i32).toInt
  | name => do return .name (← Lump.readName)
  | take n => do return .bytes (← Cursor.take n)
  | skip n => do
    Cursor.skip n
    return .nothing
  | seek pos => do
    Cursor.seek pos
    return .nothing

/-- How many bytes an operation takes up. -/
def width : Operation → Nat
  | u8 => 1
  | i16 => 2
  | i32 => 4
  | name => Lump.nameWidth
  | take n => n
  | skip n => n
  | seek _ => 0

/-- What the bytes say that an operation takes up: a number has its least significant byte first, and its sign is
that of two's complement. -/
def answer : Operation → List UInt8 → Answer
  | u8, run => .number (Bytes.ofLE run)
  | i16, run => .number (Int.bmod (Bytes.ofLE run) (2 ^ 16))
  | i32, run => .number (Int.bmod (Bytes.ofLE run) (2 ^ 32))
  | name, run => .name (Lump.nameOfBytes run)
  | take _, run => .bytes run
  | skip _, _ => .nothing
  | seek _, _ => .nothing

end Operation

/-- An operation with the cursor before it, what came of it, and the cursor after it. -/
structure Step where
  before : Cursor
  operation : Operation
  result : Except ReadError Answer
  after : Cursor

/-- What an operation does to a cursor, which stays where it is if the operation fails. -/
def step (c : Cursor) (op : Operation) : Step :=
  match op.reading c with
  | .ok (a, c') => ⟨c, op, .ok a, c'⟩
  | .error e => ⟨c, op, .error e, c⟩

/-- Operations one after the other, each on the cursor that the one before it has left. -/
def steps (c : Cursor) : List Operation → List Step
  | [] => []
  | op :: ops => c.step op :: (c.step op).after.steps ops

namespace Step

/-- So many bytes are left as the operation takes up, it gives what they say, and the cursor moves just past them. -/
def Succeeds (t : Step) : Prop :=
  t.operation.width ≤ t.before.remaining ∧
    t.result = .ok (t.operation.answer
      ((t.before.data.data.toList.drop t.before.pos).take t.operation.width)) ∧
    t.after = ⟨t.before.data, t.before.pos + t.operation.width⟩

/-- Fewer bytes are left, the operation tells the position, and the cursor stays. -/
def RunsOut (t : Step) : Prop :=
  t.before.remaining < t.operation.width ∧ t.result = .error (.unexpectedEnd t.before.pos) ∧
    t.after = t.before

/-- A cursor is moved to the position that is asked for, and every other operation succeeds or runs out of bytes. -/
def IsRight (t : Step) : Prop :=
  match t.operation with
  | .seek pos => t.result = .ok .nothing ∧ t.after = ⟨t.before.data, pos⟩
  | _ => t.Succeeds ∨ t.RunsOut

/-- No bytes are asked for where the buffer has no place. -/
def IsOutside (t : Step) : Prop :=
  t.operation = .take 0 ∧ t.before.data.size < t.before.pos

end Step

variable {α β : Type} {c : Cursor} {op : Operation}

/-! ### Single operations -/

/-- What is made of the value that a reader gives. -/
theorem map_apply (x : Reading α) (f : α → β) (c : Cursor) :
    (do return f (← x) : Reading β) c = (x c).map fun p => (f p.1, p.2) := by
  change (x c >>= fun p => Except.ok (f p.1, p.2)) = _
  cases x c <;> rfl

/-- Bytes are taken, but for two cases. -/
theorem take_apply (n : Nat) (c : Cursor) : take n c =
    if c.remaining < n then .error (.unexpectedEnd c.pos)
    else if c.data.size < c.pos then .error (.outside c.pos)
    else .ok (c.rest.take n, c.advance n) := by
  rw [take, toList_extract_pos]

/-- Where bytes are left, the position lies in the buffer. -/
theorem not_size_lt_pos {n : Nat} (hn : 0 < n) (h : ¬c.remaining < n) : ¬c.data.size < c.pos := by
  rw [remaining] at h
  omega

/-- Some bytes are taken or are not there. -/
theorem take_apply_of_pos {n : Nat} (hn : 0 < n) (c : Cursor) : take n c =
    if c.remaining < n then .error (.unexpectedEnd c.pos) else .ok (c.rest.take n, c.advance n) := by
  rw [take_apply]
  split
  · rfl
  · rename_i henough
    rw [if_neg (not_size_lt_pos hn henough)]

/-- The next byte is a run of one. -/
theorem u8_apply (c : Cursor) : (do return Answer.number (← u8).toNat : Reading Answer) c =
    (take 1 c).map fun p => (.number (Bytes.ofLE p.1), p.2) := by
  rw [map_apply, take_apply_of_pos Nat.one_pos, u8]
  split
  · rename_i hinside
    have hleft : ¬c.remaining < 1 := by
      rw [remaining]
      omega
    have hrun : c.rest.take 1 = [c.data[c.pos]] := by
      rw [rest, List.drop_eq_getElem_cons (by simpa using hinside)]
      simp [ByteArray.getElem_eq_getElem_data]
    rw [if_neg hleft, hrun]
    simp [Bytes.ofLE, Except.map]
  · rename_i houtside
    rw [if_pos (by rw [remaining]; omega)]
    rfl

/-- A number of two bytes with the sign of two's complement. -/
theorem toInt_toInt16_ofNat (n : Nat) : (UInt16.ofNat n).toInt16.toInt = Int.bmod n (2 ^ 16) := by
  rw [← Int16.toInt_toBitVec, UInt16.toBitVec_toInt16, UInt16.toBitVec_ofNat', BitVec.toInt_ofNat']

/-- A number of four bytes with the sign of two's complement. -/
theorem toInt_toInt32_ofNat (n : Nat) : (UInt32.ofNat n).toInt32.toInt = Int.bmod n (2 ^ 32) := by
  rw [← Int32.toInt_toBitVec, UInt32.toBitVec_toInt32, UInt32.toBitVec_ofNat', BitVec.toInt_ofNat']

/-- Every read takes its bytes and gives what they say. -/
theorem reading_apply_of_take (hop : ∀ n, op ≠ .skip n) (hseek : ∀ pos, op ≠ .seek pos) (c : Cursor) :
    op.reading c = (take op.width c).map fun p => (op.answer p.1, p.2) := by
  cases op with
  | u8 => exact u8_apply c
  | i16 =>
    rw [Operation.reading, i16_eq]
    simp only [bind_assoc, pure_bind, toInt_toInt16_ofNat]
    exact map_apply _ _ c
  | i32 =>
    rw [Operation.reading, i32_eq]
    simp only [bind_assoc, pure_bind, toInt_toInt32_ofNat]
    exact map_apply _ _ c
  | name =>
    rw [Operation.reading, Lump.readName]
    simp only [bind_assoc, pure_bind]
    exact map_apply _ _ c
  | take n => exact map_apply _ _ c
  | skip n => exact absurd rfl (hop n)
  | seek pos => exact absurd rfl (hseek pos)

/-! ### Single steps -/

/-- What comes of a reader that succeeds. -/
theorem step_of_ok {a : Answer} {c' : Cursor} (h : op.reading c = .ok (a, c')) :
    c.step op = ⟨c, op, .ok a, c'⟩ := by
  rw [step, h]

/-- What comes of a reader that fails. -/
theorem step_of_error {e : ReadError} (h : op.reading c = .error e) : c.step op = ⟨c, op, .error e, c⟩ := by
  rw [step, h]

/-- A step starts at the cursor that it is made from, and does what is asked. -/
@[simp] theorem before_step (c : Cursor) (op : Operation) : (c.step op).before = c := by
  rw [step]
  split <;> rfl

@[simp] theorem operation_step (c : Cursor) (op : Operation) : (c.step op).operation = op := by
  rw [step]
  split <;> rfl

/-- A read runs out of bytes, is one of no bytes outside of the buffer, or succeeds. -/
theorem step_of_take (hskip : ∀ n, op ≠ .skip n) (hseek : ∀ pos, op ≠ .seek pos) (c : Cursor) :
    (c.step op).RunsOut ∨
    ((c.step op).IsOutside ∧ c.step op = ⟨c, op, .error (.outside c.pos), c⟩) ∨
    (¬(c.step op).IsOutside ∧ (c.step op).Succeeds) := by
  have hreading := reading_apply_of_take hskip hseek c
  rw [take_apply] at hreading
  by_cases hfew : c.remaining < op.width
  · rw [if_pos hfew] at hreading
    rw [step_of_error hreading]
    exact .inl ⟨hfew, rfl, rfl⟩
  by_cases hpast : c.data.size < c.pos
  · rw [if_neg hfew, if_pos hpast] at hreading
    -- There are no bytes left, so none are asked for.
    have hwidth : op.width = 0 := by
      rw [remaining] at hfew
      omega
    have hop : op = .take 0 := by
      cases op with
      | take n => exact congrArg Operation.take hwidth
      | skip n => exact absurd rfl (hskip n)
      | seek pos => exact absurd rfl (hseek pos)
      | _ => exact absurd hwidth (by decide)
    rw [step_of_error hreading]
    exact .inr (.inl ⟨⟨hop, hpast⟩, rfl⟩)
  · rw [if_neg hfew, if_neg hpast] at hreading
    rw [step_of_ok hreading]
    exact .inr (.inr ⟨fun houtside => hpast houtside.2, not_lt.mp hfew, rfl, rfl⟩)

/-- Passing over bytes succeeds or runs out of them, wherever the cursor is. -/
theorem step_skip (n : Nat) (c : Cursor) : (c.step (.skip n)).Succeeds ∨ (c.step (.skip n)).RunsOut := by
  have hreading : (Operation.skip n).reading c =
      if c.remaining < n then .error (.unexpectedEnd c.pos) else .ok (.nothing, c.advance n) := by
    rw [Operation.reading, map_apply, skip]
    split <;> rfl
  split at hreading
  · rename_i hfew
    rw [step_of_error hreading]
    exact .inr ⟨hfew, rfl, rfl⟩
  · rename_i henough
    rw [step_of_ok hreading]
    exact .inl ⟨not_lt.mp henough, rfl, rfl⟩

/-- An operation that runs out of bytes asks for some. -/
theorem Step.RunsOut.not_isOutside {t : Step} (h : t.RunsOut) : ¬t.IsOutside := by
  rintro ⟨htake, -⟩
  have hfew := h.1
  rw [htake] at hfew
  exact Nat.not_lt_zero _ hfew

/-- A step that does not move the cursor to a position is right if it succeeds or runs out of bytes. -/
theorem Step.isRight_iff {t : Step} (hseek : ∀ pos, t.operation ≠ .seek pos) :
    t.IsRight ↔ t.Succeeds ∨ t.RunsOut := by
  unfold IsRight
  split
  · rename_i pos hop
    exact absurd hop (hseek pos)
  · rfl

/-- To fail as outside of the buffer is not right. -/
theorem Step.not_isRight {t : Step} {pos : Nat} (h : t.result = .error (.outside pos)) : ¬t.IsRight := by
  unfold IsRight Succeeds RunsOut
  rw [h]
  split <;> simp

/-- A step is right, or it is a read of no bytes outside of the buffer. This one fails in a way of its own. -/
theorem step_isRight_or_isOutside (c : Cursor) (op : Operation) :
    ((c.step op).IsRight ∧ ¬(c.step op).IsOutside) ∨
      ((c.step op).IsOutside ∧ c.step op = ⟨c, op, .error (.outside c.pos), c⟩) := by
  have hright (hseek : ∀ pos, op ≠ .seek pos) :
      (c.step op).IsRight ↔ (c.step op).Succeeds ∨ (c.step op).RunsOut :=
    Step.isRight_iff fun pos => (operation_step c op).symm ▸ hseek pos
  by_cases hseek : ∃ pos, op = .seek pos
  · obtain ⟨pos, rfl⟩ := hseek
    exact .inl ⟨⟨rfl, rfl⟩, fun houtside => nomatch houtside.1⟩
  rw [not_exists] at hseek
  by_cases hskip : ∃ n, op = .skip n
  · obtain ⟨n, rfl⟩ := hskip
    refine .inl ⟨(hright hseek).mpr (step_skip n c), ?_⟩
    rintro ⟨hop, -⟩
    rw [operation_step] at hop
    contradiction
  rw [not_exists] at hskip
  rcases step_of_take hskip hseek c with hfew | ⟨houtside, hstep⟩ | ⟨hinside, hsucceeds⟩
  · exact .inl ⟨(hright hseek).mpr (.inr hfew), hfew.not_isOutside⟩
  · exact .inr ⟨houtside, hstep⟩
  · exact .inl ⟨(hright hseek).mpr (.inl hsucceeds), hinside⟩

/-! ### Sequences of steps -/

/-- A step that is right leaves the buffer as it is. -/
theorem Step.IsRight.data_after {t : Step} (h : t.IsRight) : t.after.data = t.before.data := by
  unfold IsRight at h
  split at h
  · rw [h.2]
  · rcases h with hsucceeds | hfew
    · rw [hsucceeds.2.2]
    · rw [hfew.2.2]

/-- So does every step. -/
theorem data_after_step (c : Cursor) (op : Operation) : (c.step op).after.data = c.data := by
  rcases step_isRight_or_isOutside c op with ⟨hright, -⟩ | ⟨-, hstep⟩
  · rw [hright.data_after, before_step]
  · rw [hstep]

/-- Whatever is asked for one after the other, every step is made on the same buffer. -/
theorem exists_eq_step_of_mem_steps {ops : List Operation} {t : Step} (h : t ∈ c.steps ops) :
    ∃ (before : Cursor) (op : Operation), before.data = c.data ∧ t = before.step op := by
  induction ops generalizing c with
  | nil => contradiction
  | cons op ops ih =>
    obtain rfl | hlater := List.mem_cons.mp h
    · exact ⟨c, op, rfl, rfl⟩
    · obtain ⟨before, later, hdata, rfl⟩ := ih hlater
      exact ⟨before, later, hdata.trans (data_after_step c op), rfl⟩

/-- There is a step for every operation. -/
theorem map_operation_steps (c : Cursor) (ops : List Operation) :
    (c.steps ops).map Step.operation = ops := by
  induction ops generalizing c with
  | nil => rfl
  | cons op ops ih => rw [steps, List.map_cons, operation_step, ih]

/-- Each step starts where the one before it has ended. -/
theorem isChain_steps (c : Cursor) (ops : List Operation) :
    (c.steps ops).IsChain fun t next => next.before = t.after := by
  induction ops generalizing c with
  | nil => exact .nil
  | cons op ops ih =>
    cases ops with
    | nil => exact .singleton _
    | cons next ops => exact .cons_cons (before_step _ next) (ih _)

/-- On any buffer, from any position and whatever is asked for one after the other: each operation starts where the
one before it has left the cursor, and it goes where it is told to, or succeeds, or runs out of bytes, but for one
case. A read of no bytes at a position past the end of the buffer fails in a way of its own, and the cursor stays. -/
theorem steps_isRight_iff (data : ByteArray) (pos : Nat) (ops : List Operation) :
    (steps ⟨data, pos⟩ ops).map Step.operation = ops ∧
      (steps ⟨data, pos⟩ ops).IsChain (fun t next => next.before = t.after) ∧
      ∀ t ∈ steps ⟨data, pos⟩ ops, t.before.data = data ∧
        (t.IsRight ↔ ¬t.IsOutside) ∧
        (t.IsOutside → t.result = .error (.outside t.before.pos) ∧ t.after = t.before) := by
  refine ⟨map_operation_steps _ ops, isChain_steps _ ops, fun t ht => ?_⟩
  obtain ⟨before, op, hdata, rfl⟩ := exists_eq_step_of_mem_steps ht
  rw [before_step]
  refine ⟨hdata, ?_⟩
  rcases step_isRight_or_isOutside before op with ⟨hright, hinside⟩ | ⟨houtside, hstep⟩
  · exact ⟨iff_of_true hright hinside, fun houtside => absurd houtside hinside⟩
  · rw [hstep] at houtside ⊢
    exact ⟨iff_of_false (Step.not_isRight rfl) (not_not_intro houtside), fun _ => ⟨rfl, rfl⟩⟩

/-- A number of two bytes is not read past their end, but after passing over no bytes there and going back to their
start it is. -/
theorem steps_isRight_iff_number :
    let steps := steps ⟨⟨#[0xFE, 0xFF]⟩, 5⟩ [.i16, .skip 0, .seek 0, .i16]
    let last : Step := ⟨⟨⟨#[0xFE, 0xFF]⟩, 0⟩, .i16, .ok (.number (-2)), ⟨⟨#[0xFE, 0xFF]⟩, 2⟩⟩
    last ∈ steps ∧ last.IsRight := by
  intro steps last
  have hlast : last ∈ steps := by
    have hsteps : steps[3]? = some last := by rfl
    exact List.mem_of_getElem? hsteps
  have houtside : ¬last.IsOutside := fun h => nomatch h.1
  exact ⟨hlast, ((steps_isRight_iff _ _ _).2.2 last hlast).2.1.mpr houtside⟩

/-- A read of no bytes past the end of four neither gives them nor finds too few. -/
theorem exists_step_outside :
    ¬∀ (data : ByteArray) (pos : Nat) (ops : List Operation),
      ∀ t ∈ steps ⟨data, pos⟩ ops, t.IsRight := by
  intro hall
  have hstep : step ⟨⟨#[0, 0, 0, 0]⟩, 10⟩ (.take 0) =
      ⟨⟨⟨#[0, 0, 0, 0]⟩, 10⟩, .take 0, .error (.outside 10), ⟨⟨#[0, 0, 0, 0]⟩, 10⟩⟩ := rfl
  have hright := hall ⟨#[0, 0, 0, 0]⟩ 10 [.take 0] _ (List.mem_singleton.mpr rfl)
  rw [hstep] at hright
  exact Step.not_isRight rfl hright

end Interlude.Cursor
