/-!
# Inflating

The deflate format is a stream of bits, lowest bit of each byte first, that holds blocks: stored
bytes, or literals and copies of earlier output under two prefix codes, fixed ones or ones that
the block describes. A stream that breaks the format holds nothing, and neither does one that ends
before its last block.
-/

namespace Interlude.Inflate

/-- The stream with the number of bits read, and the output. -/
structure State where
  data : ByteArray
  pos : Nat
  out : ByteArray

/-- A step over the stream, if the format allows one. -/
abbrev Step := StateT State Option

/-- The bit at a place of the stream. -/
def bitAt (data : ByteArray) (pos : Nat) : Nat :=
  ((data[pos / 8]?.getD 0).toNat >>> (pos % 8)) % 2

/-- The number that `n` bits make up, lowest bit first. -/
def bitsAt (data : ByteArray) (pos : Nat) : Nat → Nat
  | 0 => 0
  | n + 1 => bitAt data pos + 2 * bitsAt data (pos + 1) n

/-- Takes the next `n` bits as a number. -/
def takeBits (n : Nat) : Step Nat := do
  let s ← get
  guard (s.pos + n ≤ 8 * s.data.size)
  set { s with pos := s.pos + n }
  return bitsAt s.data s.pos n

/-- Writes a byte. -/
def put (b : UInt8) : Step Unit :=
  modify fun s => { s with out := s.out.push b }

/-- Writes the byte that was written `distance` bytes ago, `n` times over. -/
def copy (distance : Nat) : Nat → Step Unit
  | 0 => return
  | n + 1 => do
    let s ← get
    put (s.out[s.out.size - distance]?.getD 0)
    copy distance n

/-- A prefix code in which shorter codes come first and codes of one length are in the order of
their symbols: how many codes each length from 1 on has, and the symbols in that order. -/
structure Code where
  counts : List Nat
  symbols : Array Nat
  deriving Repr

/-- The longest code in bits. -/
def maxLength : Nat := 15

/-- The symbols that have a code of the given length. -/
def symbolsOf (lengths : List Nat) (length : Nat) : List Nat :=
  (lengths.zipIdx.filter (·.1 == length)).map (·.2)

/-- What is left of all codes, counted at the longest length, after taking those of the lengths. -/
def room (counts : List Nat) : Int :=
  counts.foldl (fun (left : Int) (n : Nat) => left * 2 - n) 1

/-- Whether no length has more codes than the shorter ones leave. -/
def fits (counts : List Nat) : Bool :=
  (List.range (counts.length + 1)).all fun k => 0 ≤ room (counts.take k)

/-- The code that gives each symbol a code of its length. No codes may be left over, unless
`sparse` allows that no code is longer than a bit. -/
def Code.ofLengths? (sparse : Bool) (lengths : List Nat) : Option Code :=
  let groups := (List.range maxLength).map fun i => symbolsOf lengths (i + 1)
  let counts := groups.map List.length
  let isSparse := sparse && (counts.drop 1).all (· == 0)
  if fits counts && (room counts == 0 || isSparse) then some ⟨counts, groups.flatten.toArray⟩
  else none

/-- Reads bits until they are a code: `first` is the first code of the length reached, `index` the
number of symbols with shorter ones. -/
def walk (symbols : Array Nat) : (counts : List Nat) → (code first index : Nat) → Step Nat
  | [], _, _, _ => failure
  | n :: counts, code, first, index => do
    let code := code + (← takeBits 1)
    if code < first + n then
      symbols[index + (code - first)]?
    else walk symbols counts (code * 2) ((first + n) * 2) (index + n)

/-- Reads the next symbol of a code. -/
def symbol (c : Code) : Step Nat :=
  walk c.symbols c.counts 0 0 0

/-- The shortest copy of each length symbol and its number of further bits. -/
def lengthTable : List (Nat × Nat) :=
  [(3, 0), (4, 0), (5, 0), (6, 0), (7, 0), (8, 0), (9, 0), (10, 0), (11, 1), (13, 1), (15, 1),
   (17, 1), (19, 2), (23, 2), (27, 2), (31, 2), (35, 3), (43, 3), (51, 3), (59, 3), (67, 4),
   (83, 4), (99, 4), (115, 4), (131, 5), (163, 5), (195, 5), (227, 5), (258, 0)]

/-- The shortest distance of each distance symbol and its number of further bits. -/
def distanceTable : List (Nat × Nat) :=
  [(1, 0), (2, 0), (3, 0), (4, 0), (5, 1), (7, 1), (9, 2), (13, 2), (17, 3), (25, 3), (33, 4),
   (49, 4), (65, 5), (97, 5), (129, 6), (193, 6), (257, 7), (385, 7), (513, 8), (769, 8),
   (1025, 9), (1537, 9), (2049, 10), (3073, 10), (4097, 11), (6145, 11), (8193, 12),
   (12289, 12), (16385, 13), (24577, 13)]

/-- A number that begins with an entry of a table. -/
def extended (table : List (Nat × Nat)) (i : Nat) : Step Nat :=
  match table[i]? with
  | none => failure
  | some (base, bits) => do return base + (← takeBits bits)

/-- The literals and copies of a block. Every round reads a bit, so `rounds` need not be more than
the bits that are left. -/
def compressed (literals distances : Code) : (rounds : Nat) → Step Unit
  | 0 => failure
  | rounds + 1 => do
    let s ← symbol literals
    if s < 256 then
      put (.ofNat s)
      compressed literals distances rounds
    else if s = 256 then return
    else do
      let length ← extended lengthTable (s - 257)
      let distance ← extended distanceTable (← symbol distances)
      guard (distance ≤ (← get).out.size)
      copy distance length
      compressed literals distances rounds

/-- Writes the next `n` bytes of the stream. -/
def storedBytes : Nat → Step Unit
  | 0 => return
  | n + 1 => do
    put (.ofNat (← takeBits 8))
    storedBytes n

/-- Passes over the bits that are left of the current byte. -/
def alignToByte : Step Unit :=
  modify fun s => { s with pos := (s.pos + 7) / 8 * 8 }

/-- A stored block: its length, the length with all bits turned over, and the bytes. -/
def stored : Step Unit := do
  alignToByte
  let length ← takeBits 16
  let check ← takeBits 16
  guard (length + check = 65535)
  storedBytes length

/-- The lengths of the fixed code of literals and lengths. -/
def fixedLiteralLengths : List Nat :=
  List.replicate 144 8 ++ List.replicate 112 9 ++ List.replicate 24 7 ++ List.replicate 8 8

/-- The lengths of the fixed code of distances. -/
def fixedDistanceLengths : List Nat :=
  List.replicate 32 5

/-- The order in which a block gives the lengths of the code for code lengths. -/
def lengthOrder : List Nat :=
  [16, 17, 18, 0, 8, 7, 9, 6, 10, 5, 11, 4, 12, 3, 13, 2, 14, 1, 15]

/-- Takes `n` numbers of three bits. -/
def threeBits : Nat → Step (List Nat)
  | 0 => return []
  | n + 1 => do
    let first ← takeBits 3
    return first :: (← threeBits n)

/-- Reads code lengths, last one first, until there are `total`: a length, or a repetition of the
last length or of zero. -/
def codeLengths (code : Code) (total : Nat) : (rounds : Nat) → List Nat → Step (List Nat)
  | 0, _ => failure
  | rounds + 1, done =>
    if total ≤ done.length then
      if done.length = total then return done.reverse else failure
    else do
      match ← symbol code with
      | 16 =>
        match done with
        | [] => failure
        | last :: _ =>
          let n ← takeBits 2
          codeLengths code total rounds (List.replicate (3 + n) last ++ done)
      | 17 =>
        let n ← takeBits 3
        codeLengths code total rounds (List.replicate (3 + n) 0 ++ done)
      | 18 =>
        let n ← takeBits 7
        codeLengths code total rounds (List.replicate (11 + n) 0 ++ done)
      | length => codeLengths code total rounds (length :: done)

/-- The two codes that a block describes. -/
def describedCodes : Step (Code × Code) := do
  let literals := 257 + (← takeBits 5)
  let distances := 1 + (← takeBits 5)
  guard (literals ≤ 286 ∧ distances ≤ 30)
  let given ← threeBits (4 + (← takeBits 4))
  let lengths := (List.range 19).map fun s => ((lengthOrder.zip given).lookup s).getD 0
  let total := literals + distances
  let all ← codeLengths (← Code.ofLengths? false lengths) total (total + 1) []
  return (← Code.ofLengths? true (all.take literals), ← Code.ofLengths? true (all.drop literals))

/-- The blocks up to the one that is marked as the last. -/
def blocks : (rounds : Nat) → Step Unit
  | 0 => failure
  | rounds + 1 => do
    let last ← takeBits 1
    match ← takeBits 2 with
    | 0 => stored
    | 1 =>
      compressed (← Code.ofLengths? false fixedLiteralLengths)
        (← Code.ofLengths? false fixedDistanceLengths) rounds
    | 2 =>
      let (literals, distances) ← describedCodes
      compressed literals distances rounds
    | _ => failure
    if last = 0 then blocks rounds

end Interlude.Inflate

namespace Interlude

/-- What a stream holds. -/
structure Inflated where
  bytes : ByteArray
  /-- The number of bytes of the stream that were read. -/
  used : Nat

/-- The bytes that a stream from an offset on holds, unless it breaks the format. -/
def inflate? (data : ByteArray) (start : Nat) : Option Inflated := do
  let ((), s) ← Inflate.blocks (8 * data.size + 1) ⟨data, 8 * start, .empty⟩
  return ⟨s.out, (s.pos + 7) / 8 - start⟩

end Interlude
