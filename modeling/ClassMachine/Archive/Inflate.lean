import ClassMachine.Stream

/-!
Decompression of data in the deflate format. What was decompressed before an error stays: `inflate`
gives all bytes up to the first error, or to the end of the data.

Bits are taken from a small store that is filled up by whole bytes. How much of it is filled shows
in two cases: data that ends too early is refused as soon as the store cannot be filled, even if the
bits in it were enough; and a block without compression starts where the store ends.
-/

namespace ClassMachine.Archive

structure Inflation where
  bits : List Bool
  held : Nat := 0
  /-- The number of bytes that are not in the store. -/
  unread : Nat
  /-- The bytes so far, the latest first, and their number. -/
  out : List UInt8 := []
  size : Nat := 0
  /-- The numbers of bytes after which there was an empty block, the last block apart. -/
  pauses : List Nat := []

/-- A part of a decompression. There is one error: the data is not in the format. -/
abbrev Inflating := EStateM Unit Inflation

namespace Inflate

def bitsOf (b : Bytes) : List Bool :=
  b.flatMap fun x => (List.range 8).map fun i => x.toNat.testBit i

def fill (n : Nat) : Inflating Unit := fun s =>
  let more := (n - s.held + 7) / 8
  if more ≤ s.unread then
    .ok () { s with held := s.held + 8 * more, unread := s.unread - more }
  else .error () s

def drop (n : Nat) : Inflating Unit :=
  modify fun s => { s with bits := s.bits.drop n, held := s.held - n }

def valueOf : List Bool → Nat
  | [] => 0
  | b :: bits => b.toNat + 2 * valueOf bits

def number (n : Nat) : Inflating Nat := do
  fill n
  let bits := (← get).bits.take n
  drop n
  return valueOf bits

def emit (b : UInt8) : Inflating Unit :=
  modify fun s => { s with out := b :: s.out, size := s.size + 1 }

/-- A code for symbols: the number of symbols with codewords of 1, 2, … bits, and the symbols in the
order of their codewords. -/
structure Code where
  counts : List Nat
  symbols : List Nat
  /-- The number of bits that are fetched before a symbol is looked up. -/
  least : Nat

def Code.ofLengths (lengths : List Nat) : Code :=
  let withLength n := (lengths.zipIdx.filter fun e => e.1 == n).map Prod.snd
  let groups := (List.range 15).map fun n => withLength (n + 1)
  { counts := groups.map List.length, symbols := groups.flatten,
    least := ((lengths.filter (0 < ·)).min?).getD 0 }

def spare (free : Int) : List Nat → Int
  | [] => free
  | n :: rest => spare (free * 2 - n) rest

/-- Whether every sequence of bits starts with a codeword, and with one only. A code without any
codeword, or with a single one of one bit, is accepted too. -/
def Code.isSound (c : Code) : Bool :=
  let used := (c.counts.reverse.dropWhile (· == 0)).reverse
  used == [] || used == [1] || (overdrawn 1 used == false && spare 1 used == 0)
where
  overdrawn (free : Int) : List Nat → Bool
    | [] => false
    | n :: rest => free * 2 < n || overdrawn (free * 2 - n) rest

/-- The symbol whose codeword bits start with, and the length of the codeword. `word` is the number
of the bits before, `first` that of the first codeword of this length, and `index` its place among
the symbols. -/
def decodeFrom (symbols : List Nat) (word first index length : Nat) :
    List Nat → List Bool → Option (Nat × Nat)
  | n :: counts, b :: bits =>
    let word := word * 2 + b.toNat
    let first := first * 2
    if word < first + n then
      (symbols[index + (word - first)]?).map fun s => (s, length + 1)
    else decodeFrom symbols word (first + n) (index + n) (length + 1) counts bits
  | _, _ => none

/-- The symbol for the bits in the store, as if zeros followed them. -/
def Code.decode (c : Code) (held : List Bool) : Option (Nat × Nat) :=
  decodeFrom c.symbols 0 0 0 0 c.counts (held ++ List.replicate 15 false)

/-- Reads a symbol with `n` bits in the store at least. If the symbol that is found needs more bits,
the store is filled and the symbol is looked up again, at most `rounds` times. -/
def symbolWith (c : Code) : (rounds n : Nat) → Inflating Nat
  | 0, _ => throw ()
  | rounds + 1, n => do
    fill n
    let s ← get
    match c.decode (s.bits.take s.held) with
    | none => throw ()
    | some (symbol, length) =>
      if length ≤ s.held then
        drop length
        return symbol
      else symbolWith c rounds length

def symbol (c : Code) : Inflating Nat := symbolWith c 15 c.least

def lengthTable : List (Nat × Nat) :=
  [(3, 0), (4, 0), (5, 0), (6, 0), (7, 0), (8, 0), (9, 0), (10, 0), (11, 1), (13, 1), (15, 1),
    (17, 1), (19, 2), (23, 2), (27, 2), (31, 2), (35, 3), (43, 3), (51, 3), (59, 3), (67, 4),
    (83, 4), (99, 4), (115, 4), (131, 5), (163, 5), (195, 5), (227, 5), (258, 0)]

def distanceTable : List (Nat × Nat) :=
  [(1, 0), (2, 0), (3, 0), (4, 0), (5, 1), (7, 1), (9, 2), (13, 2), (17, 3), (25, 3), (33, 4),
    (49, 4), (65, 5), (97, 5), (129, 6), (193, 6), (257, 7), (385, 7), (513, 8), (769, 8),
    (1025, 9), (1537, 9), (2049, 10), (3073, 10), (4097, 11), (6145, 11), (8193, 12),
    (12289, 12), (16385, 13), (24577, 13)]

def amount (table : List (Nat × Nat)) (symbol : Nat) : Inflating Nat :=
  match table[symbol]? with
  | some (least, extra) => do return least + (← number extra)
  | none => throw ()

/-- The first `n` of the bytes that come when `period` is repeated after `rest`. -/
def cycle (period : List UInt8) : Nat → List UInt8 → List UInt8
  | 0, _ => []
  | n + 1, b :: rest => b :: cycle period n rest
  | n + 1, [] =>
    match period with
    | [] => []
    | b :: rest => b :: cycle period n rest

def copy (distance n : Nat) : Inflating Unit := modify fun s =>
  let period := (s.out.take distance).reverse
  { s with out := (cycle period n period).reverse ++ s.out, size := s.size + n }

def symbols (literals distances : Code) : Nat → Inflating Unit
  | 0 => throw ()
  | n + 1 => do
    let s ← symbol literals
    if s < 256 then
      emit (UInt8.ofNat s)
      symbols literals distances n
    else if s = 256 then pure ()
    else
      let length ← amount lengthTable (s - 257)
      let distance ← amount distanceTable (← symbol distances)
      if (← get).size < distance then throw ()
      copy distance length
      symbols literals distances n

def plain : Nat → Inflating Unit
  | 0 => pure ()
  | n + 1 => do
    emit (UInt8.ofNat (← number 8))
    plain n

/-- A block without compression. What is in the store is given up. -/
def plainBlock (last : Bool) : Inflating Unit := do
  drop (← get).held
  let length ← number 16
  let check ← number 16
  if length + check ≠ 65535 then throw ()
  else if length = 0 then
    if ¬ last then modify fun s => { s with pauses := s.size :: s.pauses }
  else plain length

def fixedLiterals : Code :=
  .ofLengths (List.replicate 144 8 ++ List.replicate 112 9 ++ List.replicate 24 7 ++
    List.replicate 8 8)

def fixedDistances : Code := .ofLengths (List.replicate 32 5)

def lengthOrder : List Nat := [16, 17, 18, 0, 8, 7, 9, 6, 10, 5, 11, 4, 12, 3, 13, 2, 14, 1, 15]

def triples : Nat → Inflating (List Nat)
  | 0 => pure []
  | n + 1 => do
    let x ← number 3
    return x :: (← triples n)

/-- Reads codeword lengths, in at most `n` symbols, up to `total` of them; the latest come first.
Symbols from 16 on repeat a length. -/
def lengths (c : Code) (total : Nat) : Nat → List Nat → Inflating (List Nat)
  | 0, _ => throw ()
  | n + 1, done =>
    if total ≤ done.length then pure done
    else do
      let s ← symbol c
      if s < 16 then lengths c total n (s :: done)
      else
        let repeated (least extra length : Nat) : Inflating (List Nat) := do
          let times := least + (← number extra)
          if total < done.length + times then throw ()
          return List.replicate times length
        let more ← match s, done with
          | 16, last :: _ => repeated 3 2 last
          | 16, [] => throw ()
          | 17, _ => repeated 3 3 0
          | _, _ => repeated 11 7 0
        lengths c total n (more ++ done)

/-- The codes at the front of a block. As every block ends with the symbol 256, so many bits as that
has are fetched for a literal. -/
def readCodes : Inflating (Code × Code) := do
  let literals := (← number 5) + 257
  let distances := (← number 5) + 1
  let count := (← number 4) + 4
  if 286 < literals ∨ 30 < distances then throw ()
  let given := lengthOrder.zip (← triples count)
  let code := Code.ofLengths ((List.range 19).map fun i => (given.lookup i).getD 0)
  if ¬ code.isSound then throw ()
  let all := (← lengths code (literals + distances) (literals + distances + 1) []).reverse
  let l := Code.ofLengths (all.take literals)
  let d := Code.ofLengths (all.drop literals)
  if l.isSound && d.isSound then
    return ({ l with least := max l.least (all[256]?.getD 0) }, d)
  else throw ()

def block : Inflating Bool := do
  let last := (← number 1) = 1
  let kind ← number 2
  let budget := (← get).bits.length
  match kind with
  | 0 => plainBlock last
  | 1 => symbols fixedLiterals fixedDistances budget
  | 2 => do
    let (l, d) ← readCodes
    symbols l d budget
  | _ => throw ()
  return last

def blocks : Nat → Inflating Unit
  | 0 => throw ()
  | n + 1 => do
    if ← block then pure () else blocks n

end Inflate

/-- The bytes in which a copy can be found; so many are put out at a time. -/
def windowSize : Nat := 32768

/-- A stream of decompressed bytes, of which `size` are announced. The end comes with the last bytes,
unless these were put out before. -/
def Inflation.stream (s : Inflation) (size : Nat) (complete : Bool) : Stream :=
  let breaks := s.pauses ++ (List.range (s.size / windowSize)).map fun k => (k + 1) * windowSize
  { data := s.out.reverse, breaks, announced := some size,
    ending := if complete ∧ s.size ∉ breaks then .withLast else .after }

def inflate (size : Nat) (data : Bytes) : Stream :=
  let bits := Inflate.bitsOf data
  match Inflate.blocks bits.length { bits, unread := data.length } with
  | .ok _ s => s.stream size true
  | .error _ s => s.stream size false

end ClassMachine.Archive
