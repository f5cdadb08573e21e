/-! Deflated content. Bits are taken from a byte sequence with the low ones first, and read by prefix
codes, which are given by the lengths of their words alone. A stream is a row of blocks, each stored
or coded; a coded block holds single bytes and copies of what came before. Every step reads at least
one bit, so the number of bits bounds the work; a stream that ends early is refused. -/
namespace SymbolAtlas.Archive

structure BitSource where
  bytes : ByteArray
  /-- Bits that have been read. -/
  position : Nat

namespace BitSource

def bit? (s : BitSource) : Option (Nat × BitSource) :=
  s.bytes[s.position / 8]?.map
    (fun byte => (byte.toNat >>> (s.position % 8) % 2, { s with position := s.position + 1 }))

def bits? (s : BitSource) : (count : Nat) → Option (Nat × BitSource)
  | 0 => some (0, s)
  | count + 1 => do
    let (low, s) ← s.bit?
    let (high, s) ← s.bits? count
    return (low + 2 * high, s)

def align (s : BitSource) : BitSource := { s with position := (s.position + 7) / 8 * 8 }

end BitSource

structure PrefixCode where
  /-- How many words there are of each length, from one bit on. -/
  counts : List Nat
  /-- The symbols in the order of their words. -/
  symbols : Array Nat

namespace PrefixCode

def longest : Nat := 15

/-- How many rows of the longest words' bits start with a word. -/
def covered (lengths : List Nat) : Nat :=
  lengths.foldl (fun rows size => if size = 0 then rows else rows + 1 <<< (longest - size)) 0

/-- Lengths are those of a code if every row of bits starts with exactly one word. A code may also
have no words, or a single one of one bit. -/
def areSound (lengths : List Nat) : Bool :=
  covered lengths = 1 <<< longest || lengths.all (· = 0) || lengths.filter (· ≠ 0) = [1]

/-- The code in which symbol `i` has a word of `lengths[i]` bits, and none if that is zero. -/
def ofLengths (lengths : List Nat) : PrefixCode :=
  let sizes := List.range' 1 longest
  let sized := lengths.zipIdx
  ⟨sizes.map (fun size => lengths.count size),
    (sizes.flatMap (fun size => (sized.filter (fun l => l.1 = size)).map Prod.snd)).toArray⟩

/-- Reads on in a word: `word` is the number of its bits so far, `first` that of the first word of
their length, and `index` the place of its symbol. -/
def readFrom (code : PrefixCode) (word first index : Nat) :
    (counts : List Nat) → BitSource → Option (Nat × BitSource)
  | [], _ => none
  | count :: longer, s => do
    let (bit, s) ← s.bit?
    let word := 2 * word + bit
    let first := 2 * first
    if word < first + count then return (← code.symbols[index + (word - first)]?, s)
    else code.readFrom word (first + count) (index + count) longer s

def read? (code : PrefixCode) (s : BitSource) : Option (Nat × BitSource) :=
  code.readFrom 0 0 0 code.counts s

end PrefixCode

/-- The shortest length of each length symbol, with the number of bits added to it. -/
def lengthCodes : Array (Nat × Nat) := #[
  (3, 0), (4, 0), (5, 0), (6, 0), (7, 0), (8, 0), (9, 0), (10, 0), (11, 1), (13, 1), (15, 1),
  (17, 1), (19, 2), (23, 2), (27, 2), (31, 2), (35, 3), (43, 3), (51, 3), (59, 3), (67, 4),
  (83, 4), (99, 4), (115, 4), (131, 5), (163, 5), (195, 5), (227, 5), (258, 0)]

/-- The shortest distance of each distance symbol, with the number of bits added to it. -/
def distanceCodes : Array (Nat × Nat) := #[
  (1, 0), (2, 0), (3, 0), (4, 0), (5, 1), (7, 1), (9, 2), (13, 2), (17, 3), (25, 3), (33, 4),
  (49, 4), (65, 5), (97, 5), (129, 6), (193, 6), (257, 7), (385, 7), (513, 8), (769, 8),
  (1025, 9), (1537, 9), (2049, 10), (3073, 10), (4097, 11), (6145, 11), (8193, 12), (12289, 12),
  (16385, 13), (24577, 13)]

def ranged? (codes : Array (Nat × Nat)) (symbol : Nat) (s : BitSource) :
    Option (Nat × BitSource) := do
  let (least, count) ← codes[symbol]?
  let (more, s) ← s.bits? count
  return (least + more, s)

/-- Appends `length` bytes from `distance` back. A copy may run into itself, and bytes before the
start are zero. -/
def copyBack (distance : Nat) : (length : Nat) → ByteArray → ByteArray
  | 0, out => out
  | length + 1, out =>
    let byte := if distance ≤ out.size then out[out.size - distance]?.getD 0 else 0
    copyBack distance length (out.push byte)

structure BlockCodes where
  literals : PrefixCode
  distances : PrefixCode

def codedBlock? (codes : BlockCodes) :
    (fuel : Nat) → BitSource → ByteArray → Option (BitSource × ByteArray)
  | 0, _, _ => none
  | fuel + 1, s, out => do
    let (symbol, s) ← codes.literals.read? s
    if symbol < 256 then codedBlock? codes fuel s (out.push (UInt8.ofNat symbol))
    else if symbol = 256 then return (s, out)
    else
      let (length, s) ← ranged? lengthCodes (symbol - 257) s
      let (symbol, s) ← codes.distances.read? s
      let (distance, s) ← ranged? distanceCodes symbol s
      codedBlock? codes fuel s (copyBack distance length out)

/-- A stored block starts at a byte, with its length and the complement of its length. -/
def storedBlock? (s : BitSource) (out : ByteArray) : Option (BitSource × ByteArray) := do
  let (length, s) ← s.align.bits? 16
  let (complement, s) ← s.bits? 16
  let start := s.position / 8
  let stop := start + length
  if length + complement = 0xFFFF && stop ≤ s.bytes.size then
    return ({ s with position := 8 * stop }, out ++ s.bytes.extract start stop)
  else none

def fixedCodes : BlockCodes :=
  ⟨.ofLengths (List.replicate 144 8 ++ List.replicate 112 9 ++ List.replicate 24 7 ++
      List.replicate 8 8),
    .ofLengths (List.replicate 30 5)⟩

/-- The order in which a block gives the word lengths of the code for its word lengths. -/
def lengthOrder : List Nat := [16, 17, 18, 0, 8, 7, 9, 6, 10, 5, 11, 4, 12, 3, 13, 2, 14, 1, 15]

def shortNumbers? (s : BitSource) : (count : Nat) → Option (List Nat × BitSource)
  | 0 => some ([], s)
  | count + 1 => do
    let (n, s) ← s.bits? 3
    let (rest, s) ← shortNumbers? s count
    return (n :: rest, s)

/-- How often a length is written again: the repeating symbols and their counts. -/
def repeated? (symbol : Nat) (done : List Nat) (s : BitSource) :
    Option (List Nat × BitSource) := do
  if symbol = 16 then
    let last ← done.head?
    let (more, s) ← s.bits? 2
    return (List.replicate (3 + more) last, s)
  else if symbol = 17 then
    let (more, s) ← s.bits? 3
    return (List.replicate (3 + more) 0, s)
  else if symbol = 18 then
    let (more, s) ← s.bits? 7
    return (List.replicate (11 + more) 0, s)
  else return ([symbol], s)

/-- Word lengths until there are `count`; `done` holds them last first. -/
def wordLengths? (code : PrefixCode) (count : Nat) :
    (fuel : Nat) → List Nat → BitSource → Option (List Nat × BitSource)
  | 0, _, _ => none
  | fuel + 1, done, s => do
    if done.length = count then return (done.reverse, s)
    else if count < done.length then none
    else
      let (symbol, s) ← code.read? s
      let (lengths, s) ← repeated? symbol done s
      wordLengths? code count fuel (lengths ++ done) s

/-- The codes that a block brings along, if they and the code for their lengths are sound. -/
def blockCodes? (s : BitSource) : Option (BlockCodes × BitSource) := do
  let (literals, s) ← s.bits? 5
  let (distances, s) ← s.bits? 5
  let (sizes, s) ← s.bits? 4
  let literals := literals + 257
  let distances := distances + 1
  if literals > 286 || distances > 30 then none
  else
    let (sizes, s) ← shortNumbers? s (sizes + 4)
    let given := lengthOrder.zip sizes
    let sizes := (List.range 19).map (fun symbol => (given.lookup symbol).getD 0)
    let count := literals + distances
    let (lengths, s) ← wordLengths? (.ofLengths sizes) count (count + 1) [] s
    let literals := lengths.take literals
    let distances := lengths.drop literals.length
    if [sizes, literals, distances].all PrefixCode.areSound then
      return (⟨.ofLengths literals, .ofLengths distances⟩, s)
    else none

def block? (fuel : Nat) (s : BitSource) (out : ByteArray) : Option (BitSource × ByteArray) := do
  let (kind, s) ← s.bits? 2
  if kind = 0 then storedBlock? s out
  else if kind = 1 then codedBlock? fixedCodes fuel s out
  else if kind = 2 then
    let (codes, s) ← blockCodes? s
    codedBlock? codes fuel s out
  else none

/-- Blocks up to the one that says it is the last. -/
def blocks? : (fuel : Nat) → BitSource → ByteArray → Option ByteArray
  | 0, _, _ => none
  | fuel + 1, s, out => do
    let (last, s) ← s.bit?
    let (s, out) ← block? fuel s out
    if last = 1 then return out else blocks? fuel s out

/-- What follows the last block is not looked at. -/
def inflate? (content : ByteArray) : Option ByteArray :=
  blocks? (8 * content.size + 1) ⟨content, 0⟩ .empty

end SymbolAtlas.Archive
