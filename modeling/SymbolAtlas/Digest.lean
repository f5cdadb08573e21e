/-! SHA-256 of a byte sequence, which identifies an imported text. Bytes are absorbed one by one; a
block is compressed as soon as it is full. -/
namespace SymbolAtlas.Digest

/-- Fractional parts of the cube roots of the first 64 primes. -/
def roundConstants : List UInt32 := [
  0x428a2f98, 0x71374491, 0xb5c0fbcf, 0xe9b5dba5, 0x3956c25b, 0x59f111f1, 0x923f82a4, 0xab1c5ed5,
  0xd807aa98, 0x12835b01, 0x243185be, 0x550c7dc3, 0x72be5d74, 0x80deb1fe, 0x9bdc06a7, 0xc19bf174,
  0xe49b69c1, 0xefbe4786, 0x0fc19dc6, 0x240ca1cc, 0x2de92c6f, 0x4a7484aa, 0x5cb0a9dc, 0x76f988da,
  0x983e5152, 0xa831c66d, 0xb00327c8, 0xbf597fc7, 0xc6e00bf3, 0xd5a79147, 0x06ca6351, 0x14292967,
  0x27b70a85, 0x2e1b2138, 0x4d2c6dfc, 0x53380d13, 0x650a7354, 0x766a0abb, 0x81c2c92e, 0x92722c85,
  0xa2bfe8a1, 0xa81a664b, 0xc24b8b70, 0xc76c51a3, 0xd192e819, 0xd6990624, 0xf40e3585, 0x106aa070,
  0x19a4c116, 0x1e376c08, 0x2748774c, 0x34b0bcb5, 0x391c0cb3, 0x4ed8aa4a, 0x5b9cca4f, 0x682e6ff3,
  0x748f82ee, 0x78a5636f, 0x84c87814, 0x8cc70208, 0x90befffa, 0xa4506ceb, 0xbef9a3f7, 0xc67178f2]

structure Words where
  a : UInt32
  b : UInt32
  c : UInt32
  d : UInt32
  e : UInt32
  f : UInt32
  g : UInt32
  h : UInt32
  deriving DecidableEq, Repr

/-- Fractional parts of the square roots of the first eight primes. -/
def Words.initial : Words :=
  ⟨0x6a09e667, 0xbb67ae85, 0x3c6ef372, 0xa54ff53a, 0x510e527f, 0x9b05688c, 0x1f83d9ab, 0x5be0cd19⟩

def Words.add (x y : Words) : Words :=
  ⟨x.a + y.a, x.b + y.b, x.c + y.c, x.d + y.d, x.e + y.e, x.f + y.f, x.g + y.g, x.h + y.h⟩

def Words.toList (w : Words) : List UInt32 := [w.a, w.b, w.c, w.d, w.e, w.f, w.g, w.h]

def rotateRight (x n : UInt32) : UInt32 := (x >>> n) ||| (x <<< (32 - n))

def smallSigma0 (x : UInt32) : UInt32 := rotateRight x 7 ^^^ rotateRight x 18 ^^^ (x >>> 3)

def smallSigma1 (x : UInt32) : UInt32 := rotateRight x 17 ^^^ rotateRight x 19 ^^^ (x >>> 10)

def bigSigma0 (x : UInt32) : UInt32 := rotateRight x 2 ^^^ rotateRight x 13 ^^^ rotateRight x 22

def bigSigma1 (x : UInt32) : UInt32 := rotateRight x 6 ^^^ rotateRight x 11 ^^^ rotateRight x 25

def wordsOf : List UInt8 → List UInt32
  | a :: b :: c :: d :: rest =>
    ((a.toUInt32 <<< 24) ||| (b.toUInt32 <<< 16) ||| (c.toUInt32 <<< 8) ||| d.toUInt32) ::
      wordsOf rest
  | _ => []

/-- The sixteen words of a block, followed by those that the earlier ones determine. -/
def schedule (block : List UInt32) : Array UInt32 :=
  (List.range 48).foldl
    (fun w i =>
      w.push (smallSigma1 (w.getD (i + 14) 0) + w.getD (i + 9) 0 + smallSigma0 (w.getD (i + 1) 0)
        + w.getD i 0))
    block.toArray

def round (s : Words) (k : UInt32) : Words :=
  let choice := (s.e &&& s.f) ^^^ (~~~s.e &&& s.g)
  let majority := (s.a &&& s.b) ^^^ (s.a &&& s.c) ^^^ (s.b &&& s.c)
  let t1 := s.h + bigSigma1 s.e + choice + k
  let t2 := bigSigma0 s.a + majority
  ⟨t1 + t2, s.a, s.b, s.c, s.d + t1, s.e, s.f, s.g⟩

def compress (s : Words) (block : List UInt8) : Words :=
  s.add ((List.zipWith (· + ·) roundConstants (schedule (wordsOf block)).toList).foldl round s)

/-- The words so far, and the bytes of the block being filled, last first. -/
structure Sponge where
  words : Words
  pending : List UInt8
  count : Nat

def Sponge.start : Sponge := ⟨.initial, [], 0⟩

def Sponge.absorb (s : Sponge) (byte : UInt8) : Sponge :=
  if s.count = 63 then ⟨compress s.words (byte :: s.pending).reverse, [], 0⟩
  else ⟨s.words, byte :: s.pending, s.count + 1⟩

/-- A one bit, zeros up to the last eight bytes of a block, and the length in bits. -/
def padding (length : Nat) : List UInt8 :=
  0x80 :: (List.replicate ((119 - length % 64) % 64) (0 : UInt8) ++
    (List.range 8).map (fun i => UInt8.ofNat ((8 * length) >>> (8 * (7 - i)))))

def words (bytes : List UInt8) : Words :=
  ((bytes ++ padding bytes.length).foldl Sponge.absorb .start).words

/-- Eight lower-case hexadecimal digits. -/
def hexWord (w : UInt32) : List Char :=
  (List.range 8).map (fun i => Nat.digitChar ((w.toNat >>> (4 * (7 - i))) % 16))

def hexOf (bytes : List UInt8) : String :=
  String.ofList ((words bytes).toList.flatMap hexWord)

def ofText (text : String) : String := hexOf text.toUTF8.toList

end SymbolAtlas.Digest
