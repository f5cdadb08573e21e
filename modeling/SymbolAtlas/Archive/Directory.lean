import SymbolAtlas.Archive.Ending
import SymbolAtlas.Text.CodePage

/-! The directory of an archive: one entry after another, each with a checksum (CRC-32, bits from the
low end, all ones at the start and turned over at the end) and with extra fields. Of these a few
kinds correct what the entry says, a few more are checked, and all others are passed over. -/
namespace SymbolAtlas.Archive

/-- Division by the polynomial, one bit. -/
def shiftBit (c : UInt32) : UInt32 :=
  if c &&& 1 = 1 then (c >>> 1) ^^^ 0xEDB88320 else c >>> 1

def shiftByte (c : UInt32) : UInt32 :=
  shiftBit (shiftBit (shiftBit (shiftBit (shiftBit (shiftBit (shiftBit (shiftBit c)))))))

def shiftedBytes : Array UInt32 := (Array.range 256).map (fun n => shiftByte (UInt32.ofNat n))

def absorb (c : UInt32) (byte : UInt8) : UInt32 :=
  shiftedBytes.getD ((c ^^^ byte.toUInt32) &&& 0xFF).toNat 0 ^^^ (c >>> 8)

def checksum (content : ByteArray) : UInt32 :=
  content.foldl absorb 0xFFFFFFFF ^^^ 0xFFFFFFFF

structure Member where
  /-- The bytes of the path in the archive. -/
  name : ByteArray
  /-- A remark, in UTF-8. -/
  comment : ByteArray
  encrypted : Bool
  /-- An extra field says with what cipher the content was encrypted. -/
  ciphered : Bool
  /-- How the content was packed: 0 is stored, 8 is deflated. -/
  method : Nat
  checksum : Nat
  size : Nat
  /-- Size as packed. -/
  packedSize : Nat
  /-- Where the file's own header is, from the start of the archive. -/
  header : Nat

/-- A number that may be too large for its four bytes, which are then all ones. -/
inductive WideNumber where
  | size
  | packedSize
  | header

namespace Member

def number (m : Member) : WideNumber → Nat
  | .size => m.size
  | .packedSize => m.packedSize
  | .header => m.header

def setNumber (m : Member) (n : Nat) : WideNumber → Member
  | .size => { m with size := n }
  | .packedSize => { m with packedSize := n }
  | .header => { m with header := n }

end Member

/-- Why the extra fields are read no further. -/
inductive Halt where
  /-- The bytes end within a field. What was read up to there counts. -/
  | cut
  /-- A field is not what its kind demands. The archive is refused. -/
  | refused
  deriving DecidableEq, Repr

def demand (holds : Bool) : Except Halt Unit := if holds then .ok () else .error .refused

def reach (extra : ByteArray) (stop : Nat) : Except Halt Unit :=
  if stop ≤ extra.size then .ok () else .error .cut

def extraNumber (extra : ByteArray) (place count : Nat) : Except Halt Nat :=
  match numberAt? extra place count with
  | some n => .ok n
  | none => .error .cut

/-- Three times of eight bytes each, as attribute 1 and nothing else. -/
def checkTicks (extra : ByteArray) (place length : Nat) : Except Halt Unit := do
  demand (length = 32)
  demand ((← extraNumber extra (place + 4) 2) = 1)
  demand ((← extraNumber extra (place + 6) 2) = 24)
  reach extra (place + length)

/-- Up to three times in seconds. A low bit of the first byte stands for each that is there; if
there is one alone, the bits may say otherwise. -/
def checkSeconds (extra : ByteArray) (place length : Nat) : Except Halt Unit := do
  let flags ← extraNumber extra place 1
  demand (flags < 8)
  demand (length = 5 || length = 1 + 4 * (flags % 2 + flags / 2 % 2 + flags / 4))
  reach extra (place + length)

def cipheredMethod (extra : ByteArray) (place length : Nat) : Except Halt Nat := do
  demand (length = 7)
  let version ← extraNumber extra place 2
  let vendor ← extraNumber extra (place + 2) 2
  let strength ← extraNumber extra (place + 4) 1
  let method ← extraNumber extra (place + 5) 2
  demand (vendor = 0x4541 && 1 ≤ version && version ≤ 2 && 1 ≤ strength && strength ≤ 3)
  return method

def replacement (extra : ByteArray) (place length : Nat) (old : ByteArray) :
    Except Halt ByteArray := do
  let sum ← extraNumber extra (place + 1) 4
  demand (5 ≤ length)
  reach extra (place + length)
  let text := extra.extract (place + 5) (place + length)
  demand ((checksum old).toNat = sum && (String.fromUTF8? text).isSome)
  return text

namespace Member

/-- The numbers that a field gives in eight bytes: those that need it, or all if it has the room. -/
def wideNumbers (m : Member) (kind length : Nat) : List WideNumber :=
  if kind = 0x0001 then
    [.size, .packedSize, .header].filter (fun w => 24 ≤ length || m.number w = 0xFFFFFFFF)
  else []

def widen (m : Member) (extra : ByteArray) (place : Nat) : List WideNumber → Member
  | [] => m
  | w :: more =>
    match wide? extra place with
    | some n => (m.setNumber n w).widen extra (place + 8) more
    | none => m

/-- Takes over what a field says: kinds 0x000A and 0x5455 hold times, 0x9901 names a cipher, 0x6375
replaces the comment and 0x7075 the name. Wide numbers were taken over before. -/
def correct (m : Member) (kind : Nat) (extra : ByteArray) (place length : Nat) :
    Except Halt Member := do
  match kind with
  | 0x000A => checkTicks extra place length; return m
  | 0x5455 => checkSeconds extra place length; return m
  | 0x9901 => return { m with method := ← cipheredMethod extra place length, ciphered := true }
  | 0x6375 => return { m with comment := ← replacement extra place length m.comment }
  | 0x7075 => return { m with name := ← replacement extra place length m.name }
  | _ => reach extra (place + length); return m

def extend (m : Member) (extra : ByteArray) (place : Nat) : Option Member :=
  if place < extra.size then
    match short? extra place, short? extra (place + 2) with
    | some kind, some length =>
      let start := place + 4
      let wides := m.wideNumbers kind length
      let room := 8 * wides.length
      let m := m.widen extra start wides
      match (do reach extra (start + room); demand (room ≤ length)
                m.correct kind extra start length) with
      | .ok m => m.extend extra (start + length)
      | .error .cut => some m
      | .error .refused => none
    | _, _ => some m
  else some m
  termination_by extra.size - place

end Member

/-- A remark is in UTF-8 if its entry says so, and in code page 437 if not. -/
def commentText (isUnicode : Bool) (comment : ByteArray) : ByteArray :=
  let bytes := comment.data.toList
  if isUnicode then ⟨(Text.mended bytes).toArray⟩
  else (String.ofList (bytes.map Text.ofCodePage)).toUTF8

/-- Method 99 stands for a cipher, which an extra field must name then. -/
def Member.isComplete (m : Member) : Bool := m.method != 99 || m.ciphered

def member? (bytes : ByteArray) (place : Nat) : Option (Member × Nat) := do
  if (← long? bytes place) != directoryMark then none
  else
    let flags ← short? bytes (place + 8)
    let name := place + 46
    let extra := name + (← short? bytes (place + 28))
    let comment := extra + (← short? bytes (place + 30))
    let next := comment + (← short? bytes (place + 32))
    let entry : Member :=
      { name := bytes.extract name extra
        comment := commentText (flags.testBit 11) (bytes.extract comment next)
        encrypted := flags.testBit 0
        ciphered := false
        method := ← short? bytes (place + 10)
        checksum := ← long? bytes (place + 16)
        size := ← long? bytes (place + 24)
        packedSize := ← long? bytes (place + 20)
        header := ← long? bytes (place + 42) }
    if next ≤ bytes.size then
      let m ← entry.extend (bytes.extract extra comment) 0
      if m.isComplete then return (m, next) else none
    else none

/-- Entries from a place on. Every file starts before the directory. -/
def members? (bytes : ByteArray) (shift directory : Nat) :
    (count place : Nat) → Option (List Member)
  | 0, _ => some []
  | count + 1, place => do
    let (m, next) ← member? bytes place
    if shift + m.header < directory then
      return m :: (← members? bytes shift directory count next)
    else none

end SymbolAtlas.Archive
