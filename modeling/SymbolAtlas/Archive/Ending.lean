/-! The records at the end of an archive, which say where its directory is. Their fields are numbers
with the low byte first, and a record is known by a mark of four bytes. The last one has room for
small numbers alone; a large archive has a wide record before it, and between the two a locator that
leads to the wide one. An archive is one volume. -/
namespace SymbolAtlas.Archive

/-- A number of `count` bytes, the low one first. -/
def numberAt? (bytes : ByteArray) (place : Nat) : (count : Nat) → Option Nat
  | 0 => some 0
  | count + 1 => do
    let low ← bytes[place]?
    let high ← numberAt? bytes (place + 1) count
    return low.toNat + 256 * high

def short? (bytes : ByteArray) (place : Nat) : Option Nat := numberAt? bytes place 2

def long? (bytes : ByteArray) (place : Nat) : Option Nat := numberAt? bytes place 4

def wide? (bytes : ByteArray) (place : Nat) : Option Nat := numberAt? bytes place 8

def fileMark : Nat := 0x04034B50

def directoryMark : Nat := 0x02014B50

def endMark : Nat := 0x06054B50

def wideEndMark : Nat := 0x06064B50

def locatorMark : Nat := 0x07064B50

/-- The first answer of `ask` at a mark that lies between `start` and `stop`. -/
def atMarks? (bytes : ByteArray) (mark start stop : Nat) (ask : Nat → Option α) : Option α :=
  (List.range' start (stop - 3 - start)).findSome?
    (fun place => if long? bytes place = some mark then ask place else none)

structure Ending where
  /-- The number of entries. -/
  count : Nat
  /-- The place of the first entry. -/
  directory : Nat
  /-- How many bytes come before the archive. Its own places are counted from there. -/
  shift : Nat

structure EndRecord where
  volume : Nat
  directoryVolume : Nat
  /-- The number of entries in this volume. -/
  countHere : Nat
  count : Nat
  directory : Nat

/-- The record at a place, if one is there whose comment ends within the file. -/
def endRecord? (bytes : ByteArray) (place : Nat) : Option EndRecord := do
  if (← long? bytes place) != endMark then none
  else
    let commentSize ← short? bytes (place + 20)
    let r : EndRecord :=
      { volume := ← short? bytes (place + 4)
        directoryVolume := ← short? bytes (place + 6)
        countHere := ← short? bytes (place + 8)
        count := ← short? bytes (place + 10)
        directory := ← long? bytes (place + 16) }
    if place + 22 + commentSize ≤ bytes.size then return r else none

/-- Numbers of all ones stand for larger ones in a wide record. -/
def EndRecord.mayBeWide (r : EndRecord) : Bool := r.count = 0xFFFF || r.directory = 0xFFFFFFFF

/-- Without a wide record. Where the directory really begins tells how many bytes come before the
archive; the directory of an empty one ends where the record begins. -/
def EndRecord.ending? (bytes : ByteArray) (place : Nat) (r : EndRecord) : Option Ending :=
  if r.volume != r.directoryVolume then none
  else if r.count = 0 then
    let shift := place - r.directory
    some ⟨r.countHere, r.directory + shift, shift⟩
  else
    atMarks? bytes directoryMark r.directory place
      (fun found => some ⟨r.countHere, found, found - r.directory⟩)

structure Locator where
  directoryVolume : Nat
  /-- Where the wide record is, from the start of the archive. -/
  record : Nat
  volumes : Nat

def locatorSize : Nat := 20

def locator? (bytes : ByteArray) (place : Nat) : Option Locator := do
  if (← long? bytes place) != locatorMark then none
  else
    return {
      directoryVolume := ← long? bytes (place + 4)
      record := ← wide? bytes (place + 8)
      volumes := ← long? bytes (place + 16) }

structure WideRecord where
  /-- Without the twelve bytes up to this number. -/
  size : Nat
  /-- The version of the format that was written. -/
  written : Nat
  /-- The version of the format that a reader must know. -/
  needed : Nat
  volume : Nat
  directoryVolume : Nat
  /-- The number of entries in this volume. -/
  countHere : Nat
  count : Nat
  directory : Nat

def wideRecord? (bytes : ByteArray) (place : Nat) : Option WideRecord := do
  return {
    size := ← wide? bytes (place + 4)
    written := ← short? bytes (place + 12)
    needed := ← short? bytes (place + 14)
    volume := ← long? bytes (place + 16)
    directoryVolume := ← long? bytes (place + 20)
    countHere := ← wide? bytes (place + 24)
    count := ← wide? bytes (place + 32)
    directory := ← wide? bytes (place + 48) }

namespace WideRecord

/-- A wide record reaches up to its locator and agrees with it, and the entries have room before
it. -/
def fits (w : WideRecord) (l : Locator) (place stop : Nat) : Bool :=
  44 ≤ w.size && place + 12 + w.size = stop && w.directoryVolume = l.directoryVolume &&
    46 * w.count + w.directory ≤ place

def isSound (w : WideRecord) : Bool :=
  w.countHere ≤ w.count && w.needed ≤ w.written && w.volume = w.directoryVolume

end WideRecord

/-- With a wide record, which is before its locator at `stop`. Where it really is tells how many
bytes come before the archive. -/
def Locator.ending? (bytes : ByteArray) (stop : Nat) (l : Locator) : Option Ending := do
  if 1 < l.volumes then none
  else
    let (place, w) ← atMarks? bytes wideEndMark l.record stop (fun place => do
      let w ← wideRecord? bytes place
      if w.fits l place stop then some (place, w) else none)
    let shift := place - l.record
    if w.isSound then return ⟨w.count, w.directory + shift, shift⟩ else none

def ending? (bytes : ByteArray) (place : Nat) : Option Ending := do
  let r ← endRecord? bytes place
  let before := place - locatorSize
  match if r.mayBeWide && locatorSize ≤ place then locator? bytes before else none with
  | some l => l.ending? bytes before
  | none => r.ending? bytes place

end SymbolAtlas.Archive
