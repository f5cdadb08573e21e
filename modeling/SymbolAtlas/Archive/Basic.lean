import SymbolAtlas.Archive.Directory
import SymbolAtlas.Archive.Inflate
import SymbolAtlas.Fault

/-! Zip archives. The directory at the end says where each file is; its content is stored or
deflated and must have its checksum. Bytes may come before the archive, and a comment after it. Only
the files that are read must be sound. -/
namespace SymbolAtlas

structure Archive where
  bytes : ByteArray
  /-- How many bytes come before the archive. -/
  shift : Nat
  /-- In the order of the directory. -/
  members : List Archive.Member

namespace Archive

def ofEnding? (bytes : ByteArray) (e : Ending) : Option Archive := do
  return ⟨bytes, e.shift, ← members? bytes e.shift e.directory e.count e.directory⟩

/-- Of several places where an archive could end, the last one that makes sense is it. -/
def endingsFrom? (bytes : ByteArray) : (places : Nat) → Option Archive
  | 0 => none
  | place + 1 =>
    match (ending? bytes place).bind (ofEnding? bytes) with
    | some a => some a
    | none => endingsFrom? bytes place

def open? (bytes : ByteArray) : Option Archive := endingsFrom? bytes (bytes.size - 21)

/-- Where a file's content starts: after its own header, whose name and extra fields count. -/
def contentStart? (bytes : ByteArray) (header : Nat) : Option Nat := do
  if (← long? bytes header) != fileMark then none
  else
    let start := header + 30 + (← short? bytes (header + 26)) + (← short? bytes (header + 28))
    return start

def unpack (a : Archive) (m : Member) : Except Fault ByteArray :=
  match contentStart? a.bytes (a.shift + m.header) with
  | none => .error (.archive "no file header")
  | some start =>
    let packed := a.bytes.extract start (min (start + m.packedSize) a.bytes.size)
    if m.encrypted || m.ciphered then .error (.archive "encrypted file")
    else if m.method != 0 && m.method != 8 then .error (.archive "unknown way of packing")
    else
      match if m.method = 0 then some packed else inflate? packed with
      | none => .error (.io "corrupt deflate stream")
      | some content =>
        if (checksum content).toNat = m.checksum then .ok content
        else .error (.io "invalid checksum")

/-- The content of a file, if the archive has one of that name. Of several the last counts. -/
def read (a : Archive) (name : String) : Except Fault (Option ByteArray) :=
  match a.members.reverse.find? (fun m => m.name.data = name.toUTF8.data) with
  | none => .ok none
  | some m => (a.unpack m).map some

end Archive

end SymbolAtlas
