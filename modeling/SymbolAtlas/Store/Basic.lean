import SymbolAtlas.Fault
import SymbolAtlas.Ledger
import SymbolAtlas.SymbolId
import SymbolAtlas.Table

/-! The store: classes and members of all versions, the ledger of final names, and the versions
themselves. A record's id is its position. Members are listed by name beside their records; the
list is kept by every insertion and made anew when a store is read. -/
namespace SymbolAtlas

structure VersionRecord where
  /-- SHA-256 of the text that was imported. -/
  digest : String
  imported : Instant
  latest : Bool
  version : String
  deriving DecidableEq, Repr

/-- Names of classes are dotted. -/
structure ClassRecord where
  id : Nat
  intermediate : String
  obfuscated : String
  version : String
  deriving DecidableEq, Repr

structure MemberRecord where
  id : Nat
  key : NameKey
  obfuscated : String
  /-- The class of a field or method, the method of a parameter. -/
  owner : Option Nat
  /-- The newest ledger entry that names the member. -/
  lastChange : Option Nat
  /-- A locked member is renamed by force alone. -/
  locked : Bool
  /-- Fields and methods. -/
  symbolId : Option SymbolId
  /-- Methods, in intermediate class names. -/
  descriptor : Option String
  /-- Parameters: the position of the argument. -/
  index : Option Nat
  /-- Parameters: the dotted spelling of the type. -/
  typeName : Option String
  deriving DecidableEq, Repr

namespace MemberRecord

/-- Unlocked, unnamed, and without any detail. -/
def plain (key : NameKey) (obfuscated : String) : MemberRecord :=
  ⟨0, key, obfuscated, none, none, false, none, none, none, none⟩

def number? (m : MemberRecord) : Option UInt64 := m.symbolId.bind SymbolId.number?

end MemberRecord

/-- The ids of the members of each name, in the order of insertion. -/
abbrev NameIndex := Table NameKey (List Nat)

def NameIndex.add (names : NameIndex) (m : MemberRecord) : NameIndex := names.push m.key m.id

def NameIndex.ofMembers (members : List MemberRecord) : NameIndex :=
  members.foldl NameIndex.add .empty

structure Store where
  classes : List ClassRecord
  ledger : Ledger
  members : List MemberRecord
  names : NameIndex
  versions : List VersionRecord
  deriving DecidableEq, Repr

namespace Store

def empty : Store := ⟨[], .empty, [], .empty, []⟩

/-- Accepted wherever a version is asked for; no version may have this name. -/
def latestWord : String := "latest"

def version? (s : Store) (version : String) : Option VersionRecord :=
  s.versions.find? (fun v => v.version = version)

def latest? (s : Store) : Option VersionRecord := s.versions.find? VersionRecord.latest

/-- The imported version that a caller means. -/
def resolveVersion (s : Store) (version : String) : Except Fault String :=
  match if version = latestWord then s.latest? else s.version? version with
  | some v => .ok v.version
  | none => .error (.unknownVersion version)

def class? (s : Store) (id : Nat) : Option ClassRecord := s.classes[id]?

def member? (s : Store) (id : Nat) : Option MemberRecord := s.members[id]?

def insertClass (s : Store) (version obfuscated intermediate : String) : Store × Nat :=
  let id := s.classes.length
  ({ s with classes := s.classes ++ [⟨id, intermediate, obfuscated, version⟩] }, id)

/-- With the id of the new member, which replaces the one in the record. -/
def insertMember (s : Store) (m : MemberRecord) : Store × Nat :=
  let id := s.members.length
  let m := { m with id }
  ({ s with members := s.members ++ [m], names := s.names.add m }, id)

end Store

end SymbolAtlas
