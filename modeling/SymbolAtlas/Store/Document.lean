import SymbolAtlas.Instant.Reader
import SymbolAtlas.Json.Basic
import SymbolAtlas.Json.Printer
import SymbolAtlas.Json.Reader
import SymbolAtlas.Store.Basic

/-! The store as a document. Fields stand in alphabetical order; details that a member lacks are
left out, while its owner and its last change are null. Reading checks that every id is a position
and that no member points past the ledger; owners are taken as they are. The name index is not
written. -/
namespace SymbolAtlas

namespace VersionRecord

def toJson (v : VersionRecord) : Json :=
  .record [("digest", .text v.digest), ("imported_at", .text v.imported.text),
    ("latest", .bool v.latest), ("version", .text v.version)]

def ofJson? (value : Json) : Option VersionRecord := do
  match ← value.fields? ["digest", "imported_at", "latest", "version"] with
  | [digest, imported, latest, version] =>
    return ⟨← Json.required Json.text? digest,
      ← Json.required (fun v => v.text?.bind Instant.read?) imported,
      ← Json.required Json.bool? latest, ← Json.required Json.text? version⟩
  | _ => none

end VersionRecord

namespace ClassRecord

def toJson (c : ClassRecord) : Json :=
  .record [("id", .natural c.id), ("intermediate_name", .text c.intermediate),
    ("obfuscated_name", .text c.obfuscated), ("version", .text c.version)]

def ofJson? (value : Json) : Option ClassRecord := do
  match ← value.fields? ["id", "intermediate_name", "obfuscated_name", "version"] with
  | [id, intermediate, obfuscated, version] =>
    return ⟨← Json.required Json.id? id, ← Json.required Json.text? intermediate,
      ← Json.required Json.text? obfuscated, ← Json.required Json.text? version⟩
  | _ => none

end ClassRecord

/-- The name, or an object with the name as its only key and null as its value. -/
def MemberKind.ofJson? : Json → Option MemberKind
  | .string (some name) => ofName? name
  | .object [(some name, .null)] => ofName? name
  | _ => none

def SymbolId.toJson : SymbolId → Json
  | .named name => .text name
  | .numbered number => .natural number.toNat

def SymbolId.ofJson? : Json → Option SymbolId
  | .string (some name) => some (.named name)
  | value => (Json.word64? value).map .numbered

namespace MemberRecord

/-- The member of a detail that is there. -/
def detail (key : String) (encode : α → Json) (value : Option α) : List (String × Json) :=
  (value.map (fun a => (key, encode a))).toList

def toJson (m : MemberRecord) : Json :=
  .record <|
    detail "descriptor" .text m.descriptor ++ [("id", .natural m.id)] ++
    detail "index" .natural m.index ++
    [("intermediate_name", .text m.key.name), ("kind", .text m.key.kind.name),
      ("last_change", .ofOption .natural m.lastChange), ("locked", .bool m.locked),
      ("obfuscated_name", .text m.obfuscated), ("owner", .ofOption .natural m.owner)] ++
    detail "symbol_id" SymbolId.toJson m.symbolId ++ detail "type_name" .text m.typeName ++
    [("version", .text m.key.version)]

def ofJson? (value : Json) : Option MemberRecord := do
  match ← value.fields?
      ["descriptor", "id", "index", "intermediate_name", "kind", "last_change", "locked",
        "obfuscated_name", "owner", "symbol_id", "type_name", "version"] with
  | [descriptor, id, index, name, kind, lastChange, locked, obfuscated, owner, symbolId, typeName,
      version] =>
    let descriptor ← Json.optional Json.text? descriptor
    let id ← Json.required Json.id? id
    let index ← Json.optional Json.id? index
    let name ← Json.required Json.text? name
    let kind ← Json.required MemberKind.ofJson? kind
    let lastChange ← Json.optional Json.id? lastChange
    let locked ← Json.required Json.bool? locked
    let obfuscated ← Json.required Json.text? obfuscated
    let owner ← Json.optional Json.id? owner
    let symbolId ← Json.optional SymbolId.ofJson? symbolId
    let typeName ← Json.optional Json.text? typeName
    let version ← Json.required Json.text? version
    return ⟨id, ⟨version, kind, name⟩, obfuscated, owner, lastChange, locked, symbolId, descriptor,
      index, typeName⟩
  | _ => none

end MemberRecord

namespace LedgerEntry

def toJson (e : LedgerEntry) : Json :=
  .record [("changed_by", .text e.change.actor), ("created_at", .text e.recorded.text),
    ("final_name", .text e.change.final), ("id", .natural e.id),
    ("intermediate_name", .text e.change.key.name), ("kind", .text e.change.key.kind.name),
    ("version", .text e.change.key.version)]

def ofJson? (value : Json) : Option LedgerEntry := do
  match ← value.fields?
      ["changed_by", "created_at", "final_name", "id", "intermediate_name", "kind", "version"] with
  | [actor, recorded, final, id, name, kind, version] =>
    let actor ← Json.required Json.text? actor
    let recorded ← Json.required (fun v => v.text?.bind Instant.read?) recorded
    let final ← Json.required Json.text? final
    let id ← Json.required Json.id? id
    let name ← Json.required Json.text? name
    let kind ← Json.required MemberKind.ofJson? kind
    let version ← Json.required Json.text? version
    return ⟨id, ⟨⟨version, kind, name⟩, actor, final⟩, recorded⟩
  | _ => none

end LedgerEntry

namespace Ledger

def toJson (l : Ledger) : Json := .record [("entries", .array (l.entries.map LedgerEntry.toJson))]

def ofJson? (value : Json) : Option Ledger := do
  match ← value.fields? ["entries"] with
  | [entries] => return ⟨← Json.required (Json.arrayOf LedgerEntry.ofJson?) entries⟩
  | _ => none

end Ledger

namespace Store

def toJson (s : Store) : Json :=
  .record [("classes", .array (s.classes.map ClassRecord.toJson)), ("history", s.ledger.toJson),
    ("members", .array (s.members.map MemberRecord.toJson)),
    ("versions", .array (s.versions.map VersionRecord.toJson))]

/-- Makes the name index anew. -/
def ofJson? (value : Json) : Option Store := do
  match ← value.fields? ["classes", "history", "members", "versions"] with
  | [classes, history, members, versions] =>
    let classes ← Json.required (Json.arrayOf ClassRecord.ofJson?) classes
    let ledger ← Json.required Ledger.ofJson? history
    let members ← Json.required (Json.arrayOf MemberRecord.ofJson?) members
    let versions ← Json.required (Json.arrayOf VersionRecord.ofJson?) versions
    return ⟨classes, ledger, members, .ofMembers members, versions⟩
  | _ => none

/-- The text that is kept on disk. -/
def document (s : Store) : String := s.toJson.pretty

def misplacedClass? (s : Store) : Option String :=
  (s.classes.zipIdx.find? (fun c => c.1.id != c.2)).map
    (fun c => "class " ++ c.1.id.repr ++ " stored at position " ++ c.2.repr)

/-- What is wrong with a member that should stand at a position. -/
def memberFlaw? (s : Store) (m : MemberRecord) (position : Nat) : Option String :=
  if m.id != position then
    some ("member " ++ m.id.repr ++ " stored at position " ++ position.repr)
  else
    match m.lastChange with
    | none => none
    | some change =>
      if (s.ledger.get? change).isSome then none
      else some ("member " ++ m.id.repr ++ " points at missing history " ++ change.repr)

def misplacedMember? (s : Store) : Option String :=
  s.members.zipIdx.findSome? (fun m => s.memberFlaw? m.1 m.2)

def disorderedLedger? (s : Store) : Option String :=
  if s.ledger.isConsistent then none else some "history ids out of order"

/-- The first inconsistency: classes, then members, then the ledger. -/
def flaw? (s : Store) : Option String :=
  (s.misplacedClass?.or s.misplacedMember?).or s.disorderedLedger?

def parse (text : String) : Except Fault Store :=
  match (Json.read? text).bind ofJson? with
  | none => .error (.json "not a store")
  | some s =>
    match s.flaw? with
    | some reason => .error (.storeCorrupt reason)
    | none => .ok s

end Store

end SymbolAtlas
