import SymbolAtlas.Json.Basic
import SymbolAtlas.Naming.Apply

/-! How far the naming of a version has come: counts of named and unnamed members, and the names
themselves, one for each key. -/
namespace SymbolAtlas

structure KindSummary where
  mapped : Nat
  total : Nat
  deriving DecidableEq, Repr

def KindSummary.unmapped (k : KindSummary) : Nat := k.total - k.mapped

structure Summary where
  fields : KindSummary
  methods : KindSummary
  params : KindSummary
  version : String
  deriving DecidableEq, Repr

structure Dump where
  names : NameExport
  version : String
  deriving DecidableEq, Repr

def KindSummary.toJson (k : KindSummary) : Json :=
  .record [("mapped", .natural k.mapped), ("total", .natural k.total),
    ("unmapped", .natural k.unmapped)]

def Summary.toJson (s : Summary) : Json :=
  .record [("fields", s.fields.toJson), ("methods", s.methods.toJson),
    ("params", s.params.toJson), ("version", .text s.version)]

def NameRow.toJson (row : NameRow) : Json :=
  .record [("final_name", .text row.final), ("intermediate_name", .text row.intermediate)]

def Dump.toJson (d : Dump) : Json :=
  let rows (kind : MemberKind) : Json := .array ((d.names.rows kind).map NameRow.toJson)
  .record [("fields", rows .field), ("methods", rows .method), ("params", rows .parameter),
    ("version", .text d.version)]

namespace Store

/-- Fields and methods without a number never need a name. -/
def needsName (m : MemberRecord) : Bool := m.key.kind = .parameter || m.number?.isSome

def isNamed (s : Store) (m : MemberRecord) : Bool := (s.finalName? m).isSome

def summarizeKind (s : Store) (version : String) (kind : MemberKind) : KindSummary :=
  let counted := (s.membersOf version kind).filter needsName
  ⟨(counted.filter s.isNamed).length, counted.length⟩

def summarize (s : Store) (version : String) : Summary :=
  ⟨s.summarizeKind version .field, s.summarizeKind version .method,
    s.summarizeKind version .parameter, version⟩

/-- The first name of an intermediate name stands for it. -/
def collectName (s : Store) (names : Table String String) (m : MemberRecord) :
    Table String String :=
  match s.finalName? m with
  | some final => if names.contains m.key.name then names else names.insert m.key.name final
  | none => names

def namesOf (s : Store) (version : String) (kind : MemberKind) : List NameRow :=
  ((s.membersOf version kind).foldl s.collectName .empty).entries.map (fun e => ⟨e.1, e.2⟩)

def dump (s : Store) (version : String) : Dump :=
  ⟨⟨s.namesOf version .field, s.namesOf version .method, s.namesOf version .parameter⟩, version⟩

end Store

end SymbolAtlas
