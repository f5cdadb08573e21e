import SymbolAtlas.Command.Basic
import SymbolAtlas.Progress
import SymbolAtlas.Store.Document

/-! Answers to questions, which depend on the store alone. Records are shown each as a line and as
JSON; where there is no final name a line has a dash and JSON has null. -/
namespace SymbolAtlas

namespace ClassRecord

def line (c : ClassRecord) : String := c.intermediate ++ "  " ++ c.obfuscated

def view (c : ClassRecord) : Json :=
  .record [("intermediate_name", .text c.intermediate), ("kind", .text SymbolKind.wholeClass.name),
    ("obfuscated_name", .text c.obfuscated)]

end ClassRecord

namespace Store

def ownerName? (s : Store) (m : MemberRecord) : Option String :=
  m.owner.bind (fun id =>
    match m.key.kind with
    | .parameter => (s.member? id).map (fun method => method.key.name)
    | .field | .method => (s.class? id).map ClassRecord.intermediate)

def memberLine (s : Store) (m : MemberRecord) : String :=
  String.join [
    ((s.ownerName? m).map (· ++ ".")).getD "", m.key.name, "  ", m.obfuscated,
    (m.descriptor.map (" " ++ ·)).getD "", (m.typeName.map ("  " ++ ·)).getD "",
    "  -> ", (s.finalName? m).getD "-", if m.locked then "  [locked]" else ""]

def memberView (s : Store) (m : MemberRecord) : Json :=
  .record <|
    (m.descriptor.map (fun d => ("descriptor", .text d))).toList ++
    [("final_name", .ofOption .text (s.finalName? m))] ++
    (m.index.map (fun i => ("index", .natural i))).toList ++
    [("intermediate_name", .text m.key.name), ("kind", .text m.key.kind.name),
      ("locked", .bool m.locked), ("obfuscated_name", .text m.obfuscated),
      ("owner", .ofOption .text (s.ownerName? m))] ++
    (m.typeName.map (fun t => ("type", .text t))).toList

end Store

def LedgerEntry.line (e : LedgerEntry) : String :=
  e.recorded.brief ++ "  " ++ e.change.actor ++ "  " ++ e.change.final

def VersionRecord.line (v : VersionRecord) : String :=
  v.version ++ "  " ++ v.imported.day ++ (if v.latest then "  (latest)" else "")

def NameRow.line (kind : MemberKind) (row : NameRow) : String :=
  kind.name ++ "  " ++ row.intermediate ++ "  " ++ row.final

def Dump.lines (d : Dump) : List String :=
  MemberKind.all.flatMap (fun kind => (d.names.rows kind).map (NameRow.line kind))

def padAfter (width : Nat) (text : String) : String :=
  String.ofList (text.toList.rightpad width ' ')

def padBefore (width : Nat) (text : String) : String :=
  String.ofList (text.toList.leftpad width ' ')

def KindSummary.line (title : String) (k : KindSummary) : String :=
  String.join [padAfter 8 title, " ", padBefore 6 k.mapped.repr, " / ", padAfter 6 k.total.repr,
    " named, ", k.unmapped.repr, " left"]

def Summary.lines (s : Summary) : List String :=
  ["# " ++ s.version, "", s.fields.line "fields", s.methods.line "methods",
    s.params.line "params"]

def Report.ofJson (value : Json) : Report := .ofLines [value.pretty]

def Resolution.report (s : Store) (json : Bool) : Resolution → Report
  | .wholeClass c => if json then .ofJson c.view else .ofLines [c.line]
  | .members records =>
    if json then .ofJson (.array (records.map s.memberView))
    else .ofLines (records.map s.memberLine)

namespace Store

/-- A key that no member has is refused, even if it is a good name. -/
def historyReport (s : Store) (key : NameKey) (json : Bool) : Except Fault Report :=
  if (s.memberNamed? key).isNone then
    .error (.mappingNotFound (.member key.kind) key.name key.version)
  else
    let entries := s.history key
    if json then .ok (.ofJson (.array (entries.map LedgerEntry.toJson)))
    else if entries.isEmpty then .ok (.ofLines [key.name ++ " has never been named"])
    else .ok (.ofLines (entries.map LedgerEntry.line))

def versionsReport (s : Store) (json : Bool) : Report :=
  if json then .ofJson (.array (s.versions.map VersionRecord.toJson))
  else if s.versions.isEmpty then
    .remark "No versions imported. Run `srgmap import <version> <bundle>`."
  else .ofLines (s.versions.map VersionRecord.line)

end Store

def Question.answer (s : Store) (json : Bool) : Question → Except Fault Report
  | dump version => do
    let d := s.dump (← s.resolveVersion version)
    return if json then .ofJson d.toJson else .ofLines d.lines
  | get t => do
    let version ← s.resolveVersion t.version
    return (← s.resolve ⟨t.kind, t.name, version⟩).report s json
  | history t => do s.historyReport (← t.key s) json
  | summary version => do
    let progress := s.summarize (← s.resolveVersion version)
    return if json then .ofJson progress.toJson else .ofLines progress.lines
  | versions => .ok (s.versionsReport json)

end SymbolAtlas
