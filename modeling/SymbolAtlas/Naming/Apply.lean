import SymbolAtlas.Store.Update

/-! Giving names to members that have none, from a list of names or from another version. A name
that is taken is never replaced; members of one key are named together or not at all. The rows of a
list are comma-separated columns, of which the first two are an intermediate name and the name that
people gave it; the first line is a heading, and quotes have no meaning. -/
namespace SymbolAtlas

structure NameRow where
  intermediate : String
  final : String
  deriving DecidableEq, Repr

namespace NameRow

/-- A row needs two columns; blanks around a name do not belong to it. -/
def ofLine (number : Nat) (line : List Char) : Except Fault NameRow :=
  match line.splitOn ',' with
  | intermediate :: final :: _ =>
    .ok ⟨String.ofList (Text.trim intermediate), String.ofList (Text.trim final)⟩
  | _ =>
    .error (.atLine number
      (.malformedLine (String.ofList line) "expected `searge,name,...`"))

/-- All rows, or the fault of the first line that is none. -/
def readAll (text : String) : Except Fault (List NameRow) :=
  ((Text.numbered (Text.lines text.toList)).filter (fun l => l.1 != 1)).mapM
    (fun l => ofLine l.1 l.2)

end NameRow

structure NameExport where
  fields : List NameRow
  methods : List NameRow
  params : List NameRow
  deriving DecidableEq, Repr

def NameExport.rows (names : NameExport) : MemberKind → List NameRow
  | .field => names.fields
  | .method => names.methods
  | .parameter => names.params

/-- All rows as changes of one version by one actor: fields, methods, parameters. -/
def NameExport.changes (names : NameExport) (version actor : String) : List NameChange :=
  MemberKind.all.flatMap (fun kind =>
    (names.rows kind).map (fun row => ⟨⟨version, kind, row.intermediate⟩, actor, row.final⟩))

structure NamesReport where
  fields : Nat
  methods : Nat
  params : Nat
  deriving DecidableEq, Repr

namespace NamesReport

def zero : NamesReport := ⟨0, 0, 0⟩

def count (r : NamesReport) : MemberKind → NamesReport
  | .field => { r with fields := r.fields + 1 }
  | .method => { r with methods := r.methods + 1 }
  | .parameter => { r with params := r.params + 1 }

def total (r : NamesReport) : Nat := r.fields + r.methods + r.params

end NamesReport

namespace Store

/-- Names the members of a key if there are any and none of them has a name. -/
def nameIfUnnamed (now : Instant) (change : NameChange) : Update Bool := do
  let s ← .look
  let members := s.membersNamed change.key
  if members.isEmpty || members.any (fun m => m.lastChange.isSome) then return false
  else
    nameAll now change members
    return true

/-- Tries the changes in order and adds those that were made to a report. -/
def applyChanges (now : Instant) (report : NamesReport) (changes : List NameChange) :
    Update NamesReport :=
  changes.foldlM
    (fun report change => do
      let named ← nameIfUnnamed now change
      return if named then report.count change.key.kind else report)
    report

def importNames (now : Instant) (version : String) (names : NameExport) (actor : String) :
    Update NamesReport := do
  let s ← .look
  if (s.version? version).isNone then .fail (.unknownVersion version)
  else applyChanges now .zero (names.changes version actor)

/-- The current names of one kind in a version as changes of another, each by the actor who gave
it. -/
def carriedChanges (s : Store) (source target : String) (kind : MemberKind) : List NameChange :=
  (s.membersOf source kind).filterMap (fun m =>
    (s.lastRecord? m).map (fun e =>
      ⟨⟨target, kind, m.key.name⟩, e.change.actor, e.change.final⟩))

def carryNames (now : Instant) (source target : String) (report : NamesReport)
    (kind : MemberKind) : Update NamesReport := do
  let s ← .look
  applyChanges now report (s.carriedChanges source target kind)

/-- Copies names between two different versions, one kind after another. -/
def migrate (now : Instant) (source target : String) : Update NamesReport := do
  let s ← .look
  if (s.version? source).isNone then .fail (.unknownVersion source)
  else if (s.version? target).isNone then .fail (.unknownVersion target)
  else if source = target then
    .fail (.invalidQuery s!"cannot migrate `{source}` onto itself")
  else MemberKind.all.foldlM (carryNames now source target) .zero

end Store

end SymbolAtlas
