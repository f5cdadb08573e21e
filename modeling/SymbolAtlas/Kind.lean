/-! The kinds of symbol. Fields, methods and parameters carry final names and so have a history;
classes have neither. -/
namespace SymbolAtlas

inductive MemberKind where
  | field
  | method
  | parameter
  deriving DecidableEq, Repr

def MemberKind.all : List MemberKind := [.field, .method, .parameter]

def MemberKind.name : MemberKind → String
  | .field => "field"
  | .method => "method"
  | .parameter => "param"

/-- Only the exact name is stored, so only the exact name is read back. -/
def MemberKind.ofName? (name : String) : Option MemberKind :=
  MemberKind.all.find? (fun k => k.name == name)

inductive SymbolKind where
  | wholeClass
  | member (kind : MemberKind)
  deriving DecidableEq, Repr

def SymbolKind.all : List SymbolKind := .wholeClass :: MemberKind.all.map .member

def SymbolKind.name : SymbolKind → String
  | .wholeClass => "class"
  | .member kind => kind.name

/-- The history sequence of a kind; classes are never renamed. -/
def SymbolKind.history : SymbolKind → Option MemberKind
  | .wholeClass => none
  | .member kind => some kind

def SymbolKind.ofName? (name : String) : Option SymbolKind :=
  SymbolKind.all.find? (fun k => k.name == name)

/-- Spellings a caller may use; the parameter kind has two. -/
def SymbolKind.spellings (kind : SymbolKind) : List String :=
  match kind with
  | .member .parameter => [kind.name, "parameter"]
  | _ => [kind.name]

/-- ASCII letters compare by their lower-case forms. -/
def sameIgnoringCase (a b : String) : Bool :=
  a.toList.map Char.toLower == b.toList.map Char.toLower

def SymbolKind.ofSpelling? (text : String) (ignoreCase : Bool) : Option SymbolKind :=
  SymbolKind.all.find? fun k => k.spellings.any fun spelling =>
    if ignoreCase then sameIgnoringCase spelling text else spelling == text

theorem MemberKind.ofName?_name (kind : MemberKind) : ofName? kind.name = some kind := by
  cases kind <;> decide

theorem MemberKind.mem_all (kind : MemberKind) : kind ∈ all := by
  cases kind <;> decide

end SymbolAtlas
