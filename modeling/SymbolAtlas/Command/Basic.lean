import SymbolAtlas.Store.Lookup

/-! What can be asked of a working directory, and what can be changed in it. A version may be given
as `latest`; it is made concrete when the store is at hand. -/
namespace SymbolAtlas

/-- A symbol as a caller names it. -/
structure Target where
  kind : SymbolKind
  version : String
  name : String
  deriving DecidableEq, Repr

inductive Question where
  /-- Every name of a version. -/
  | dump (version : String)
  | get (target : Target)
  | history (target : Target)
  | summary (version : String)
  | versions
  deriving DecidableEq, Repr

inductive Change where
  /-- Imports a bundle as a new version. -/
  | importBundle (version source : String)
  | importNames (version source : String) (actor : Option String)
  | setLock (target : Target) (locked : Bool) (actor : Option String)
  | migrate (source target : String)
  | promote (version : String)
  | rename (target : Target) (final : String) (force : Bool) (actor : Option String)
  deriving DecidableEq, Repr

inductive Command where
  | ask (question : Question) (json : Bool)
  | change (change : Change)
  deriving DecidableEq, Repr

/-- What a command has to say: its result, and remarks beside it. -/
structure Report where
  output : String
  remarks : String
  deriving DecidableEq, Repr

namespace Report

/-- Every line is ended. -/
def text (lines : List String) : String := String.join (lines.map (· ++ "\n"))

def ofLines (lines : List String) : Report := ⟨text lines, ""⟩

def remark (line : String) : Report := ⟨"", text [line]⟩

end Report

def Target.memberKind (t : Target) : Except Fault MemberKind :=
  match t.kind.history with
  | some kind => .ok kind
  | none => .error (.invalidQuery "classes have no final names")

def Target.key (t : Target) (s : Store) : Except Fault NameKey := do
  let kind ← t.memberKind
  let version ← s.resolveVersion t.version
  return ⟨version, kind, t.name⟩

end SymbolAtlas
