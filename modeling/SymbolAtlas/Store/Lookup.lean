import SymbolAtlas.Descriptor.Basic
import SymbolAtlas.Store.Query
import SymbolAtlas.Text.Alphabet
import SymbolAtlas.Text.Line

/-! Resolving what a caller typed. A class goes by its obfuscated name or by the end of its
intermediate one; a member by its number, then its intermediate, obfuscated and final names, and the
first of these that finds anything decides. -/
namespace SymbolAtlas

/-- The version is concrete; the name may be qualified by a class. -/
structure Query where
  kind : SymbolKind
  name : String
  version : String
  deriving DecidableEq, Repr

inductive Resolution where
  | wholeClass (record : ClassRecord)
  | members (records : List MemberRecord)
  deriving DecidableEq, Repr

namespace Store

/-- Classes whose intermediate name ends in the name after a dot, then those that have it. -/
def classMatches (s : Store) (version name : String) : List ClassRecord :=
  s.classesBySuffix version ("." ++ name) ++
    (s.classesBySuffix version name).filter (fun c => c.intermediate = name)

def resolveClass (s : Store) (version qualifier : String) : Except Fault ClassRecord :=
  let name := dotted qualifier
  match s.classByObfuscated? version name with
  | some c => .ok c
  | none =>
    match s.classMatches version name with
    | [] => .error (.unknownClass qualifier version)
    | [c] => .ok c
    | several => .error (.ambiguousClass qualifier version (several.map ClassRecord.intermediate))

/-- What a member name may be, in the order in which it is tried. -/
def memberKeys (name : String) : List MemberKey :=
  ((Text.readWord? name.toList).map MemberKey.number).toList ++
    [.intermediate name, .obfuscated name, .final name]

/-- The members that the first successful key finds. -/
def searchMembers (s : Store) (scope : Scope) (name : String) : List MemberRecord :=
  (((memberKeys name).map (s.findMembers scope)).find? (fun found => !found.isEmpty)).getD []

def membersOrNotFound (query : Query) : List MemberRecord → Except Fault Resolution
  | [] => .error (.mappingNotFound query.kind query.name query.version)
  | found => .ok (.members found)

def resolveMember (s : Store) (query : Query) (kind : MemberKind) (name : List Char) :
    Except Fault Resolution :=
  match Text.cutLast? '.' name with
  | none =>
    membersOrNotFound query (s.searchMembers ⟨query.version, kind, none⟩ (String.ofList name))
  | some (qualifier, member) =>
    if kind = .parameter then
      .error (.invalidQuery "parameters cannot be qualified by a class")
    else if qualifier.isEmpty || member.isEmpty then
      .error (.invalidQuery "class qualifier and member name must both be non-empty")
    else do
      let owner ← s.resolveClass query.version (String.ofList qualifier)
      membersOrNotFound query
        (s.searchMembers ⟨query.version, kind, some owner.id⟩ (String.ofList member))

def resolve (s : Store) (query : Query) : Except Fault Resolution :=
  let name := Text.trim query.name.toList
  if name.isEmpty then .error (.invalidQuery "empty name")
  else
    match query.kind with
    | .wholeClass => (s.resolveClass query.version (String.ofList name)).map .wholeClass
    | .member kind => s.resolveMember query kind name

end Store

end SymbolAtlas
