import SymbolAtlas.Store.Basic

/-! What the store knows about a version: its members by kind and by name, its classes by name, the
history and the current final name of a member. -/
namespace SymbolAtlas.Store

/-- Members of one kind in one version, in the order of insertion. -/
def membersOf (s : Store) (version : String) (kind : MemberKind) : List MemberRecord :=
  s.members.filter (fun m => m.key.kind = kind && m.key.version = version)

/-- The members of a name, found through the name index. -/
def membersNamed (s : Store) (key : NameKey) : List MemberRecord :=
  ((s.names.get? key).getD []).filterMap s.member?

def memberNamed? (s : Store) (key : NameKey) : Option MemberRecord := (s.membersNamed key).head?

def history (s : Store) (key : NameKey) : List LedgerEntry := s.ledger.history key

/-- The ledger entry that a member points at. -/
def lastRecord? (s : Store) (m : MemberRecord) : Option LedgerEntry :=
  m.lastChange.bind s.ledger.get?

def finalName? (s : Store) (m : MemberRecord) : Option String :=
  (s.lastRecord? m).map (fun e => e.change.final)

/-- The first class of the version with the dotted obfuscated name. -/
def classByObfuscated? (s : Store) (version name : String) : Option ClassRecord :=
  s.classes.find? (fun c => c.version = version && c.obfuscated = name)

def classesBySuffix (s : Store) (version suffix : String) : List ClassRecord :=
  s.classes.filter
    (fun c => c.version = version && suffix.toList.isSuffixOf c.intermediate.toList)

/-- Where members are looked for: everywhere in a version, or in one class of it. -/
structure Scope where
  version : String
  kind : MemberKind
  owner : Option Nat
  deriving DecidableEq, Repr

def Scope.admits (scope : Scope) (m : MemberRecord) : Bool :=
  scope.owner.isNone || m.owner = scope.owner

inductive MemberKey where
  | number (number : UInt64)
  | intermediate (name : String)
  | obfuscated (name : String)
  | final (name : String)
  deriving DecidableEq, Repr

def matchesKey (s : Store) (key : MemberKey) (m : MemberRecord) : Bool :=
  match key with
  | .number number => m.number? = some number
  | .intermediate name => m.key.name = name
  | .obfuscated name => m.obfuscated = name
  | .final name => s.finalName? m = some name

/-- Intermediate names go through the index, all else through the members of the scope. -/
def findMembers (s : Store) (scope : Scope) (key : MemberKey) : List MemberRecord :=
  match key with
  | .intermediate name =>
    (s.membersNamed ⟨scope.version, scope.kind, name⟩).filter scope.admits
  | key => ((s.membersOf scope.version scope.kind).filter scope.admits).filter (s.matchesKey key)

end SymbolAtlas.Store
