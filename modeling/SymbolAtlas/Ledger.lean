import SymbolAtlas.Instant.Basic
import SymbolAtlas.Kind

/-! The ledger of final names. Entries are only ever appended; an entry's id is its position. -/
namespace SymbolAtlas

/-- What shares one history: overriding methods and their parameters have one name in a version. -/
structure NameKey where
  version : String
  kind : MemberKind
  name : String
  deriving DecidableEq, Repr

structure NameChange where
  key : NameKey
  actor : String
  final : String
  deriving DecidableEq, Repr

structure LedgerEntry where
  id : Nat
  change : NameChange
  recorded : Instant
  deriving DecidableEq, Repr

structure Ledger where
  entries : List LedgerEntry
  deriving DecidableEq, Repr

namespace Ledger

def empty : Ledger := ⟨[]⟩

def size (l : Ledger) : Nat := l.entries.length

def append (l : Ledger) (now : Instant) (change : NameChange) : Ledger :=
  ⟨l.entries ++ [⟨l.entries.length, change, now⟩]⟩

def get? (l : Ledger) (id : Nat) : Option LedgerEntry := l.entries[id]?

def history (l : Ledger) (key : NameKey) : List LedgerEntry :=
  l.entries.filter (fun e => e.change.key = key)

/-- Every entry stands at the position that its id names. -/
def isConsistent (l : Ledger) : Bool :=
  l.entries.zipIdx.all (fun e => e.1.id == e.2)

theorem get?_append (l : Ledger) (now : Instant) (change : NameChange) (id : Nat) :
    (l.append now change).get? id =
      if id = l.entries.length then some ⟨l.entries.length, change, now⟩ else l.get? id := by
  simp only [get?, append, List.getElem?_append, List.getElem?_singleton]
  split <;> split <;> simp_all <;> omega

end Ledger

end SymbolAtlas
