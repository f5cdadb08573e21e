import SymbolAtlas.Fault
import SymbolAtlas.Table

/-! Entries that are found by either of two names. The index keeps the entries by intermediate name
and, beside them, the intermediate name of each obfuscated one. -/
namespace SymbolAtlas

class Named (α : Type) where
  intermediate : α → String
  obfuscated : α → String

structure Index (α : Type) where
  byIntermediate : Table String α
  byObfuscated : Table String String
  deriving DecidableEq, Repr

namespace Index

variable {α : Type}

def empty : Index α := ⟨.empty, .empty⟩

def toList (ix : Index α) : List α := ix.byIntermediate.values

def size (ix : Index α) : Nat := ix.byIntermediate.size

def isEmpty (ix : Index α) : Bool := ix.byIntermediate.entries.isEmpty

def get? (ix : Index α) (intermediate : String) : Option α :=
  ix.byIntermediate.get? intermediate

def getObfuscated? (ix : Index α) (obfuscated : String) : Option α :=
  (ix.byObfuscated.get? obfuscated).bind ix.byIntermediate.get?

/-- Changes an entry in place; both of its names must stay. -/
def modify (ix : Index α) (intermediate : String) (f : α → α) : Index α :=
  { ix with byIntermediate := ix.byIntermediate.modify intermediate f }

/-- Both names must be new. The intermediate name is compared first. -/
def insert [Named α] (ix : Index α) (entry : α) : Except Fault (Index α) :=
  let intermediate := Named.intermediate entry
  let obfuscated := Named.obfuscated entry
  if ix.byIntermediate.contains intermediate then .error (.duplicateSymbol intermediate)
  else if ix.byObfuscated.contains obfuscated then .error (.duplicateSymbol obfuscated)
  else
    .ok ⟨ix.byIntermediate.insert intermediate entry,
      ix.byObfuscated.insert obfuscated intermediate⟩

end Index

end SymbolAtlas
