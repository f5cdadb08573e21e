import SymbolAtlas.Graph.Remap
import SymbolAtlas.Store.Update

/-! Storing a graph as a version. Everything is converted before anything is stored: a class record
for each class, then its fields in order, then each method followed by its parameters. -/
namespace SymbolAtlas

/-- How many of each were stored; constructors are counted and have no records. -/
structure ImportReport where
  classes : Nat
  constructors : Nat
  fields : Nat
  methods : Nat
  parameters : Nat
  deriving DecidableEq, Repr

def ImportReport.zero : ImportReport := ⟨0, 0, 0, 0, 0⟩

def ImportReport.add (a b : ImportReport) : ImportReport :=
  ⟨a.classes + b.classes, a.constructors + b.constructors, a.fields + b.fields,
    a.methods + b.methods, a.parameters + b.parameters⟩

/-- A method's record and those of its parameters, not stored yet and so without owners. -/
structure PendingMethod where
  record : MemberRecord
  parameters : List MemberRecord
  deriving DecidableEq, Repr

structure PendingClass where
  intermediate : String
  obfuscated : String
  constructors : Nat
  fields : List MemberRecord
  methods : List PendingMethod
  deriving DecidableEq, Repr

/-- A member whose id carries no number is locked from the start. -/
def fieldRecord (version : String) (f : Field) : MemberRecord :=
  { MemberRecord.plain ⟨version, .field, f.intermediate⟩ f.obfuscated with
    locked := f.id.number?.isNone
    symbolId := some f.id }

def parameterRecord (version : String) (p : Parameter) : Except Fault MemberRecord := do
  let typeName ← p.type.dottedSpelling
  return { MemberRecord.plain ⟨version, .parameter, p.intermediate⟩ p.obfuscated with
    index := some p.index
    typeName := some typeName }

namespace Graph

def methodRecord (g : Graph) (version : String) (m : Method) : MemberRecord :=
  { MemberRecord.plain ⟨version, .method, m.intermediate⟩ m.obfuscated with
    descriptor := some (g.mapDescriptor m.descriptor).encode
    locked := m.id.number?.isNone
    symbolId := some m.id }

/-- Fails if a parameter's type has no spelling. -/
def pendingMethod (g : Graph) (version : String) (m : Method) : Except Fault PendingMethod := do
  let parameters ← (g.parameters m).mapM (parameterRecord version)
  return ⟨g.methodRecord version m, parameters⟩

def pendingClass (g : Graph) (version : String) (c : ClassSymbol) : Except Fault PendingClass := do
  let methods ← c.methods.values.mapM (g.pendingMethod version)
  return ⟨dotted c.intermediate, dotted c.obfuscated, c.constructors.size,
    c.fields.toList.map (fieldRecord version), methods⟩

def pendingClasses (g : Graph) (version : String) : Except Fault (List PendingClass) :=
  g.classes.toList.mapM (g.pendingClass version)

end Graph

namespace Store

/-- Parameters are owned by their method. -/
def addPendingMethod (owner : Nat) (m : PendingMethod) : Update Unit := do
  let method ← addMember { m.record with owner := some owner }
  m.parameters.forM (fun p => do let _ ← addMember { p with owner := some method })

/-- Fields and methods are owned by their class. -/
def addPendingClass (version : String) (c : PendingClass) : Update ImportReport := do
  let owner ← addClass version c.obfuscated c.intermediate
  c.fields.forM (fun f => do let _ ← addMember { f with owner := some owner })
  c.methods.forM (addPendingMethod owner)
  return ⟨1, c.constructors, c.fields.length, c.methods.length,
    (c.methods.flatMap PendingMethod.parameters).length⟩

/-- Versions are never merged. -/
def importGraph (now : Instant) (version : String) (g : Graph) (digest : String) :
    Update ImportReport := do
  let s ← .look
  if (s.version? version).isSome then .fail (.versionAlreadyImported version)
  else
    let pending ← .ask (fun _ => g.pendingClasses version)
    addVersion now version digest
    let reports ← pending.mapM (addPendingClass version)
    return reports.foldl .add .zero

end Store

end SymbolAtlas
