import SymbolAtlas.Descriptor.Basic
import SymbolAtlas.Graph.Index
import SymbolAtlas.SymbolId

/-! The symbols of one version. A class holds its fields, methods and constructors; beside the
classes the graph lists, for every field and method name, the classes that have such a member. -/
namespace SymbolAtlas

structure Field where
  intermediate : String
  obfuscated : String
  /-- Intermediate name of the enclosing class. -/
  owner : String
  deriving DecidableEq, Repr

instance : Named Field := ⟨Field.intermediate, Field.obfuscated⟩

/-- A field without a number is identified by its intermediate name. -/
def Field.id (f : Field) : SymbolId :=
  .derive SymbolId.fieldStem f.intermediate f.obfuscated f.intermediate

structure Method where
  /-- In obfuscated class names. -/
  descriptor : Descriptor
  intermediate : String
  obfuscated : String
  owner : String
  isStatic : Bool
  deriving DecidableEq, Repr

namespace Method

/-- A method without a number is identified by its obfuscated name. -/
def id (m : Method) : SymbolId :=
  .derive SymbolId.methodStem m.intermediate m.obfuscated m.obfuscated

/-- The receiver takes slot zero of a method that has one. -/
def firstSlot (m : Method) : Nat := if m.isStatic then 0 else 1

def arity (m : Method) : Nat := m.descriptor.arguments.length

/-- The name of the argument in a slot, among methods of one stem. -/
def slotName (stem : String) (slot : Nat) : String := "p_" ++ stem ++ "_" ++ slot.repr ++ "_"

def parameterName (m : Method) (i : Nat) : String := slotName m.id.text (m.firstSlot + i)

def obfuscatedParameterName (m : Method) (i : Nat) : String :=
  slotName m.obfuscated (m.firstSlot + i)

def parameterNames (m : Method) : List String := (List.range m.arity).map m.parameterName

def obfuscatedParameterNames (m : Method) : List String :=
  (List.range m.arity).map m.obfuscatedParameterName

end Method

structure Constructor where
  id : UInt64
  owner : String
  /-- In intermediate class names. -/
  signature : Descriptor
  deriving DecidableEq, Repr

structure ClassSymbol where
  obfuscated : String
  intermediate : String
  fields : Index Field
  /-- By intermediate name only: overloads share their obfuscated name. -/
  methods : Table String Method
  constructors : Table UInt64 Constructor
  deriving DecidableEq, Repr

instance : Named ClassSymbol := ⟨ClassSymbol.intermediate, ClassSymbol.obfuscated⟩

def ClassSymbol.bare (obfuscated intermediate : String) : ClassSymbol :=
  ⟨obfuscated, intermediate, .empty, .empty, .empty⟩

structure Graph where
  classes : Index ClassSymbol
  /-- The classes with a field of each name. -/
  fieldOwners : Table String (List String)
  /-- The classes with a method of each name. -/
  methodOwners : Table String (List String)
  deriving DecidableEq, Repr

namespace Graph

def empty : Graph := ⟨.empty, .empty, .empty⟩

def insertClass (g : Graph) (c : ClassSymbol) : Except Fault Graph :=
  (g.classes.insert c).map (fun classes => { g with classes })

/-- A field of the class under a name. One that repeats a name of a field of its class, on either
side, is dropped. -/
def addField (g : Graph) (name : String) (owner : ClassSymbol) (field : Field) : Graph :=
  match owner.fields.insert field with
  | .error _ => g
  | .ok fields =>
    { g with
      classes := g.classes.modify name (fun c => { c with fields })
      fieldOwners := g.fieldOwners.push field.intermediate name }

/-- A method that repeats the intermediate name of a method of its class is dropped. -/
def addMethod (g : Graph) (name : String) (owner : ClassSymbol) (method : Method) : Graph :=
  if owner.methods.contains method.intermediate then g
  else
    { g with
      classes := g.classes.modify name
        (fun c => { c with methods := c.methods.insert method.intermediate method })
      methodOwners := g.methodOwners.push method.intermediate name }

def fieldCount (g : Graph) : Nat := g.fieldOwners.values.flatten.length

def methodCount (g : Graph) : Nat := g.methodOwners.values.flatten.length

def parameterCount (g : Graph) : Nat :=
  ((g.classes.toList.flatMap (fun c => c.methods.values)).flatMap
    (fun m => m.descriptor.arguments)).length

end Graph

end SymbolAtlas
