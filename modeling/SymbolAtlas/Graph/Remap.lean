import SymbolAtlas.Graph.Basic

/-! Class names inside types, from obfuscated to intermediate. A name that no class of the graph has
as its obfuscated name stays: it belongs to a library. -/
namespace SymbolAtlas

/-- An argument of a method, its type in intermediate class names. -/
structure Parameter where
  index : Nat
  intermediate : String
  obfuscated : String
  type : TypeRef
  deriving DecidableEq, Repr

namespace Graph

def mapClass (g : Graph) (name : String) : String :=
  ((g.classes.getObfuscated? name).map ClassSymbol.intermediate).getD name

def mapType (g : Graph) (t : TypeRef) : TypeRef :=
  match t.className? with
  | some name => t.withClassName (g.mapClass name)
  | none => t

def mapDescriptor (g : Graph) (d : Descriptor) : Descriptor :=
  ⟨d.arguments.map g.mapType, g.mapType d.result⟩

/-- One parameter for each argument, in order. -/
def parameters (g : Graph) (m : Method) : List Parameter :=
  m.descriptor.arguments.mapIdx (fun i t =>
    ⟨i, m.parameterName i, m.obfuscatedParameterName i, g.mapType t⟩)

end Graph

end SymbolAtlas
