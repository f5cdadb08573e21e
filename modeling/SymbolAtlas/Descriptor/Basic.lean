import SymbolAtlas.Fault

/-! Encoded types of method signatures. A type is kept as its code, so any text can stand where a
type is expected; the readers decide which texts are types. A type is spelled from its code as in
source text: `[[J` is `long[][]`. There a primitive code is not required to end the text. -/
namespace SymbolAtlas

/-- Packages separated by dots instead of slashes. -/
def dotted (name : String) : String :=
  String.ofList (name.toList.map (fun c => if c = '/' then '.' else c))

/-- The same fault told of another text. -/
def Fault.about (text : String) : Fault → Fault
  | malformedDescriptor _ reason => malformedDescriptor text reason
  | unknownDescriptorCode code _ => unknownDescriptorCode code text
  | fault => fault

/-- A code such as `[[I` or `[Ljava/lang/String;`: array brackets, then an element. -/
structure TypeRef where
  code : List Char
  deriving DecidableEq, Repr

namespace TypeRef

def text (t : TypeRef) : String := String.ofList t.code

def ofText (text : String) : TypeRef := ⟨text.toList⟩

def primitive (depth : Nat) (c : Char) : TypeRef := ⟨List.replicate depth '[' ++ [c]⟩

def object (depth : Nat) (name : List Char) : TypeRef :=
  ⟨List.replicate depth '[' ++ 'L' :: (name ++ [';'])⟩

def void : TypeRef := ⟨['V']⟩

def depth (t : TypeRef) : Nat := (t.code.takeWhile (· == '[')).length

def element (t : TypeRef) : List Char := t.code.dropWhile (· == '[')

/-- The name between `L` and a closing `;`. -/
def className? (t : TypeRef) : Option String :=
  match t.element with
  | 'L' :: rest =>
    if rest.getLast? = some ';' then some (String.ofList rest.dropLast) else none
  | _ => none

/-- The depth stays; the element becomes the named class, whatever it was. -/
def withClassName (t : TypeRef) (name : String) : TypeRef := object t.depth name.toList

def primitiveCodes : List Char := ['Z', 'B', 'C', 'S', 'I', 'J', 'F', 'D']

def isPrimitive (c : Char) : Bool := primitiveCodes.contains c

def keyword? : Char → Option String
  | 'Z' => some "boolean"
  | 'B' => some "byte"
  | 'C' => some "char"
  | 'S' => some "short"
  | 'I' => some "int"
  | 'J' => some "long"
  | 'F' => some "float"
  | 'D' => some "double"
  | _ => none

/-- A fault found behind a bracket is told of the text with the bracket. -/
def spellCode : List Char → Except Fault String
  | [] => .error (.malformedDescriptor "" "empty type")
  | '[' :: rest =>
    ((spellCode rest).map (· ++ "[]")).mapError (.about (String.ofList ('[' :: rest)))
  | 'L' :: rest =>
    if rest.getLast? = some ';' ∧ rest.dropLast ≠ [] ∧ ';' ∉ rest.dropLast then
      .ok (String.ofList rest.dropLast)
    else .error (.malformedDescriptor (String.ofList ('L' :: rest)) "unterminated object type")
  | c :: rest =>
    match keyword? c with
    | some word => .ok word
    | none => .error (.unknownDescriptorCode c (String.ofList (c :: rest)))

def spelling (t : TypeRef) : Except Fault String := spellCode t.code

def dottedSpelling (t : TypeRef) : Except Fault String := t.spelling.map dotted

end TypeRef

/-- A method's signature; only the result may be `void`. -/
structure Descriptor where
  arguments : List TypeRef
  result : TypeRef
  deriving DecidableEq, Repr

namespace Descriptor

def code (d : Descriptor) : List Char :=
  '(' :: (d.arguments.flatMap TypeRef.code ++ ')' :: d.result.code)

def encode (d : Descriptor) : String := String.ofList d.code

end Descriptor

end SymbolAtlas
