import SymbolAtlas.Descriptor.Basic
import SymbolAtlas.Text.Line

/-! Reading a descriptor. The text is cut at its last closing parenthesis; a class name runs to the
next `;` and may hold any character but that one and a line feed. -/
namespace SymbolAtlas.Descriptor

/-- What is wrong with a text that is no descriptor. -/
inductive Flaw where
  | shape
  | unknownCode
  | unterminated
  | danglingArray
  | resultCount
  deriving DecidableEq, Repr

def Flaw.reason : Flaw → String
  | shape => "expected `(ArgTypes)RetType`"
  | unknownCode => "unknown type code"
  | unterminated => "unterminated object type"
  | danglingArray => "array prefix without element type"
  | resultCount => "expected exactly one return type"

/-- Types from left to right. `depth` counts the brackets of the type being read, and `name` holds
its class name so far, last character first, once an `L` has opened one. -/
def readTypes (depth : Nat) (name : Option (List Char)) : List Char → Except Flaw (List TypeRef)
  | [] =>
    match name with
    | some _ => .error .unterminated
    | none => if depth = 0 then .ok [] else .error .danglingArray
  | c :: rest =>
    match name with
    | some name =>
      if c = ';' then (readTypes 0 none rest).map (TypeRef.object depth name.reverse :: ·)
      else readTypes depth (some (c :: name)) rest
    | none =>
      if c = '[' then readTypes (depth + 1) none rest
      else if c = 'L' then readTypes depth (some []) rest
      else if TypeRef.isPrimitive c then
        (readTypes 0 none rest).map (TypeRef.primitive depth c :: ·)
      else .error .unknownCode

/-- `V`, or exactly one type. -/
def readResult (s : List Char) : Except Flaw TypeRef :=
  if s = TypeRef.void.code then .ok .void
  else
    match readTypes 0 none s with
    | .error flaw => .error flaw
    | .ok [t] => .ok t
    | .ok _ => .error .resultCount

def cut? : List Char → Option (List Char × List Char)
  | '(' :: rest => if rest.contains '\n' then none else Text.cutLast? ')' rest
  | _ => none

/-- A flaw of the arguments is found before one of the result. -/
def ofCode (s : List Char) : Except Flaw Descriptor :=
  match cut? s with
  | none => .error .shape
  | some (arguments, result) => do
    let arguments ← readTypes 0 none arguments
    let result ← readResult result
    return ⟨arguments, result⟩

def read (text : String) : Except Fault Descriptor :=
  (ofCode text.toList).mapError (fun flaw => .malformedDescriptor text flaw.reason)

end SymbolAtlas.Descriptor
