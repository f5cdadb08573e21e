/-! JSON values. Order and repetition of object members are kept, since a reader may have to refuse
a repeated key. Numbers that are not naturals carry no value: nothing stored here is one. A record
is read out of an object with its fields as members, or out of an array of exactly its fields in
their order. In an object unknown members are passed over, but a field that is given twice, or a key
that is no text, spoils it. -/
namespace SymbolAtlas

/-- The text of a string literal; `none` when an escape in it names half of a surrogate pair, so
that it denotes no text. Such a literal may stand only where it is ignored. -/
abbrev Literal := Option String

inductive Json where
  | null
  | bool (value : Bool)
  | natural (value : Nat)
  /-- A number with a sign, a fraction or an exponent. -/
  | otherNumber
  | string (literal : Literal)
  | array (items : List Json)
  | object (members : List (Literal × Json))

namespace Json

def text (s : String) : Json := .string (some s)

def ofOption (f : α → Json) : Option α → Json
  | none => .null
  | some a => f a

def record (members : List (String × Json)) : Json :=
  .object (members.map (fun m => (some m.1, m.2)))

/-- The value of the first member with the key. -/
def get? (key : String) : Json → Option Json
  | .object members => (members.find? (fun m => m.1 == some key)).map (·.2)
  | _ => none

def text? : Json → Option String
  | .string literal => literal
  | _ => none

def natural? : Json → Option Nat
  | .natural n => some n
  | _ => none

def bool? : Json → Option Bool
  | .bool b => some b
  | _ => none

def items? : Json → Option (List Json)
  | .array items => some items
  | _ => none

/-- The value of a field, `none` inside if it is missing. -/
def field? (members : List (Literal × Json)) (key : String) : Option (Option Json) :=
  match members.filter (fun m => m.1 == some key) with
  | [] => some none
  | [m] => some (some m.2)
  | _ => none

def fields? (keys : List String) : Json → Option (List (Option Json))
  | .array items => if items.length = keys.length then some (items.map some) else none
  | .object members =>
    if members.any (fun m => m.1.isNone) then none else keys.mapM (field? members)
  | _ => none

def required (decode : Json → Option α) (value : Option Json) : Option α := value.bind decode

/-- A field that may be missing or null. -/
def optional (decode : Json → Option α) : Option Json → Option (Option α)
  | none => some none
  | some .null => some none
  | some value => (decode value).map some

def id? : Json → Option Nat
  | .natural n => if n < UInt64.size then some n else none
  | _ => none

def word64? (value : Json) : Option UInt64 := value.id?.map UInt64.ofNat

def arrayOf (decode : Json → Option α) (value : Json) : Option (List α) :=
  value.items?.bind (fun items => items.mapM decode)

end Json

end SymbolAtlas
