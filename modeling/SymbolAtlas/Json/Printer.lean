import SymbolAtlas.Json.Escape

/-! JSON as text. A layout says what separates things; the values and their order are written the
same way in every layout. -/
namespace SymbolAtlas.Json

/-- What is written before an item at a depth of nesting, and after a key. -/
structure Layout where
  newline : Nat → List Char
  colon : List Char

/-- One item a line, indented by two spaces for each level. -/
def Layout.pretty : Layout :=
  ⟨fun depth => '\n' :: List.replicate (2 * depth) ' ', [':', ' ']⟩

def Layout.compact : Layout := ⟨fun _ => [], [':']⟩

mutual

def write (layout : Layout) (depth : Nat) : Json → List Char
  | .null => ['n', 'u', 'l', 'l']
  | .bool true => ['t', 'r', 'u', 'e']
  | .bool false => ['f', 'a', 'l', 's', 'e']
  | .natural n => Nat.toDigits 10 n
  | .otherNumber => ['-', '0']
  | .string literal => writeLiteral literal
  | .array [] => ['[', ']']
  | .array (item :: items) =>
    '[' :: (layout.newline (depth + 1) ++ write layout (depth + 1) item ++
      (writeItems layout (depth + 1) items ++ (layout.newline depth ++ [']'])))
  | .object [] => ['{', '}']
  | .object ((key, value) :: members) =>
    '{' :: (layout.newline (depth + 1) ++ writeLiteral key ++ layout.colon ++
      write layout (depth + 1) value ++
      (writeMembers layout (depth + 1) members ++ (layout.newline depth ++ ['}'])))

def writeItems (layout : Layout) (depth : Nat) : List Json → List Char
  | [] => []
  | item :: items =>
    ',' :: (layout.newline depth ++ write layout depth item ++ writeItems layout depth items)

def writeMembers (layout : Layout) (depth : Nat) : List (Literal × Json) → List Char
  | [] => []
  | (key, value) :: members =>
    ',' :: (layout.newline depth ++ writeLiteral key ++ layout.colon ++
      write layout depth value ++ writeMembers layout depth members)

end

def pretty (value : Json) : String := String.ofList (write .pretty 0 value)

def compact (value : Json) : String := String.ofList (write .compact 0 value)

end SymbolAtlas.Json
