import SymbolAtlas.Text.Alphabet
import SymbolAtlas.Text.Line

/-! Identities of fields and methods. A name such as `func_70071_h_` carries a number, which
identifies the symbol across versions; a symbol without one is identified by a name. -/
namespace SymbolAtlas

inductive SymbolId where
  | named (name : String)
  | numbered (number : UInt64)
  deriving DecidableEq, Repr

namespace SymbolId

def text : SymbolId → String
  | named name => name
  | numbered number => number.toNat.repr

def number? : SymbolId → Option UInt64
  | named _ => none
  | numbered number => some number

/-- What numbered field names start with. -/
def fieldStem : String := "field"

/-- What numbered method names start with. -/
def methodStem : String := "func"

/-- The number of a name of the form stem, digits, word characters, joined by `_`. Digits of any
script fit the form, but only ASCII digits below 2^64 make a number. -/
def numberIn? (stem name : String) : Option UInt64 :=
  match Text.after? (stem.toList ++ ['_']) name.toList with
  | none => none
  | some rest =>
    match rest.dropWhile Text.isDigit with
    | '_' :: tail =>
      if !tail.isEmpty && tail.all Text.isWord then
        Text.unsigned? (rest.takeWhile Text.isDigit)
      else none
    | _ => none

/-- The intermediate name is asked for a number before the obfuscated one. -/
def derive (stem intermediate obfuscated fallback : String) : SymbolId :=
  match (numberIn? stem intermediate).or (numberIn? stem obfuscated) with
  | some number => numbered number
  | none => named fallback

end SymbolId

end SymbolAtlas
