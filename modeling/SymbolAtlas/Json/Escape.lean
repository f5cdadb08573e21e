import SymbolAtlas.Json.Basic
import SymbolAtlas.Text.Alphabet

/-! String literals of JSON, without their opening quote. Written text escapes quotes, backslashes
and control characters and nothing else; reading accepts every escape of the grammar. -/
namespace SymbolAtlas.Json

def hexDigit (n : Nat) : Char := (Nat.digitChar n)

def escapeChar (c : Char) : List Char :=
  if c = '"' then ['\\', '"']
  else if c = '\\' then ['\\', '\\']
  else if c = '\x08' then ['\\', 'b']
  else if c = '\x0c' then ['\\', 'f']
  else if c = '\n' then ['\\', 'n']
  else if c = '\r' then ['\\', 'r']
  else if c = '\t' then ['\\', 't']
  else if c.toNat < 0x20 then
    ['\\', 'u', '0', '0', hexDigit (c.toNat / 16), hexDigit (c.toNat % 16)]
  else [c]

/-- The literal with both quotes. Half a surrogate pair stands for a text there is none of. -/
def writeLiteral : Literal → List Char
  | some s => '"' :: (s.toList.flatMap escapeChar ++ ['"'])
  | none => ['"', '\\', 'u', 'd', '8', '0', '0', '"']

def unescape? : Char → Option Char
  | '"' => some '"'
  | '\\' => some '\\'
  | '/' => some '/'
  | 'b' => some '\x08'
  | 'f' => some '\x0c'
  | 'n' => some '\n'
  | 'r' => some '\r'
  | 't' => some '\t'
  | _ => none

def unit? (a b c d : Char) : Option Nat := do
  let a ← Text.hexValue? a
  let b ← Text.hexValue? b
  let c ← Text.hexValue? c
  let d ← Text.hexValue? d
  return ((a * 16 + b) * 16 + c) * 16 + d

/-- A literal as far as it has been read: its characters, last first, or `none` once a surrogate
was left alone; and a first half that still waits for its second. -/
structure Decoding where
  text : Option (List Char)
  high : Option Nat

namespace Decoding

def start : Decoding := ⟨some [], none⟩

def broken : Decoding := ⟨none, none⟩

def push (p : Decoding) (c : Char) : Decoding :=
  match p.high with
  | some _ => broken
  | none => ⟨p.text.map (c :: ·), none⟩

/-- A second half completes a waiting first half; elsewhere it stands alone. -/
def pushUnit (p : Decoding) (n : Nat) : Decoding :=
  let isHigh := 0xD800 ≤ n && n ≤ 0xDBFF
  let isLow := 0xDC00 ≤ n && n ≤ 0xDFFF
  match p.high with
  | some high =>
    if isLow then
      ⟨p.text.map (Char.ofNat (0x10000 + (high - 0xD800) * 0x400 + (n - 0xDC00)) :: ·), none⟩
    else broken
  | none =>
    if isHigh then ⟨p.text, some n⟩
    else if isLow then broken
    else p.push (Char.ofNat n)

def literal (p : Decoding) : Literal :=
  match p.high with
  | some _ => none
  | none => p.text.map (fun s => String.ofList s.reverse)

end Decoding

/-- Reads to the closing quote and gives the rest. Control characters must be escaped. -/
def readLiteral (p : Decoding) : List Char → Option (Literal × List Char)
  | [] => none
  | '"' :: rest => some (p.literal, rest)
  | '\\' :: 'u' :: a :: b :: c :: d :: rest =>
    match unit? a b c d with
    | some n => readLiteral (p.pushUnit n) rest
    | none => none
  | '\\' :: c :: rest =>
    match unescape? c with
    | some c => readLiteral (p.push c) rest
    | none => none
  | c :: rest => if c = '\\' || c.toNat < 0x20 then none else readLiteral (p.push c) rest

theorem readLiteral_length {p : Decoding} {s : List Char} {l : Literal} {rest : List Char}
    (h : readLiteral p s = some (l, rest)) : rest.length < s.length := by
  fun_induction readLiteral p s <;> simp_all <;> omega

end SymbolAtlas.Json
