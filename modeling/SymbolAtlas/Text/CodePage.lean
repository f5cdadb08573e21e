/-! Bytes as text where UTF-8 is not to be relied on: read by code page 437, or with U+FFFD in place
of whatever is not UTF-8. -/
namespace SymbolAtlas.Text

/-- What the bytes from 128 on stand for in code page 437. -/
def codePage : List Char :=
  "ÇüéâäàåçêëèïîìÄÅÉæÆôöòûùÿÖÜ¢£¥₧ƒ".toList ++
  "áíóúñÑªº¿⌐¬½¼¡«»░▒▓│┤╡╢╖╕╣║╗╝╜╛┐".toList ++
  "└┴┬├─┼╞╟╚╔╩╦╠═╬╧╨╤╥╙╘╒╓╫╪┘┌█▄▌▐▀".toList ++
  "αßΓπΣσµτΦΘΩδ∞φε∩≡±≥≤⌠⌡÷≈°∙·√ⁿ²■\u00a0".toList

def ofCodePage (byte : UInt8) : Char :=
  if byte < 128 then Char.ofNat byte.toNat else codePage.getD (byte.toNat - 128) '?'

/-- The ranges of the bytes that complete a character after its first byte, unless no character
starts with it. -/
def completions? (first : UInt8) : Option (List (UInt8 × UInt8)) :=
  if first < 0x80 then some []
  else if first < 0xC2 then none
  else if first < 0xE0 then some [(0x80, 0xBF)]
  else if first = 0xE0 then some [(0xA0, 0xBF), (0x80, 0xBF)]
  else if first = 0xED then some [(0x80, 0x9F), (0x80, 0xBF)]
  else if first < 0xF0 then some [(0x80, 0xBF), (0x80, 0xBF)]
  else if first = 0xF0 then some [(0x90, 0xBF), (0x80, 0xBF), (0x80, 0xBF)]
  else if first < 0xF4 then some [(0x80, 0xBF), (0x80, 0xBF), (0x80, 0xBF)]
  else if first = 0xF4 then some [(0x80, 0x8F), (0x80, 0xBF), (0x80, 0xBF)]
  else none

/-- How many bytes are each in its range, from the first on. -/
def matching : List (UInt8 × UInt8) → List UInt8 → Nat
  | (low, high) :: ranges, byte :: bytes =>
    if low ≤ byte && byte ≤ high then matching ranges bytes + 1 else 0
  | _, _ => 0

/-- The bytes in UTF-8 throughout: U+FFFD stands for a character that breaks off, as far as it goes,
and for a byte that starts none. -/
def mended : List UInt8 → List UInt8
  | [] => []
  | byte :: bytes =>
    let unknown := [0xEF, 0xBF, 0xBD]
    match completions? byte with
    | none => unknown ++ mended bytes
    | some ranges =>
      let count := matching ranges bytes
      (if count = ranges.length then byte :: bytes.take count else unknown) ++
        mended (bytes.drop count)
  termination_by bytes => bytes.length

end SymbolAtlas.Text
