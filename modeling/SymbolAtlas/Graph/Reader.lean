import SymbolAtlas.Descriptor.Reader
import SymbolAtlas.Graph.Basic

/-! Reading the mapping lines of a version. A line without a leading tab opens a class; lines with
one hold members of the class opened last. The first line that fits neither ends the reading, and
its fault carries its number. -/
namespace SymbolAtlas.Graph

def readHeader (line : List Char) : Except Fault ClassSymbol :=
  match line.splitOn ' ' with
  | [obfuscated, intermediate] =>
    if obfuscated.isEmpty || intermediate.isEmpty then
      .error (.malformedLine (String.ofList line) "empty class name")
    else .ok (.bare (String.ofList obfuscated) (String.ofList intermediate))
  | tokens =>
    .error (.malformedLine (String.ofList line)
      ("class header needs 2 tokens, found " ++ tokens.length.repr))

/-- Obfuscated name, descriptor and intermediate name, blanks between them. -/
def readMethod (owner : String) (member : List Char) : Except Fault Method :=
  match Text.words member with
  | [obfuscated, descriptor, intermediate] => do
    let descriptor ← Descriptor.read (String.ofList descriptor)
    return ⟨descriptor, String.ofList intermediate, String.ofList obfuscated, owner, false⟩
  | tokens =>
    .error (.malformedLine (String.ofList member)
      ("method line needs 3 tokens, found " ++ tokens.length.repr))

def readField (owner : String) (member : List Char) : Except Fault Field :=
  match Text.words member with
  | [obfuscated, intermediate] =>
    .ok ⟨String.ofList intermediate, String.ofList obfuscated, owner⟩
  | tokens =>
    .error (.malformedLine (String.ofList member)
      ("field line needs 2 tokens, found " ++ tokens.length.repr))

/-- The graph so far, and the class that member lines belong to. -/
structure Reading where
  graph : Graph
  current : Option String

namespace Reading

def start : Reading := ⟨.empty, none⟩

/-- The class that member lines belong to, behind the name that it stands under. -/
def owner? (r : Reading) : Option (String × ClassSymbol) :=
  r.current.bind (fun name => (r.graph.classes.get? name).map (name, ·))

theorem owner?_eq_some_iff {r : Reading} {name : String} {owner : ClassSymbol} :
    r.owner? = some (name, owner) ↔
      r.current = some name ∧ r.graph.classes.get? name = some owner := by
  simp only [owner?, Option.bind_eq_some_iff, Option.map_eq_some_iff, Prod.mk.injEq]
  constructor
  · rintro ⟨_, current, _, found, rfl, rfl⟩
    exact ⟨current, found⟩
  · rintro ⟨current, found⟩
    exact ⟨name, current, owner, found, rfl, rfl⟩

/-- A member line, told apart by whether a parenthesis occurs in it. -/
def member (r : Reading) (name : String) (owner : ClassSymbol) (member : List Char) :
    Except Fault Reading :=
  if member.contains '(' then
    (readMethod name member).map (fun m => { r with graph := r.graph.addMethod name owner m })
  else (readField name member).map (fun f => { r with graph := r.graph.addField name owner f })

def header (r : Reading) (line : List Char) : Except Fault Reading := do
  let c ← readHeader line
  let graph ← r.graph.insertClass c
  return ⟨graph, some c.intermediate⟩

def line (r : Reading) : List Char → Except Fault Reading
  | '\t' :: member =>
    match r.owner? with
    | some (name, owner) => r.member name owner member
    | none => .error (.orphanMember (String.ofList ('\t' :: member)))
  | line => r.header line

def numberedLine (r : Reading) (l : Nat × List Char) : Except Fault Reading :=
  (r.line l.2).mapError (.atLine l.1)

end Reading

/-- Carriage returns and line feeds at the end of a line are no part of it. -/
def dropLineEnd (line : List Char) : List Char :=
  Text.dropEndWhile (fun c => c == '\r' || c == '\n') line

def readLines (lines : List (List Char)) : Except Fault Graph :=
  ((Text.numbered (lines.map dropLineEnd)).foldlM Reading.numberedLine .start).map
    Reading.graph

def read (text : String) : Except Fault Graph := readLines (Text.lines text.toList)

end SymbolAtlas.Graph
