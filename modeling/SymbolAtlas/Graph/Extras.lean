import SymbolAtlas.Graph.Reader

/-! Facts about a graph that come in lists of their own: which methods are static, and which
constructors the classes have. Names that the graph does not know are passed over. -/
namespace SymbolAtlas.Graph

def markStaticIn (g : Graph) (name owner : String) : Graph :=
  { g with
    classes := g.classes.modify owner (fun c =>
      { c with methods := c.methods.modify name (fun m => { m with isStatic := true }) }) }

def hasMethod (g : Graph) (name owner : String) : Bool :=
  ((g.classes.get? owner).bind (fun c => c.methods.get? name)).isSome

/-- Every method of the name becomes static, in whatever class; with the number of those that are
found where they are listed. -/
def markStatic (g : Graph) (name : String) : Graph × Nat :=
  ((g.methodOwners.get? name).getD []).foldl
    (fun (g, applied) owner =>
      if g.hasMethod name owner then (g.markStaticIn name owner, applied + 1) else (g, applied))
    (g, 0)

/-- One name a line. A line counts each time it occurs. -/
def applyStatics (g : Graph) (lines : List (List Char)) : Graph × Nat :=
  lines.foldl
    (fun (g, applied) line =>
      let (g, n) := g.markStatic (String.ofList (Text.trim line))
      (g, applied + n))
    (g, 0)

def readConstructor (line : List Char) : Except Fault Constructor :=
  let malformed (reason : String) := Fault.malformedLine (String.ofList line) reason
  match Text.words line with
  | [id, owner, descriptor] =>
    match Text.readWord? id with
    | none => .error (malformed "constructor id is not a number")
    | some id => do
      let signature ← Descriptor.read (String.ofList descriptor)
      return ⟨id, String.ofList owner, signature⟩
  | _ => .error (malformed "constructor line needs 3 tokens")

/-- Of two constructors with one id the later stays, in the place of the earlier. -/
def addConstructor (g : Graph) (c : Constructor) : Graph :=
  { g with
    classes := g.classes.modify c.owner (fun owner =>
      { owner with constructors := owner.constructors.insert c.id c }) }

/-- Applies numbered lines in order. A fault ends the work; what was applied before it stays. -/
def applyConstructorLines (g : Graph) (applied : Nat) :
    List (Nat × List Char) → Graph × Except Fault Nat
  | [] => (g, .ok applied)
  | (number, line) :: rest =>
    match readConstructor (Text.trim line) with
    | .error fault => (g, .error (.atLine number fault))
    | .ok c =>
      if (g.classes.get? c.owner).isSome then
        (g.addConstructor c).applyConstructorLines (applied + 1) rest
      else g.applyConstructorLines applied rest

/-- With the number of constructors that found their class. -/
def applyConstructors (g : Graph) (lines : List (List Char)) : Graph × Except Fault Nat :=
  g.applyConstructorLines 0 (Text.numbered lines)

def assemble (joined statics constructors : String) : Except Fault Graph := do
  let g ← read joined
  let g := (g.applyStatics (Text.lines statics.toList)).1
  match g.applyConstructors (Text.lines constructors.toList) with
  | (g, .ok _) => return g
  | (_, .error fault) => throw fault

end SymbolAtlas.Graph
