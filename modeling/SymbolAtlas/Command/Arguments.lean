import SymbolAtlas.Command.Basic

/-! The command line. After the name of a command, flags, options and positional words may come in
any order; each flag and option at most once. Nothing is guessed: a word that does not fit makes the
whole line unusable. -/
namespace SymbolAtlas

/-- What a command knows beside its words; names are without dashes. -/
structure Grammar where
  flags : List String
  /-- These take a value. -/
  options : List String

structure Arguments where
  flags : List String
  options : List (String × String)
  words : List String
  deriving DecidableEq, Repr

namespace Arguments

def blank : Arguments := ⟨[], [], []⟩

/-- A single dash is a word. -/
def isDashed (word : String) : Bool :=
  match word.toList with
  | '-' :: _ :: _ => true
  | _ => false

/-- Adds a flag that the grammar knows and that was not there yet. -/
def addFlag? (a : Arguments) (g : Grammar) (name : String) : Option Arguments :=
  if g.flags.contains name && !a.flags.contains name then
    some { a with flags := name :: a.flags }
  else none

def addOption? (a : Arguments) (g : Grammar) (name value : String) : Option Arguments :=
  if g.options.contains name && (a.options.lookup name).isNone then
    some { a with options := (name, value) :: a.options }
  else none

def addWord (a : Arguments) (word : String) : Arguments := { a with words := a.words ++ [word] }

/-- Two dashes alone make words of all that follows. An option's value stands after an equals sign
or is the next word, which may not be dashed then. -/
def read? (g : Grammar) (a : Arguments) : List String → Option Arguments
  | [] => some a
  | word :: rest =>
    match word.toList with
    | ['-', '-'] => some { a with words := a.words ++ rest }
    | '-' :: '-' :: long =>
      let name := String.ofList (long.takeWhile (· != '='))
      match long.dropWhile (· != '=') with
      | _ :: value => (a.addOption? g name (String.ofList value)).bind (fun a => a.read? g rest)
      | [] =>
        if g.flags.contains name then (a.addFlag? g name).bind (fun a => a.read? g rest)
        else
          match rest with
          | value :: rest =>
            if isDashed value then none
            else (a.addOption? g name value).bind (fun a => a.read? g rest)
          | [] => none
    | '-' :: _ :: _ => none
    | _ => (a.addWord word).read? g rest

def has (a : Arguments) (flag : String) : Bool := a.flags.contains flag

def value? (a : Arguments) (option : String) : Option String := a.options.lookup option

end Arguments

namespace Target

/-- Kinds are written in small letters. -/
def ofWords? (kind version name : String) : Option Target :=
  (SymbolKind.ofSpelling? kind false).map (⟨·, version, name⟩)

end Target

namespace Command

def flagJson : String := "json"

def flagUnlock : String := "unlock"

def flagForce : String := "force"

def optionVersion : String := "version"

def optionActor : String := "as"

def grammar : (name : String) → Option Grammar
  | "dump" => some ⟨[flagJson], [optionVersion]⟩
  | "get" => some ⟨[flagJson], []⟩
  | "history" => some ⟨[flagJson], []⟩
  | "import" => some ⟨[], []⟩
  | "import-names" => some ⟨[], [optionActor]⟩
  | "lock" => some ⟨[flagUnlock], [optionActor]⟩
  | "migrate" => some ⟨[], []⟩
  | "promote" => some ⟨[], []⟩
  | "rename" => some ⟨[flagForce], [optionActor]⟩
  | "summary" => some ⟨[flagJson], [optionVersion]⟩
  | "versions" => some ⟨[flagJson], []⟩
  | _ => none

/-- A source that is not empty. -/
def source? (path : String) : Option String := if path.isEmpty then none else some path

def ofArguments? (name : String) (a : Arguments) : Option Command :=
  let json := a.has flagJson
  let version := (a.value? optionVersion).getD Store.latestWord
  let actor := a.value? optionActor
  match name, a.words with
  | "dump", [] => some (.ask (.dump version) json)
  | "get", [kind, version, name] =>
    (Target.ofWords? kind version name).map (fun t => .ask (.get t) json)
  | "history", [kind, version, name] =>
    (Target.ofWords? kind version name).map (fun t => .ask (.history t) json)
  | "import", [version, source] =>
    (source? source).map (fun source => .change (.importBundle version source))
  | "import-names", [version, source] =>
    (source? source).map (fun source => .change (.importNames version source actor))
  | "lock", [kind, version, name] =>
    (Target.ofWords? kind version name).map
      (fun t => .change (.setLock t (!a.has flagUnlock) actor))
  | "migrate", [source, target] => some (.change (.migrate source target))
  | "promote", [version] => some (.change (.promote version))
  | "rename", [kind, version, name, final] =>
    (Target.ofWords? kind version name).map
      (fun t => .change (.rename t final (a.has flagForce) actor))
  | "summary", [] => some (.ask (.summary version) json)
  | "versions", [] => some (.ask .versions json)
  | _, _ => none

def ofLine? : List String → Option Command
  | [] => none
  | name :: rest => do
    let g ← grammar name
    ofArguments? name (← Arguments.blank.read? g rest)

end Command

end SymbolAtlas
