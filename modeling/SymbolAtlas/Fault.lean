import SymbolAtlas.Kind

/-! Why an operation was refused. A constructor is a cause and holds what the message names;
the wording is in `Fault.message` alone. Causes outside the catalogue (files, stored text,
settings, archives) hold a free description. -/
namespace SymbolAtlas

/-- The settings are looked up under this name in the working directory. -/
def settingsFile : String := ".srgmap.toml"

inductive Fault where
  /-- More than one class answers to the qualifier. -/
  | ambiguousClass (qualifier version : String) (candidates : List String)
  /-- A cause found on one line of a text; lines count from one. -/
  | atLine (line : Nat) (cause : Fault)
  | duplicateSymbol (name : String)
  | forbidden (reason : String)
  | invalidName (name : String)
  | invalidQuery (reason : String)
  | io (detail : String)
  | json (detail : String)
  | malformedDescriptor (descriptor reason : String)
  | malformedLine (content reason : String)
  | mappingNotFound (kind : SymbolKind) (name version : String)
  | missingInput (path : String)
  /-- A member line before the first class header. -/
  | orphanMember (content : String)
  | storeCorrupt (reason : String)
  | settings (detail : String)
  | unauthenticated
  | unknownClass (qualifier version : String)
  | unknownDescriptorCode (code : Char) (descriptor : String)
  | unknownVersion (version : String)
  | versionAlreadyImported (version : String)
  | archive (detail : String)
  deriving DecidableEq, Repr

namespace Fault

def root : Fault → Fault
  | atLine _ cause => cause.root
  | fault => fault

def message : Fault → String
  | ambiguousClass qualifier version candidates =>
    s!"ambiguous class `{qualifier}` in {version}, candidates: " ++ ", ".intercalate candidates
  | atLine line cause => s!"line {line}: " ++ cause.message
  | duplicateSymbol name => s!"duplicate symbol: `{name}`"
  | forbidden reason => s!"forbidden: {reason}"
  | invalidName name => s!"invalid name: `{name}`"
  | invalidQuery reason => s!"invalid query: {reason}"
  | io detail => s!"io: {detail}"
  | json detail => s!"json: {detail}"
  | malformedDescriptor descriptor reason => s!"malformed descriptor `{descriptor}`: {reason}"
  | malformedLine content reason => s!"malformed line `{content}`: {reason}"
  | mappingNotFound kind name version =>
    kind.name ++ s!" mapping not found: `{name}` in {version}"
  | missingInput path => s!"missing input: {path}"
  | orphanMember content => s!"member without an enclosing class: `{content}`"
  | storeCorrupt reason => s!"store corrupt: {reason}"
  | settings detail => s!"toml deserialize: {detail}"
  | unauthenticated => s!"no actor given (use --as or set `actor` in {settingsFile})"
  | unknownClass qualifier version => s!"unknown class `{qualifier}` in {version}"
  | unknownDescriptorCode code descriptor =>
    s!"unknown descriptor code `{code}` in `{descriptor}`"
  | unknownVersion version => s!"unknown version: `{version}`"
  | versionAlreadyImported version => s!"version `{version}` is already imported"
  | archive detail => s!"zip: {detail}"

end Fault

end SymbolAtlas
