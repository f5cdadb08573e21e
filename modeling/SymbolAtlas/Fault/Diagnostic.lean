import SymbolAtlas.Fault
import SymbolAtlas.Text.Line

/-! A fault as a short document for people: a heading, what happened and, where there is one,
the way out. A fault on a line is shown by its root cause. -/
namespace SymbolAtlas.Fault

/-- Every line is ended, the last one too. -/
def document (lines : List String) : String :=
  String.join (lines.map (· ++ "\n"))

def diagnostic (fault : Fault) : String :=
  match fault with
  | ambiguousClass qualifier version candidates =>
    document <|
      ["# Error: Ambiguous Class", "",
        s!"`{qualifier}` matches multiple classes in {version}.", "",
        "## Candidates", ""] ++
      candidates.map (fun c => s!"- `{c}`") ++
      ["", "## Fix", "", "Qualify with more of the package:", ""] ++
      candidates.head?.toList.map (fun c => s!"    srgmap get class {version} {c}")
  | atLine line cause =>
    document
      ["# Error: Mapping Parse Failed", "",
        s!"Line {line}: " ++ cause.root.message, "",
        "Nothing was imported."]
  | forbidden reason =>
    document
      ["# Error: Forbidden", "", reason, "", "## Fix", "",
        s!"Ask an admin listed under `admins` in `{settingsFile}`."]
  | mappingNotFound kind name version =>
    let kind := kind.name
    document
      ["# Error: Mapping Not Found", "",
        s!"No {kind} matches `{name}` in {version}.", "",
        "Lookups try the numeric id, then the intermediate name, then the",
        "obfuscated name, then the current final name.", "",
        "## Fix", "",
        "Check the kind and version, or qualify the member with its class:", "",
        s!"    srgmap get {kind} {version} ClassName.{name}"]
  | unauthenticated =>
    document
      ["# Error: No Actor", "", "This command records who made the change.", "",
        "## Fix", "",
        s!"Pass `--as <name>`, or set a default in `{settingsFile}`:", "",
        "    actor = \"your-name\""]
  | unknownVersion version =>
    document
      ["# Error: Unknown Version", "", s!"`{version}` has not been imported.", "",
        "## Fix", "", "List imported versions:", "", "    srgmap versions"]
  | invalidName name =>
    document
      ["# Error: Invalid Name", "",
        s!"`{name}` is not a Java identifier. Final names may only contain letters,",
        "digits, `_` and `$`, and may not start with a digit."]
  | invalidQuery reason => document ["# Error: Invalid Query", "", reason]
  | missingInput path =>
    document
      ["# Error: Missing Input", "", s!"`{path}` does not exist.", "",
        "## Fix", "",
        "Point `srgmap import` at an mcp_config zip or a directory containing",
        "`config/joined.tsrg`."]
  | storeCorrupt reason =>
    document
      ["# Error: Store Corrupt", "", reason, "", "## Fix", "",
        "Restore the store from a backup; history entries are never rewritten."]
  | versionAlreadyImported version =>
    document
      ["# Error: Version Already Imported", "",
        s!"`{version}` already exists. Imports never merge into an existing version."]
  | io detail => document ["# Error: I/O", "", detail]
  | settings detail =>
    document
      ["# Error: Invalid TOML", "", detail, "", "## Fix", "", s!"Check `{settingsFile}`."]
  | other => document ["# Error", "", other.message]

/-- The diagnostic for a terminal: headings are bold. -/
def styled (fault : Fault) : String :=
  document ((Text.lines fault.diagnostic.toList).map (fun line =>
    if line.head? = some '#' then "\x1b[1m" ++ String.ofList line ++ "\x1b[0m"
    else String.ofList line))

end SymbolAtlas.Fault
