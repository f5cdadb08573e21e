import SymbolAtlas.Archive.Basic
import SymbolAtlas.Digest
import SymbolAtlas.Disk.Script
import SymbolAtlas.Graph.Extras
import SymbolAtlas.Naming.Apply

/-! The files of a release: the bundle of mappings that a version is imported from, and the export
of names that people gave. They come from a directory, or from an archive with the same files in it.
Of a bundle only the mappings themselves must be there; a list of names that an export lacks is
empty. -/
namespace SymbolAtlas

inductive Source where
  | directory (root : String)
  | archive (files : Archive)

namespace Source

/-- Whatever is not a directory must be an archive. -/
def openAt (path : String) : Job Source := do
  if ← Job.request (.isDirectory path) then return .directory path
  else
    match ← Job.readBytes? path with
    | none => throw (.missingInput path)
    | some content =>
      match Archive.open? content with
      | some files => return .archive files
      | none => throw (.archive "no archive")

def readText? (source : Source) (name : String) : Job (Option String) :=
  match source with
  | .directory root => Job.readText? (Path.join root name)
  | .archive files => do
    match ← Job.ofExcept (files.read name) with
    | some content => return some (← Job.decode content)
    | none => return none

def readFirst? (source : Source) : (names : List String) → Job (Option String)
  | [] => return none
  | name :: names => do
    match ← source.readText? name with
    | some text => return some text
    | none => source.readFirst? names

end Source

structure MappingBundle where
  joined : String
  statics : String
  constructors : String
  deriving DecidableEq, Repr

namespace MappingBundle

/-- A file has its place under `config`, or else at the top. -/
def places (name : String) : List String := ["config/" ++ name, name]

def joinedName : String := "joined.tsrg"

def load (path : String) : Job MappingBundle := do
  let source ← Source.openAt path
  match ← source.readFirst? (places joinedName) with
  | none => throw (.missingInput ("config/" ++ joinedName))
  | some joined =>
    let constructors ← source.readFirst? (places "constructors.txt")
    let statics ← source.readFirst? (places "static_methods.txt")
    return ⟨joined, statics.getD "", constructors.getD ""⟩

def digest (b : MappingBundle) : String := Digest.ofText b.joined

def graph (b : MappingBundle) : Except Fault Graph :=
  Graph.assemble b.joined b.statics b.constructors

end MappingBundle

namespace NameExport

def loadRows (source : Source) (name : String) : Job (List NameRow) := do
  match ← source.readText? name with
  | some text => Job.ofExcept (NameRow.readAll text)
  | none => return []

/-- The lists are read one after another; the first fault ends the reading. -/
def load (path : String) : Job NameExport := do
  let source ← Source.openAt path
  let fields ← loadRows source "fields.csv"
  let methods ← loadRows source "methods.csv"
  let params ← loadRows source "params.csv"
  return ⟨fields, methods, params⟩

end NameExport

end SymbolAtlas
