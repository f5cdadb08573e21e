import SymbolAtlas.Table
import SymbolAtlas.Text.Line

/-! A tree of files with a working directory and the lock files that are held in it. Every operation
names a file by its path, a text that is kept as it was given; two paths that lead to one place mean
one file. -/
namespace SymbolAtlas

namespace Path

def isAbsolute (path : String) : Bool := path.toList.head? == some '/'

/-- A path seen from a directory. An absolute path stays; a directory without a slash at its end
gets one, the empty directory does not. -/
def join (directory path : String) : String :=
  if isAbsolute path || directory.isEmpty then path
  else if directory.toList.getLast? = some '/' then directory ++ path
  else directory ++ "/" ++ path

/-- All before the last slash; of a single name, nothing. -/
def parent (path : String) : String :=
  match Text.cutLast? '/' path.toList with
  | some (before, _) => String.ofList before
  | none => ""

/-- The names between the slashes. -/
def names (path : String) : List String := (path.toList.splitOn '/').map String.ofList

end Path

/-- Names from the top of the tree down. -/
abbrev Location := List String

inductive Entry where
  | file (content : ByteArray)
  | directory

def Entry.isDirectory : Entry → Bool
  | .directory => true
  | .file _ => false

inductive DiskFault where
  /-- The file, or a directory on the way to it, does not exist. -/
  | missing
  | refused (detail : String)
  deriving DecidableEq, Repr

structure Disk where
  entries : Table Location Entry
  /-- The working directory. -/
  here : Location
  /-- Lock files that somebody holds. -/
  held : List Location

namespace Disk

def empty : Disk := ⟨⟨[(["work"], .directory)]⟩, ["work"], []⟩

/-- What stands at a place. The top of the tree is a directory. -/
def entryAt? (d : Disk) (place : Location) : Option Entry :=
  if place = [] then some .directory else d.entries.get? place

/-- One name further. The top of the tree is its own parent. -/
def further (place : Location) (name : String) : Location :=
  if name = "" || name = "." then place
  else if name = ".." then place.dropLast
  else place ++ [name]

/-- A name has room for 255 bytes. -/
def isTooLong (name : String) : Bool := 255 < name.utf8ByteSize

/-- A path has room for 4095 bytes, and a NUL cannot be in one. -/
def isPath (path : String) : Bool :=
  path.utf8ByteSize ≤ 4095 && !path.toList.contains '\x00'

/-- The place that names lead to. Each is looked up in a directory that exists, so the last name
alone may be new; a slash at the end is an empty last name. -/
def walk (d : Disk) (place : Location) : List String → Except DiskFault Location
  | [] => .ok place
  | name :: rest =>
    match d.entryAt? place with
    | some .directory =>
      if isTooLong name then .error (.refused "name too long")
      else d.walk (further place name) rest
    | some (.file _) => .error (.refused "not a directory")
    | none => .error .missing

def origin (d : Disk) (path : String) : Location := if Path.isAbsolute path then [] else d.here

/-- The empty path leads nowhere. -/
def locate (d : Disk) (path : String) : Except DiskFault Location :=
  if path.isEmpty then .error .missing
  else if !isPath path then .error (.refused "not a path")
  else d.walk (d.origin path) (Path.names path)

def exists? (d : Disk) (path : String) : Bool :=
  match d.locate path with
  | .ok place => (d.entryAt? place).isSome
  | .error _ => false

def isDirectory (d : Disk) (path : String) : Bool :=
  match d.locate path with
  | .ok place => (d.entryAt? place).any Entry.isDirectory
  | .error _ => false

def read (d : Disk) (path : String) : Except DiskFault ByteArray := do
  match d.entryAt? (← d.locate path) with
  | some (.file content) => .ok content
  | some .directory => .error (.refused "is a directory")
  | none => .error .missing

def write (d : Disk) (path : String) (content : ByteArray) : Except DiskFault Disk := do
  let place ← d.locate path
  match d.entryAt? place with
  | some .directory => .error (.refused "is a directory")
  | _ => .ok { d with entries := d.entries.insert place (.file content) }

/-- Moves a file. A file that has the new path already is replaced in the same moment. -/
def rename (d : Disk) (source target : String) : Except DiskFault Disk := do
  let origin ← d.locate source
  let place ← d.locate target
  match d.entryAt? origin, d.entryAt? place with
  | some (.file content), some (.file _) | some (.file content), none =>
    .ok { d with entries := (d.entries.erase origin).insert place (.file content) }
  | some (.file _), some .directory => .error (.refused "is a directory")
  | some .directory, _ => .error (.refused "is a directory")
  | none, _ => .error .missing

/-- Makes the directories that are missing on the way. Those made before a file was met stay. -/
def makeFrom (d : Disk) (place : Location) : List String → Except DiskFault Unit × Disk
  | [] => (.ok (), d)
  | name :: rest =>
    let next := further place name
    match d.entryAt? next with
    | some .directory => d.makeFrom next rest
    | some (.file _) => (.error (.refused "not a directory"), d)
    | none =>
      if isTooLong name then (.error (.refused "name too long"), d)
      else { d with entries := d.entries.insert next .directory }.makeFrom next rest

def makeDirectories (d : Disk) (path : String) : Except DiskFault Unit × Disk :=
  if !isPath path then (.error (.refused "not a path"), d)
  else d.makeFrom (d.origin path) (Path.names path)

/-- Opens a lock file, which is made together with its directories if it does not exist. -/
def openLock (d : Disk) (path : String) : Except DiskFault Location × Disk :=
  match d.makeDirectories (Path.parent path) with
  | (.error fault, d) => (.error fault, d)
  | (.ok (), d) =>
    match d.locate path with
    | .error fault => (.error fault, d)
    | .ok place =>
      match d.entryAt? place with
      | some .directory => (.error (.refused "is a directory"), d)
      | some (.file _) => (.ok place, d)
      | none => (.ok place, { d with entries := d.entries.insert place (.file .empty) })

/-- Takes a lock unless it is held already; with whether it was taken. -/
def tryLock (d : Disk) (path : String) : Except DiskFault Bool × Disk :=
  match d.openLock path with
  | (.error fault, d) => (.error fault, d)
  | (.ok place, d) =>
    if place ∈ d.held then (.ok false, d) else (.ok true, { d with held := place :: d.held })

def unlock (d : Disk) (path : String) : Disk :=
  match d.locate path with
  | .ok place => { d with held := d.held.filter (· ≠ place) }
  | .error _ => d

end Disk

end SymbolAtlas
