import Std.Time.DateTime.Timestamp
import SymbolAtlas.Command.Arguments
import SymbolAtlas.Command.Run
import SymbolAtlas.Fault.Diagnostic

/-! The program: reads the command line, plays the command on the real disk, and prints what it
reports. Nothing is decided here. -/
namespace SymbolAtlas.Main

/-- The lock files that this process holds open. -/
abbrev Locks := List (String × IO.FS.Handle)

/-- What the disk says, with a missing file told apart from every other refusal. -/
def attempt {α : Type} (action : IO α) : IO (Except DiskFault α) := do
  match ← action.toBaseIO with
  | .ok a => return .ok a
  | .error (.noFileOrDirectory ..) => return .error .missing
  | .error e => return .error (.refused (toString e))

def isDirectory (path : String) : IO Bool := do
  match ← attempt (IO.FS.realPath path) with
  | .ok path => path.isDir
  | .error _ => return false

/-- A lock file is opened without losing what is in it, and made if it does not exist. -/
def openLock (path : String) : IO IO.FS.Handle := do
  let parent := Path.parent path
  if !parent.isEmpty then IO.FS.createDirAll parent
  let handle ← IO.FS.Handle.mk path .append
  handle.lock
  return handle

def answer : (request : Request) → StateT Locks IO request.Answer
  | .read path => attempt (IO.FS.readBinFile path)
  | .isDirectory path => isDirectory path
  | .write path content => attempt (IO.FS.writeBinFile path content)
  | .rename source target => attempt (IO.FS.rename source target)
  | .lock path => do
    match ← attempt (openLock path) with
    | .ok handle =>
      modify ((path, handle) :: ·)
      return .ok ()
    | .error fault => return .error fault
  | .unlock path => do
    match (← get).lookup path with
    | some handle => handle.unlock
    | none => pure ()
    modify (List.filter (fun l => l.1 != path))

def play {α : Type} : Script α → StateT Locks IO α
  | .done result => pure result
  | .ask request next => do play (next (← answer request))

def now : IO Instant := do
  let t := (← Std.Time.Timestamp.now).val
  return ⟨t.second.val, t.nano.val.toNat⟩

def usage : String :=
  "usage: srgmap dump|get|history|import|import-names|lock|migrate|promote|rename|summary|versions\n"

/-- Exit status 2 is for a command line that asks for nothing known. -/
def run (line : List String) : IO UInt32 := do
  match Command.ofLine? line with
  | none =>
    IO.eprint usage
    return 2
  | some command =>
    let (result, _) ← (play (command.run (← now)).run).run []
    match result with
    | .ok report =>
      IO.print report.output
      IO.eprint report.remarks
      return 0
    | .error fault =>
      IO.eprint fault.styled
      return 1

end SymbolAtlas.Main

def main (line : List String) : IO UInt32 := SymbolAtlas.Main.run line
