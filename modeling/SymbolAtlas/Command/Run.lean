import SymbolAtlas.Command.Answer
import SymbolAtlas.Command.Effect

/-! Commands as jobs on a working directory, with its settings and a store that is read whole and
replaced whole. A question reads the store; a change holds the store's lock while it reads, changes
and commits, and a change without effect commits nothing. -/
namespace SymbolAtlas

namespace Workspace

/-- Relative paths are seen from here. -/
def root : String := "."

/-- Without a settings file the defaults hold. -/
def loadSettings : Job Settings := do
  match ← Job.readText? (Path.join root settingsFile) with
  | some text => Job.ofExcept (Settings.parse root text)
  | none => return .defaults root

def openStore (database : String) : Job Store := do
  match ← Job.readText? database with
  | some text => Job.ofExcept (Store.parse text)
  | none => return .empty

/-- The lock file stands beside the store and stays there. -/
def lockPath (database : String) : String := database ++ ".lock"

def stagingPath (database : String) : String := database ++ ".tmp"

/-- The new content is written aside and moved, so that nobody sees half of it. -/
def commit (database : String) (s : Store) : Job Unit := do
  Job.write (stagingPath database) s.document.toUTF8
  Job.rename (stagingPath database) database

end Workspace

namespace Question

def run (question : Question) (json : Bool) : Job Report := do
  let settings ← Workspace.loadSettings
  let s ← Workspace.openStore settings.database
  Job.ofExcept (question.answer s json)

end Question

namespace Change

def runLocked (change : Change) (settings : Settings) (now : Instant) : Job Report := do
  let s ← Workspace.openStore settings.database
  let effect ← change.effect settings now s
  match effect.store with
  | some s => Workspace.commit settings.database s
  | none => pure ()
  return .remark effect.remark

def run (change : Change) (now : Instant) : Job Report := do
  let settings ← Workspace.loadSettings
  Job.holding (Workspace.lockPath settings.database) (change.runLocked settings now)

end Change

def Command.run (now : Instant) : Command → Job Report
  | ask question json => question.run json
  | change c => c.run now

end SymbolAtlas
