import SymbolAtlas.Bundle.Basic
import SymbolAtlas.Command.Basic
import SymbolAtlas.Naming.Rename
import SymbolAtlas.Settings.Basic
import SymbolAtlas.Store.Import

/-! What a change makes of a store. Who acts is asked before anything is looked up, and sources are
read after the version they are for has been found. -/
namespace SymbolAtlas

structure Effect where
  /-- The store to commit. There is none if the change found everything as it should be. -/
  store : Option Store
  remark : String

def Update.job {α : Type} (u : Update α) (s : Store) : Job (α × Store) :=
  match u.applyTo s with
  | (.ok a, s) => pure (a, s)
  | (.error fault, _) => throw fault

namespace ImportReport

def line (version : String) (r : ImportReport) : String :=
  String.join ["Imported ", version, ": ", r.classes.repr, " classes, ", r.fields.repr, " fields, ",
    r.methods.repr, " methods, ", r.parameters.repr, " parameters"]

end ImportReport

namespace NamesReport

def line (version : String) (r : NamesReport) : String :=
  String.join ["Named ", r.fields.repr, " fields, ", r.methods.repr, " methods, ", r.params.repr,
    " parameters in ", version]

end NamesReport

namespace Change

def importBundleEffect (now : Instant) (version source : String) (s : Store) : Job Effect := do
  let bundle ← MappingBundle.load source
  let graph ← Job.ofExcept bundle.graph
  let (report, s) ← (Store.importGraph now version graph bundle.digest).job s
  return ⟨some s, report.line version⟩

def importNamesEffect (settings : Settings) (now : Instant) (version source : String)
    (actor : Option String) (s : Store) : Job Effect := do
  let actor ← Job.ofExcept (settings.actorFor actor)
  let version ← Job.ofExcept (s.resolveVersion version)
  let names ← NameExport.load source
  let (report, s) ← (Store.importNames now version names actor).job s
  return ⟨some s, report.line version⟩

def setLockEffect (settings : Settings) (t : Target) (locked : Bool) (actor : Option String)
    (s : Store) : Job Effect := do
  let actor ← Job.ofExcept (settings.actorFor actor)
  let key ← Job.ofExcept (t.key s)
  let (changed, s) ← (Store.setLocks settings.isAdmin actor key locked).job s
  let state := if locked then "locked" else "unlocked"
  if changed then return ⟨some s, t.name ++ " " ++ state⟩
  else return ⟨none, t.name ++ " is already " ++ state⟩

def migrateEffect (now : Instant) (source target : String) (s : Store) : Job Effect := do
  let source ← Job.ofExcept (s.resolveVersion source)
  let target ← Job.ofExcept (s.resolveVersion target)
  let (report, s) ← (Store.migrate now source target).job s
  return ⟨some s,
    String.join ["Migrated ", report.total.repr, " names from ", source, " to ", target]⟩

def promoteEffect (version : String) (s : Store) : Job Effect := do
  let ((), s) ← (Store.promote version).job s
  return ⟨some s, version ++ " is now " ++ Store.latestWord⟩

def renameEffect (settings : Settings) (now : Instant) (t : Target) (final : String) (force : Bool)
    (actor : Option String) (s : Store) : Job Effect := do
  let actor ← Job.ofExcept (settings.actorFor actor)
  let key ← Job.ofExcept (t.key s)
  let (outcome, s) ← (Store.rename settings.isAdmin now actor ⟨key, final, force⟩).job s
  if outcome.changed then
    return ⟨some s, String.join [t.name, ": ", outcome.old.getD "-", " -> ", final]⟩
  else return ⟨none, t.name ++ " is already named " ++ final⟩

def effect (settings : Settings) (now : Instant) : Change → Store → Job Effect
  | importBundle version source => importBundleEffect now version source
  | importNames version source actor => importNamesEffect settings now version source actor
  | setLock t locked actor => setLockEffect settings t locked actor
  | migrate source target => migrateEffect now source target
  | promote version => promoteEffect version
  | rename t final force actor => renameEffect settings now t final force actor

end Change

end SymbolAtlas
