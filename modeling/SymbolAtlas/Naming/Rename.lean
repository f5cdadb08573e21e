import SymbolAtlas.Store.Update
import SymbolAtlas.Text.Alphabet

/-! Renaming and locking. Both reach every member of a key, and a lock on one of them guards all. A
rename to the present name changes nothing, so that repeating it leaves no trace. -/
namespace SymbolAtlas

/-- Who may force renames and change locks, by name. -/
abbrev Permissions := String → Bool

structure RenameRequest where
  key : NameKey
  final : String
  force : Bool
  deriving DecidableEq, Repr

structure RenameOutcome where
  changed : Bool
  /-- The final name before the request. -/
  old : Option String
  deriving DecidableEq, Repr

def NameKey.notFound (key : NameKey) : Fault :=
  .mappingNotFound (.member key.kind) key.name key.version

namespace Store

/-- All checks come before the first change. -/
def rename (admins : Permissions) (now : Instant) (actor : String) (request : RenameRequest) :
    Update RenameOutcome := do
  let s ← .look
  let members := s.membersNamed request.key
  match members.head? with
  | none => .fail request.key.notFound
  | some first =>
    let old := s.finalName? first
    let forced := request.force && admins actor
    let name := request.key.name
    if !Text.isIdentifier request.final.toList then .fail (.invalidName request.final)
    else if request.force && !admins actor then
      .fail (.forbidden s!"`{actor}` may not force renames")
    else if members.any MemberRecord.locked && !forced then
      .fail (.forbidden s!"`{name}` is locked and can only be changed by an admin with --force")
    else if members.all (fun m => s.finalName? m = some request.final) then
      return ⟨false, old⟩
    else
      nameAll now ⟨request.key, actor, request.final⟩ members
      return ⟨true, old⟩

def setLocks (admins : Permissions) (actor : String) (key : NameKey) (locked : Bool) :
    Update Bool := do
  let s ← .look
  if !admins actor then .fail (.forbidden s!"`{actor}` may not change locks")
  else
    let members := s.membersNamed key
    if members.isEmpty then .fail key.notFound
    else
      let changing := members.filter (fun m => m.locked != locked)
      changing.forM (fun m => setLocked m.id locked)
      return !changing.isEmpty

end Store

end SymbolAtlas
