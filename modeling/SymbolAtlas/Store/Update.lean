import SymbolAtlas.Store.Query

/-! Changing a store. An update answers or fails, and either way leaves a store; that a failing
update leaves the store it found is not built in, since an update may fail half-way. -/
namespace SymbolAtlas

def Update (α : Type) : Type := Store → Except Fault α × Store

namespace Update

variable {α β : Type}

def applyTo (u : Update α) (s : Store) : Except Fault α × Store := u s

def succeed (a : α) : Update α := fun s => (.ok a, s)

def fail (fault : Fault) : Update α := fun s => (.error fault, s)

/-- The second update works on the store that the first leaves; it is not reached by a failure. -/
def andThen (u : Update α) (next : α → Update β) : Update β := fun s =>
  match u.applyTo s with
  | (.ok a, s) => (next a).applyTo s
  | (.error fault, s) => (.error fault, s)

instance : Monad Update where
  pure := succeed
  bind := andThen

theorem andThen_succeed (u : Update α) : u.andThen succeed = u := by
  funext s
  simp only [andThen, applyTo]
  rcases u s with ⟨_ | _, _⟩ <;> rfl

theorem andThen_assoc {γ : Type} (u : Update α) (f : α → Update β) (g : β → Update γ) :
    (u.andThen f).andThen g = u.andThen (fun a => (f a).andThen g) := by
  funext s
  simp only [andThen, applyTo]
  rcases u s with ⟨_ | _, _⟩ <;> rfl

instance : LawfulMonad Update :=
  LawfulMonad.mk' Update andThen_succeed (fun _ _ => rfl) andThen_assoc

def look : Update Store := fun s => (.ok s, s)

def put (s : Store) : Update Unit := fun _ => (.ok (), s)

def ask (f : Store → Except Fault α) : Update α := fun s => (f s, s)

@[simp] theorem applyTo_pure (a : α) (s : Store) : (pure a : Update α).applyTo s = (.ok a, s) := rfl

@[simp] theorem applyTo_fail (fault : Fault) (s : Store) :
    (fail fault : Update α).applyTo s = (.error fault, s) := rfl

@[simp] theorem applyTo_look (s : Store) : look.applyTo s = (.ok s, s) := rfl

@[simp] theorem applyTo_put (new s : Store) : (put new).applyTo s = (.ok (), new) := rfl

@[simp] theorem applyTo_ask (f : Store → Except Fault α) (s : Store) :
    (ask f).applyTo s = (f s, s) := rfl

theorem applyTo_bind (u : Update α) (next : α → Update β) (s : Store) :
    (u >>= next).applyTo s =
      match u.applyTo s with
      | (.ok a, s) => (next a).applyTo s
      | (.error fault, s) => (.error fault, s) := rfl

end Update

namespace Store

/-- The first version becomes the latest. -/
def addVersion (now : Instant) (version digest : String) : Update Unit := do
  let s ← .look
  if version = latestWord then
    .fail (.invalidQuery s!"`{latestWord}` is reserved and cannot name a version")
  else if (s.version? version).isSome then .fail (.versionAlreadyImported version)
  else
    .put { s with versions := s.versions ++ [⟨digest, now, s.latest?.isNone, version⟩] }

def promote (version : String) : Update Unit := do
  let s ← .look
  match s.versions.findIdx? (fun v => v.version = version) with
  | none => .fail (.unknownVersion version)
  | some target =>
    if (s.versions[target]?).any VersionRecord.latest then
      .fail (.invalidQuery s!"version `{version}` is already promoted")
    else
      .put { s with versions := s.versions.mapIdx (fun i v => { v with latest := i == target }) }

def addClass (version obfuscated intermediate : String) : Update Nat := do
  let (s, id) := (← .look).insertClass version obfuscated intermediate
  .put s
  return id

def addMember (m : MemberRecord) : Update Nat := do
  let (s, id) := (← .look).insertMember m
  .put s
  return id

/-- Appends to the ledger and gives the entry's id. -/
def record (now : Instant) (change : NameChange) : Update Nat := do
  let s ← .look
  .put { s with ledger := s.ledger.append now change }
  return s.ledger.entries.length

def noMember (id : Nat) : Fault := .storeCorrupt ("record " ++ id.repr ++ " does not exist")

def noEntry (id : Nat) : Fault := .storeCorrupt ("history entry " ++ id.repr ++ " does not exist")

def modifyMember (id : Nat) (f : MemberRecord → MemberRecord) : Update Unit := do
  let s ← .look
  match s.member? id with
  | none => .fail (noMember id)
  | some _ => .put { s with members := s.members.modify id f }

/-- Points a member at a ledger entry; both must exist. -/
def setLastChange (member change : Nat) : Update Unit := do
  let s ← .look
  if (s.ledger.get? change).isNone then .fail (noEntry change)
  else modifyMember member (fun m => { m with lastChange := some change })

def setLocked (member : Nat) (locked : Bool) : Update Unit :=
  modifyMember member (fun m => { m with locked })

/-- Records a change of a name and points every given member at it. -/
def nameAll (now : Instant) (change : NameChange) (members : List MemberRecord) : Update Unit := do
  let entry ← record now change
  members.forM (fun m => setLastChange m.id entry)

theorem applyTo_modifyMember (id : Nat) (f : MemberRecord → MemberRecord) (s : Store) :
    (modifyMember id f).applyTo s =
      match s.member? id with
      | none => (.error (noMember id), s)
      | some _ => (.ok (), { s with members := s.members.modify id f }) := by
  unfold modifyMember
  rw [Update.applyTo_bind]
  cases h : s.member? id <;> simp [h]

theorem applyTo_setLastChange (member change : Nat) (s : Store) :
    (setLastChange member change).applyTo s =
      if (s.ledger.get? change).isNone then (.error (noEntry change), s)
      else (modifyMember member (fun m => { m with lastChange := some change })).applyTo s := by
  unfold setLastChange
  rw [Update.applyTo_bind]
  cases h : s.ledger.get? change <;> simp [h]

end Store

end SymbolAtlas
