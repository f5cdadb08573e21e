import Mathlib.Data.List.Nodup
import SymbolAtlas.Proofs.NameIndex

/-! What naming and locking make of an indexed store, without the loops. Entering a change appends
it to the ledger and points every member of its key at it, in one stroke; the updates differ only in
when they enter a change. In an indexed store none of them can stop half-way. -/
namespace SymbolAtlas.Store

def mapKey (s : Store) (key : NameKey) (f : MemberRecord → MemberRecord) : Store :=
  { s with members := s.members.map (fun m => if m.key = key then f m else m) }

/-- The change becomes the newest entry, and all members of its key point at it. -/
def enter (s : Store) (now : Instant) (change : NameChange) : Store :=
  mapKey { s with ledger := s.ledger.append now change } change.key
    (fun m => { m with lastChange := some s.ledger.size })

def relock (s : Store) (key : NameKey) (locked : Bool) : Store :=
  s.mapKey key (fun m => { m with locked })

/-- Members have the key, and none of them has a name. -/
def awaitsName (s : Store) (key : NameKey) : Bool :=
  !(s.membersNamed key).isEmpty && !(s.membersNamed key).any (fun m => m.lastChange.isSome)

theorem settles_if {f : MemberRecord → MemberRecord} (settles : Settles f) (key : NameKey) :
    Settles (fun m => if m.key = key then f m else m) := by
  intro m
  dsimp only
  split
  · exact settles m
  · exact ⟨rfl, rfl⟩

theorem settles_lastChange (change : Option Nat) :
    Settles (fun m => { m with lastChange := change }) := fun _ => ⟨rfl, rfl⟩

theorem settles_locked (locked : Bool) : Settles (fun m => { m with locked }) :=
  fun _ => ⟨rfl, rfl⟩

theorem mem_enter {s : Store} {now : Instant} {change : NameChange} {m : MemberRecord} :
    m ∈ (s.enter now change).members ↔ ∃ old ∈ s.members, { old with
      lastChange := if old.key = change.key then some s.ledger.size else old.lastChange } = m := by
  have members : (s.enter now change).members = s.members.map (fun m => { m with
      lastChange := if m.key = change.key then some s.ledger.size else m.lastChange }) := by
    refine List.map_congr_left (fun m _ => ?_)
    split <;> rfl
  rw [members, List.mem_map]

theorem mem_entries_enter {s : Store} {now : Instant} {change : NameChange} {e : LedgerEntry} :
    e ∈ (s.enter now change).ledger.entries ↔
      e ∈ s.ledger.entries ∨ e = ⟨s.ledger.size, change, now⟩ := by
  simp [enter, mapKey, Ledger.append, Ledger.size]

theorem size_enter (s : Store) (now : Instant) (change : NameChange) :
    (s.enter now change).ledger.size = s.ledger.size + 1 := by
  simp [enter, mapKey, Ledger.append, Ledger.size]

theorem mem_relock {s : Store} {key : NameKey} {locked : Bool} {m : MemberRecord} :
    m ∈ (s.relock key locked).members ↔ ∃ old ∈ s.members, { old with
      locked := if old.key = key then locked else old.locked } = m := by
  have members : (s.relock key locked).members = s.members.map (fun m => { m with
      locked := if m.key = key then locked else m.locked }) := by
    refine List.map_congr_left (fun m _ => ?_)
    split <;> rfl
  rw [members, List.mem_map]

theorem Indexed.mapKey {s : Store} (indexed : s.Indexed) {f : MemberRecord → MemberRecord}
    (settles : Settles f) (key : NameKey) : (s.mapKey key f).Indexed :=
  indexed.map (settles_if settles key)

theorem Indexed.enter {s : Store} (indexed : s.Indexed) (now : Instant) (change : NameChange) :
    (s.enter now change).Indexed :=
  have appended : Indexed { s with ledger := s.ledger.append now change } := indexed.congr rfl rfl
  appended.mapKey (settles_lastChange _) _

theorem Indexed.relock {s : Store} (indexed : s.Indexed) (key : NameKey) (locked : Bool) :
    (s.relock key locked).Indexed :=
  indexed.mapKey (settles_locked locked) key

/-- A loop that changes listed members one by one changes each position that is listed, once. The
body need only do so under the ledger at hand, which the loop does not change. -/
theorem applyTo_forM_modify {u : MemberRecord → Update PUnit} {f : MemberRecord → MemberRecord}
    {ledger : Ledger} (body : ∀ m t, t.ledger = ledger →
      (u m).applyTo t = (modifyMember m.id f).applyTo t)
    (members : List MemberRecord) (t : Store) (same : t.ledger = ledger)
    (bound : ∀ m ∈ members, m.id < t.members.length) (distinct : (members.map (·.id)).Nodup) :
    (members.forM u).applyTo t = (.ok (), { t with
      members := t.members.mapIdx (fun i m => if i ∈ members.map (·.id) then f m else m) }) := by
  induction members generalizing t with
  | nil =>
    have unchanged : t.members.mapIdx (fun _ m => m) = t.members := by
      apply List.ext_getElem?
      simp
    simp [List.forM, unchanged]
  | cons a members ih =>
    have first : (u a).applyTo t =
        (.ok (), { t with members := t.members.modify a.id f }) := by
      obtain ⟨m, found⟩ : ∃ m, t.member? a.id = some m :=
        ⟨_, List.getElem?_eq_getElem (bound a (by simp))⟩
      rw [body a t same, applyTo_modifyMember, found]
    change (u a >>= fun _ => members.forM u).applyTo t = _
    rw [Update.applyTo_bind_ok first, ih { t with members := t.members.modify a.id f } same]
    · congr 2
      apply List.ext_getElem?
      intro i
      simp only [List.getElem?_mapIdx, List.getElem?_modify, List.map_cons, List.mem_cons,
        Option.map_eq_map, Option.map_map]
      congr 1
      funext m
      rw [List.map_cons, List.nodup_cons] at distinct
      by_cases here : a.id = i
      · subst here
        simp [distinct.1]
      · simp [here, Ne.symm here]
    · intro m member
      simpa using bound m (List.mem_cons_of_mem _ member)
    · exact (List.nodup_cons.mp distinct).2

theorem Indexed.ids_nodup {s : Store} (indexed : s.Indexed) (p : MemberRecord → Bool) :
    ((s.members.filter p).map (·.id)).Nodup := by
  apply List.Nodup.map_on
  · intro a ha b hb same
    exact indexed.placed.injective (List.mem_filter.mp ha).1 (List.mem_filter.mp hb).1 same
  · exact indexed.placed.nodup.filter p

theorem Indexed.mapIdx_filter {s : Store} (indexed : s.Indexed) (p : MemberRecord → Bool)
    (f : MemberRecord → MemberRecord) :
    s.members.mapIdx (fun i m => if i ∈ (s.members.filter p).map (·.id) then f m else m) =
      s.members.map (fun m => if p m then f m else m) := by
  apply List.ext_getElem?
  intro i
  rw [List.getElem?_mapIdx, List.getElem?_map]
  cases atIndex : s.members[i]? with
  | none => rfl
  | some m =>
    have place := indexed.placed i m atIndex
    have member := List.mem_of_getElem? atIndex
    have listed : i ∈ (s.members.filter p).map (·.id) ↔ p m = true := by
      rw [List.mem_map]
      constructor
      · rintro ⟨a, ha, same⟩
        obtain ⟨ha, holds⟩ := List.mem_filter.mp ha
        rwa [indexed.placed.injective ha member (same.trans place.symm)] at holds
      · exact fun holds => ⟨m, List.mem_filter.mpr ⟨member, holds⟩, place⟩
    simp [listed]

theorem Indexed.applyTo_forM_filter {s : Store} (indexed : s.Indexed) {t : Store}
    (members : t.members = s.members) {u : MemberRecord → Update PUnit}
    {f : MemberRecord → MemberRecord}
    (body : ∀ m t', t'.ledger = t.ledger → (u m).applyTo t' = (modifyMember m.id f).applyTo t')
    (p : MemberRecord → Bool) :
    ((s.members.filter p).forM u).applyTo t =
      (.ok (), { t with members := t.members.map (fun m => if p m then f m else m) }) := by
  rw [applyTo_forM_modify body _ t rfl _ (indexed.ids_nodup p), members, indexed.mapIdx_filter]
  intro m member
  rw [members]
  exact indexed.placed.id_lt (List.mem_filter.mp member).1

theorem applyTo_nameAll {s : Store} (indexed : s.Indexed) (now : Instant) (change : NameChange) :
    (nameAll now change (s.membersNamed change.key)).applyTo s = (.ok (), s.enter now change) := by
  have recorded : (record now change).applyTo s =
      (.ok s.ledger.size, { s with ledger := s.ledger.append now change }) := rfl
  have point : ∀ (m : MemberRecord) (t : Store), t.ledger = s.ledger.append now change →
      (setLastChange m.id s.ledger.size).applyTo t =
        (modifyMember m.id (fun m => { m with lastChange := some s.ledger.size })).applyTo t := by
    intro m t same
    rw [applyTo_setLastChange, same, Ledger.get?_append]
    simp [Ledger.size]
  rw [nameAll, Update.applyTo_bind_ok recorded, indexed.membersNamed_eq,
    indexed.applyTo_forM_filter (t := { s with ledger := s.ledger.append now change }) rfl point]
  simp [enter, mapKey]

theorem applyTo_nameIfUnnamed {s : Store} (indexed : s.Indexed) (now : Instant)
    (change : NameChange) :
    (nameIfUnnamed now change).applyTo s =
      (.ok (s.awaitsName change.key),
        if s.awaitsName change.key then s.enter now change else s) := by
  have verdict : s.awaitsName change.key = !((s.membersNamed change.key).isEmpty ||
      (s.membersNamed change.key).any (fun m => m.lastChange.isSome)) := (Bool.not_or ..).symm
  rw [nameIfUnnamed, Update.applyTo_bind_ok (Update.applyTo_look s), verdict]
  dsimp only
  by_cases taken : ((s.membersNamed change.key).isEmpty ||
      (s.membersNamed change.key).any (fun m => m.lastChange.isSome)) = true
  · rw [if_pos taken, taken]
    rfl
  · rw [if_neg taken, Update.applyTo_bind_ok (applyTo_nameAll indexed now change),
      Bool.eq_false_iff.mpr taken]
    rfl

def offer (now : Instant) (p : NamesReport × Store) (change : NameChange) : NamesReport × Store :=
  if p.2.awaitsName change.key then (p.1.count change.key.kind, p.2.enter now change) else p

theorem indexed_offer {p : NamesReport × Store} (indexed : p.2.Indexed) (now : Instant)
    (change : NameChange) : (offer now p change).2.Indexed := by
  unfold offer
  split
  · exact indexed.enter now change
  · exact indexed

theorem indexed_offers {p : NamesReport × Store} (indexed : p.2.Indexed) (now : Instant)
    (changes : List NameChange) : (changes.foldl (offer now) p).2.Indexed := by
  induction changes generalizing p with
  | nil => exact indexed
  | cons change changes ih => exact ih (indexed_offer indexed now change)

theorem applyTo_applyChanges {s : Store} (indexed : s.Indexed) (now : Instant)
    (report : NamesReport) (changes : List NameChange) :
    (applyChanges now report changes).applyTo s =
      (.ok (changes.foldl (offer now) (report, s)).1,
        (changes.foldl (offer now) (report, s)).2) := by
  induction changes generalizing report s with
  | nil => rfl
  | cons change changes ih =>
    rw [applyChanges, List.foldlM_cons, bind_assoc,
      Update.applyTo_bind_ok (applyTo_nameIfUnnamed indexed now change), pure_bind, List.foldl_cons]
    have next := indexed_offer (p := (report, s)) indexed now change
    unfold offer at next ⊢
    split at next
    case isTrue awaits =>
      simp only [awaits, ↓reduceIte]
      exact ih next _
    case isFalse taken =>
      simp only [taken]
      exact ih next _

theorem applyTo_importNames {s : Store} (indexed : s.Indexed) (now : Instant) (version : String)
    (names : NameExport) (actor : String) :
    (importNames now version names actor).applyTo s =
      if (s.version? version).isNone then (.error (.unknownVersion version), s)
      else
        (.ok ((names.changes version actor).foldl (offer now) (.zero, s)).1,
          ((names.changes version actor).foldl (offer now) (.zero, s)).2) := by
  rw [importNames, Update.applyTo_bind_ok (Update.applyTo_look s)]
  split
  · rfl
  · exact applyTo_applyChanges indexed now .zero _

/-- The names of one kind, offered as they are when their turn comes. -/
def carry (now : Instant) (source target : String) (p : NamesReport × Store) (kind : MemberKind) :
    NamesReport × Store :=
  (p.2.carriedChanges source target kind).foldl (offer now) p

theorem applyTo_foldlM_carryNames {s : Store} (indexed : s.Indexed) (now : Instant)
    (source target : String) (report : NamesReport) (kinds : List MemberKind) :
    (kinds.foldlM (carryNames now source target) report).applyTo s =
      (.ok (kinds.foldl (carry now source target) (report, s)).1,
        (kinds.foldl (carry now source target) (report, s)).2) := by
  induction kinds generalizing report s with
  | nil => rfl
  | cons kind kinds ih =>
    have first : (carryNames now source target report kind).applyTo s =
        (.ok (carry now source target (report, s) kind).1,
          (carry now source target (report, s) kind).2) := by
      rw [carryNames, Update.applyTo_bind_ok (Update.applyTo_look s)]
      exact applyTo_applyChanges indexed now report _
    rw [List.foldlM_cons, Update.applyTo_bind_ok first, List.foldl_cons]
    exact ih (indexed_offers indexed now _) _

theorem applyTo_migrate {s : Store} (indexed : s.Indexed) (now : Instant)
    (source target : String) :
    (migrate now source target).applyTo s =
      if (s.version? source).isNone then (.error (.unknownVersion source), s)
      else if (s.version? target).isNone then (.error (.unknownVersion target), s)
      else if source = target then
        (.error (.invalidQuery s!"cannot migrate `{source}` onto itself"), s)
      else
        (.ok (MemberKind.all.foldl (carry now source target) (.zero, s)).1,
          (MemberKind.all.foldl (carry now source target) (.zero, s)).2) := by
  rw [migrate, Update.applyTo_bind_ok (Update.applyTo_look s)]
  split
  · rfl
  split
  · rfl
  split
  · rfl
  · exact applyTo_foldlM_carryNames indexed now source target .zero _

/-- How a rename is decided. The checks come in this order, and the store is only read. -/
def judgeRename (s : Store) (admins : Permissions) (actor : String) (request : RenameRequest) :
    Except Fault RenameOutcome :=
  let members := s.membersNamed request.key
  let name := request.key.name
  match members.head? with
  | none => .error request.key.notFound
  | some first =>
    if !Text.isIdentifier request.final.toList then .error (.invalidName request.final)
    else if request.force && !admins actor then
      .error (.forbidden s!"`{actor}` may not force renames")
    else if members.any MemberRecord.locked && !(request.force && admins actor) then
      .error (.forbidden s!"`{name}` is locked and can only be changed by an admin with --force")
    else .ok ⟨!members.all (fun m => s.finalName? m = some request.final), s.finalName? first⟩

theorem applyTo_rename {s : Store} (indexed : s.Indexed) (admins : Permissions) (now : Instant)
    (actor : String) (request : RenameRequest) :
    (rename admins now actor request).applyTo s =
      match s.judgeRename admins actor request with
      | .error fault => (.error fault, s)
      | .ok outcome =>
        (.ok outcome,
          if outcome.changed then s.enter now ⟨request.key, actor, request.final⟩ else s) := by
  rw [rename, Update.applyTo_bind_ok (Update.applyTo_look s), judgeRename]
  dsimp only
  cases (s.membersNamed request.key).head? with
  | none => rfl
  | some first =>
    dsimp only
    split
    · rfl
    split
    · rfl
    split
    · rfl
    by_cases unchanged : ((s.membersNamed request.key).all
        (fun m => s.finalName? m = some request.final)) = true
    · rw [if_pos unchanged, unchanged]
      rfl
    · have entered := applyTo_nameAll indexed now ⟨request.key, actor, request.final⟩
      rw [if_neg unchanged, Update.applyTo_bind_ok entered, Bool.eq_false_iff.mpr unchanged]
      rfl

theorem known_of_judgeRename {s : Store} (indexed : s.Indexed) {admins : Permissions}
    {actor : String} {request : RenameRequest} {outcome : RenameOutcome}
    (allowed : s.judgeRename admins actor request = .ok outcome) :
    ∃ m ∈ s.members, m.key = request.key := by
  cases found : s.membersNamed request.key with
  | nil => simp [judgeRename, found] at allowed
  | cons m members =>
    exact ⟨m, indexed.mem_membersNamed.mp (by rw [found]; exact List.mem_cons_self)⟩

theorem applyTo_setLocks {s : Store} (indexed : s.Indexed) (admins : Permissions) (actor : String)
    (key : NameKey) (locked : Bool) :
    (setLocks admins actor key locked).applyTo s =
      if !admins actor then (.error (.forbidden s!"`{actor}` may not change locks"), s)
      else if (s.membersNamed key).isEmpty then (.error key.notFound, s)
      else
        (.ok (!((s.membersNamed key).filter (fun m => m.locked != locked)).isEmpty),
          s.relock key locked) := by
  rw [setLocks, Update.applyTo_bind_ok (Update.applyTo_look s)]
  dsimp only
  split
  · rfl
  split
  · rfl
  have changing : (s.membersNamed key).filter (fun m => m.locked != locked) =
      s.members.filter (fun m => m.locked != locked && decide (m.key = key)) := by
    rw [indexed.membersNamed_eq, List.filter_filter]
  have looped := indexed.applyTo_forM_filter rfl
    (u := fun m => setLocked m.id locked) (f := fun m => { m with locked })
    (fun _ _ _ => rfl) (fun m => m.locked != locked && decide (m.key = key))
  rw [← changing] at looped
  rw [Update.applyTo_bind_ok looped]
  have same : ∀ m : MemberRecord,
      (if (m.locked != locked && decide (m.key = key)) = true then { m with locked } else m) =
        if m.key = key then { m with locked } else m := by
    rintro ⟨id, k, obfuscated, owner, change, flag, rest⟩
    by_cases h : k = key <;> by_cases f : flag = locked <;> simp [h, f]
  simp only [same]
  rfl

end SymbolAtlas.Store
