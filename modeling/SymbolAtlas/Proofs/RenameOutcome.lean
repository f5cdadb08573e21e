import Mathlib.Tactic.SplitIfs
import SymbolAtlas.Proofs.LedgerCoherence

/-! What a rename comes to. Whether it is refused is told by the locks of the members of its key and
by who asks; whether it changes anything is told by the newest entry of the key, since in a store
made by operations all members of a key point at that entry. A rename leaves the locks alone, so
that one which passed its checks passes them again and then finds its own name. -/
namespace SymbolAtlas.Store

/-- Why a rename is refused, by the locks of the members of its key. -/
def refusal? (admins : Permissions) (actor : String) (request : RenameRequest)
    (locks : List Bool) : Option Fault :=
  let name := request.key.name
  if locks.isEmpty then some request.key.notFound
  else if !Text.isIdentifier request.final.toList then some (.invalidName request.final)
  else if request.force && !admins actor then
    some (.forbidden s!"`{actor}` may not force renames")
  else if locks.any id && !(request.force && admins actor) then
    some (.forbidden s!"`{name}` is locked and can only be changed by an admin with --force")
  else none

def locksOf (s : Store) (key : NameKey) : List Bool :=
  (s.members.filter (fun m => m.key = key)).map MemberRecord.locked

/-- The newest final name in the history of a key. -/
def currentName? (s : Store) (key : NameKey) : Option String :=
  (s.history key).getLast?.map (fun e => e.change.final)

theorem locksOf_enter (s : Store) (now : Instant) (change : NameChange) (key : NameKey) :
    (s.enter now change).locksOf key = s.locksOf key := by
  have kept (m : MemberRecord) (id : Option Nat) :
      (if m.key = change.key then { m with lastChange := id } else m).key = m.key ∧
        (if m.key = change.key then { m with lastChange := id } else m).locked = m.locked := by
    split <;> exact ⟨rfl, rfl⟩
  change ((s.members.map _).filter _).map _ = _
  rw [List.filter_map, List.map_map]
  simp only [Function.comp_def, kept]
  rfl

theorem currentName?_enter (s : Store) (now : Instant) (change : NameChange) :
    (s.enter now change).currentName? change.key = some change.final := by
  change ((s.ledger.append now change).history change.key).getLast?.map _ = _
  rw [Ledger.history_append, if_pos rfl, List.getLast?_concat]
  rfl

/-- Members of a key agree on their name, so the first of them speaks for all. -/
theorem Coherent.judgeRename_eq {s : Store} (coherent : s.Coherent) (sound : s.Sound)
    (admins : Permissions) (actor : String) (request : RenameRequest) :
    s.judgeRename admins actor request =
      match refusal? admins actor request (s.locksOf request.key) with
      | some fault => .error fault
      | none => .ok ⟨s.currentName? request.key ≠ some request.final,
          s.currentName? request.key⟩ := by
  have current : ∀ m ∈ s.members.filter (fun m => m.key = request.key),
      s.finalName? m = s.currentName? request.key := by
    intro m listed
    obtain ⟨member, key⟩ := List.mem_filter.mp listed
    rw [coherent.finalName?_eq sound member, of_decide_eq_true key]
    rfl
  rw [judgeRename, sound.toIndexed.membersNamed_eq, refusal?, locksOf]
  cases group : s.members.filter (fun m => m.key = request.key) with
  | nil => rfl
  | cons first rest =>
    rw [group] at current
    have settled : (first :: rest).all (fun m => s.finalName? m = some request.final) =
        decide (s.currentName? request.key = some request.final) := by
      rw [Bool.eq_iff_iff, List.all_eq_true, decide_eq_true_iff]
      constructor
      · intro all
        rw [← current first List.mem_cons_self]
        exact of_decide_eq_true (all first List.mem_cons_self)
      · exact fun same m member => decide_eq_true ((current m member).trans same)
    have old := current first List.mem_cons_self
    have locked : ((first :: rest).map MemberRecord.locked).any id =
        (first :: rest).any MemberRecord.locked := List.any_map ..
    simp only [List.head?_cons, settled, old, locked, decide_not, List.isEmpty_map,
      List.isEmpty_cons, Bool.false_eq_true, if_false]
    split
    · rfl
    split
    · rfl
    split <;> rfl

theorem Coherent.applyTo_rename {s : Store} (coherent : s.Coherent) (sound : s.Sound)
    (admins : Permissions) (now : Instant) (actor : String) (request : RenameRequest) :
    (rename admins now actor request).applyTo s =
      match refusal? admins actor request (s.locksOf request.key) with
      | some fault => (.error fault, s)
      | none =>
        if s.currentName? request.key = some request.final then
          (.ok ⟨false, s.currentName? request.key⟩, s)
        else
          (.ok ⟨true, s.currentName? request.key⟩,
            s.enter now ⟨request.key, actor, request.final⟩) := by
  rw [Store.applyTo_rename sound.toIndexed, coherent.judgeRename_eq sound]
  cases refusal? admins actor request (s.locksOf request.key) with
  | some fault => rfl
  | none =>
    by_cases same : s.currentName? request.key = some request.final <;> simp [same]

theorem Coherent.known_of_refusal? {s : Store} (coherent : s.Coherent) (sound : s.Sound)
    {admins : Permissions} {actor : String} {request : RenameRequest}
    (passed : refusal? admins actor request (s.locksOf request.key) = none) :
    ∃ m ∈ s.members, m.key = request.key := by
  have judged := coherent.judgeRename_eq sound admins actor request
  rw [passed] at judged
  exact known_of_judgeRename sound.toIndexed judged

/-- The entry of a change is new, so that no member points at it but those of its key. -/
theorem Sound.points_iff_of_enter {s : Store} (sound : s.Sound) (now : Instant)
    (change : NameChange) {m : MemberRecord} (member : m ∈ (s.enter now change).members) :
    m.lastChange = some s.ledger.size ↔ m.key = change.key := by
  obtain ⟨old, hOld, rfl⟩ := mem_enter.mp member
  dsimp only
  split
  case isTrue same => exact iff_of_true rfl same
  case isFalse other =>
    refine iff_of_false (fun points => ?_) other
    exact Nat.lt_irrefl _ (sound.recorded old hOld _ points)

theorem Coherent.rename_again {s t : Store} (coherent : s.Coherent) (sound : s.Sound)
    {admins : Permissions} {now : Instant} {actor : String} {request : RenameRequest}
    {outcome : RenameOutcome}
    (done : (rename admins now actor request).applyTo s = (.ok outcome, t)) (later : Instant) :
    (rename admins later actor request).applyTo t = (.ok ⟨false, some request.final⟩, t) := by
  rw [coherent.applyTo_rename sound] at done
  cases passed : refusal? admins actor request (s.locksOf request.key) with
  | some fault => simp [passed] at done
  | none =>
    rw [passed] at done
    dsimp only at done
    split at done
    case isTrue same =>
      obtain ⟨_, rfl⟩ := Prod.mk.inj done
      rw [coherent.applyTo_rename sound, passed]
      simp [same]
    case isFalse =>
      obtain ⟨_, rfl⟩ := Prod.mk.inj done
      have known := coherent.known_of_refusal? sound passed
      let change : NameChange := ⟨request.key, actor, request.final⟩
      have coherent' := kept_coherent.entered s now change known coherent
      have sound' := kept_sound.entered s now change known sound
      have same := s.currentName?_enter now change
      rw [coherent'.applyTo_rename sound', locksOf_enter, passed]
      simp [same, change]

/-- After any run a rename is refused by the first check that fails, in this order, and leaves the
store. If none fails, it answers with the newest name of the key, and does nothing when it asks for
that name; otherwise it adds one entry and points the members of the key at it, and them alone. Said
again it is always idle. -/
theorem rename_outcome (steps : List Step) (admins : Permissions) (now : Instant) (actor : String)
    (request : RenameRequest) :
    let s := replay Step.run steps .empty
    let key := request.key
    let name := key.name
    let members := s.members.filter (fun m => m.key = key)
    let current := (s.history key).getLast?.map (fun e => e.change.final)
    let renamed : Store := { s with
      ledger := ⟨s.ledger.entries ++
        [⟨s.ledger.entries.length, ⟨key, actor, request.final⟩, now⟩]⟩
      members := s.members.map (fun m =>
        if m.key = key then { m with lastChange := some s.ledger.entries.length } else m) }
    let result := (rename admins now actor request).applyTo s
    (result =
      if members.isEmpty then
        (.error (.mappingNotFound (.member key.kind) name key.version), s)
      else if !Text.isIdentifier request.final.toList then
        (.error (.invalidName request.final), s)
      else if request.force && !admins actor then
        (.error (.forbidden s!"`{actor}` may not force renames"), s)
      else if members.any MemberRecord.locked && !(request.force && admins actor) then
        (.error (.forbidden
          s!"`{name}` is locked and can only be changed by an admin with --force"), s)
      else if current = some request.final then (.ok ⟨false, current⟩, s)
      else (.ok ⟨true, current⟩, renamed)) ∧
    (∀ m ∈ renamed.members, m.lastChange = some s.ledger.entries.length ↔ m.key = key) ∧
    ∀ outcome t, result = (.ok outcome, t) → outcome.old = current ∧
      ∀ later, (rename admins later actor request).applyTo t =
        (.ok ⟨false, some request.final⟩, t) := by
  intro s key name members current renamed result
  have coherent : s.Coherent := coherent_of_replay steps
  have sound : s.Sound := sound_of_replay .empty steps
  have decided := coherent.applyTo_rename sound admins now actor request
  have locked : (s.locksOf key).any id = members.any MemberRecord.locked := List.any_map ..
  have known : (s.locksOf key).isEmpty = members.isEmpty := List.isEmpty_map
  have newest : s.currentName? request.key = current := rfl
  rw [newest] at decided
  have points := fun m => sound.points_iff_of_enter now ⟨key, actor, request.final⟩ (m := m)
  refine ⟨?_, points, ?_⟩
  · rw [refusal?, known, locked] at decided
    refine decided.trans ?_
    split_ifs <;> rfl
  · intro outcome t done
    refine ⟨?_, coherent.rename_again sound done⟩
    replace done := decided.symm.trans done
    split at done
    · cases done
    · split at done <;> cases done <;> rfl

theorem rename_outcome_specimen :
    let s := replay Step.run specimen .empty
    let request : RenameRequest := ⟨⟨"1", .method, "func_2_c"⟩, "close", false⟩
    ∃ t, (rename (fun _ => false) ⟨120, 0⟩ "bob" request).applyTo s =
        (.ok ⟨true, some "open"⟩, t) ∧
      t.ledger.entries.length = 2 ∧
      (rename (fun _ => false) ⟨180, 0⟩ "bob" request).applyTo t =
        (.ok ⟨false, some "close"⟩, t) := by
  intro s request
  have answered : ((rename (fun _ => false) ⟨120, 0⟩ "bob" request).applyTo s).1 =
        .ok ⟨true, some "open"⟩ ∧
      ((rename (fun _ => false) ⟨120, 0⟩ "bob" request).applyTo s).2.ledger.entries.length = 2 := by
    decide +kernel
  cases done : (rename (fun _ => false) ⟨120, 0⟩ "bob" request).applyTo s with
  | mk answer t =>
    rw [done] at answered
    obtain ⟨rfl, grown⟩ := answered
    obtain ⟨_, _, again⟩ := rename_outcome specimen (fun _ => false) ⟨120, 0⟩ "bob" request
    exact ⟨t, rfl, grown, (again _ t done).2 ⟨180, 0⟩⟩

end SymbolAtlas.Store
