import SymbolAtlas.Proofs.AppendOnly
import SymbolAtlas.Proofs.DocumentRoundTrip
import SymbolAtlas.Proofs.LockProtection

/-! Who changes locks. A lock that has changed was changed by an admin, for all members of its key at
once and with no other effect; asking again changes nothing and says so. As long as one member of a
key is locked, no rename of the key goes through but by an admin's force, whatever the locks of its
other members are. -/
namespace SymbolAtlas

/-- An admin sets the locks of a key, and some of them change. -/
def Step.Relocks (step : Step) (s : Store) (key : NameKey) (locked : Bool) : Prop :=
  ∃ admins actor, step = .operation (.setLocks admins actor key locked) ∧ admins actor = true ∧
    (Operation.setLocks admins actor key locked).answer s = .ok (.relocked true)

theorem getElem?_of_map_prefix {f : α → β} {xs ys : List α} (extended : xs.map f <+: ys.map f)
    {i : Nat} {x : α} (here : xs[i]? = some x) : ∃ y, ys[i]? = some y ∧ f y = f x := by
  obtain ⟨rest, split⟩ := extended
  have inside : i < (xs.map f).length := by
    rw [List.length_map]
    exact (List.getElem?_eq_some_iff.mp here).1
  have kept : (ys.map f)[i]? = some (f x) := by
    rw [← split, List.getElem?_append_left inside, List.getElem?_map, here, Option.map_some]
  exact Option.map_eq_some_iff.mp (List.getElem?_map ▸ kept)

namespace Store

variable {s : Store}

theorem members_reload (s : Store) : s.reload.members = s.members := by
  unfold Store.reload
  split
  case h_1 read => exact (parse_document_iff.mp read).1.members.2.symm
  case h_2 => rfl

/-- A member of the key whose lock is not as it should be. -/
def Mislocked (s : Store) (key : NameKey) (locked : Bool) : Prop :=
  ∃ m ∈ s.members, m.key = key ∧ m.locked ≠ locked

theorem Indexed.answer_setLocks_eq_ok_iff (indexed : s.Indexed) {admins : Permissions}
    {actor : String} {key : NameKey} {locked changed : Bool} :
    (Operation.setLocks admins actor key locked).answer s = .ok (.relocked changed) ↔
      admins actor = true ∧ (∃ m ∈ s.members, m.key = key) ∧
        (changed = true ↔ s.Mislocked key locked) := by
  have known_iff : (s.membersNamed key).isEmpty = false ↔ ∃ m ∈ s.members, m.key = key := by
    simp only [List.isEmpty_eq_false_iff_exists_mem, indexed.mem_membersNamed]
  have changed_iff : (!((s.membersNamed key).filter (fun m => m.locked != locked)).isEmpty) = true ↔
      s.Mislocked key locked := by
    simp only [Bool.not_eq_true', List.isEmpty_eq_false_iff_exists_mem, List.mem_filter,
      indexed.mem_membersNamed, bne_iff_ne, Mislocked, and_assoc]
  rw [Operation.answer, Operation.update, Update.applyTo_map, applyTo_setLocks indexed]
  cases permitted : admins actor with
  | false => simp [Except.map]
  | true =>
    cases unknown : (s.membersNamed key).isEmpty with
    | true => simp [Except.map, ← known_iff, unknown]
    | false =>
      simp only [Bool.not_true, Bool.false_eq_true, ↓reduceIte, Except.map, Except.ok.injEq,
        Answer.relocked.injEq, true_and, ← known_iff, unknown, ← changed_iff]
      exact ⟨fun same => same ▸ Iff.rfl, fun same => (Bool.eq_iff_iff.mpr same).symm⟩

theorem Indexed.run_setLocks (indexed : s.Indexed) {admins : Permissions} {actor : String}
    {key : NameKey} {locked : Bool} (permitted : admins actor = true)
    (known : ∃ m ∈ s.members, m.key = key) :
    (Operation.setLocks admins actor key locked).run s = s.relock key locked := by
  have listed : (s.membersNamed key).isEmpty = false := by
    simpa only [List.isEmpty_eq_false_iff_exists_mem, indexed.mem_membersNamed] using known
  rw [Operation.run, Operation.update, Update.applyTo_map, applyTo_setLocks indexed, permitted,
    listed]
  rfl

theorem not_mislocked_relock (s : Store) (key : NameKey) (locked : Bool) :
    ¬ (s.relock key locked).Mislocked key locked := by
  rintro ⟨m, member, key', unset⟩
  obtain ⟨old, _, rfl⟩ := mem_relock.mp member
  exact unset (if_pos key')

theorem relock_of_not_mislocked {key : NameKey} {locked : Bool}
    (settled : ¬ s.Mislocked key locked) : s.relock key locked = s := by
  have same : s.members.map (fun m => if m.key = key then { m with locked } else m) =
      s.members := by
    refine (List.map_congr_left (fun m member => ?_)).trans (List.map_id _)
    split
    case isTrue key' =>
      have flag : m.locked = locked := by
        by_contra unset
        exact settled ⟨m, member, key', unset⟩
      subst flag
      rfl
    case isFalse => rfl
  rw [relock, mapKey, same]

end Store

namespace Operation

open Store

/-- Members stay where they are, with their keys, and only locking touches a lock. -/
theorem member?_run {s : Store} (sound : s.Sound) (op : Operation) {id : Nat} {m : MemberRecord}
    (found : s.member? id = some m) :
    ∃ n, (op.run s).member? id = some n ∧ n.key = m.key ∧
      (op.locks = false → n.locked = m.locked) := by
  obtain ⟨n, found', fixed⟩ := getElem?_of_map_prefix (op.continues_run sound).members found
  refine ⟨n, found', congrArg (fun m => m.key) fixed, fun notLocks => ?_⟩
  obtain ⟨n', again, same⟩ :=
    getElem?_of_map_prefix ((op.confined_run sound).locked notLocks) found
  cases found'.symm.trans again
  exact same

end Operation

namespace Store

theorem Sound.lock_step {s : Store} (sound : s.Sound) (step : Step) {id : Nat} {m : MemberRecord}
    (found : s.member? id = some m) :
    ∃ n, (step.run s).member? id = some n ∧ n.key = m.key ∧
      (n.locked = m.locked ∨ step.Relocks s m.key n.locked) := by
  cases step with
  | reload =>
    refine ⟨m, ?_, rfl, .inl rfl⟩
    change s.reload.members[id]? = some m
    rw [members_reload]
    exact found
  | operation op =>
    obtain ⟨n, found', key, kept⟩ := op.member?_run sound found
    refine ⟨n, found', key, ?_⟩
    cases op with
    | setLocks admins actor key' locked =>
      by_cases same : n.locked = m.locked
      · exact .inl same
      have indexed := sound.toIndexed
      have member : m ∈ s.members := List.mem_of_getElem? found
      change ((Operation.setLocks admins actor key' locked).run s).member? id = some n at found'
      cases answered : (Operation.setLocks admins actor key' locked).answer s with
      | error fault =>
        rw [Operation.run_of_refused indexed answered, found] at found'
        cases found'
        exact absurd rfl same
      | ok answer =>
        obtain ⟨changed, _, rfl⟩ := Update.of_answer_map answered
        obtain ⟨permitted, known, told⟩ := indexed.answer_setLocks_eq_ok_iff.mp answered
        rw [indexed.run_setLocks permitted known, member?, relock, mapKey, List.getElem?_map,
          ← member?, found] at found'
        cases found'
        by_cases this : m.key = key'
        · subst this
          simp only [↓reduceIte] at same ⊢
          have unset : s.Mislocked m.key locked := ⟨m, member, rfl, Ne.symm same⟩
          rw [told.mpr unset] at answered
          exact .inr ⟨admins, actor, rfl, permitted, answered⟩
        · simp only [this, ↓reduceIte, not_true_eq_false] at same
    | _ => exact .inl (kept rfl)

theorem Indexed.rename_guarded {s : Store} (indexed : s.Indexed) {admins : Permissions}
    {now : Instant} {actor : String} {request : RenameRequest}
    (guarded : ∃ m ∈ s.members, m.key = request.key ∧ m.locked = true)
    (unforced : ¬ (request.force = true ∧ admins actor = true)) :
    (∃ fault, (Operation.rename admins now actor request).answer s = .error fault) ∧
      (Operation.rename admins now actor request).run s = s := by
  obtain ⟨m, member, key, locked⟩ := guarded
  have refused : ∃ fault, (Operation.rename admins now actor request).answer s = .error fault := by
    rw [Operation.answer, Operation.update, Update.applyTo_map, applyTo_rename indexed]
    cases judged : s.judgeRename admins actor request with
    | error fault => exact ⟨fault, rfl⟩
    | ok outcome => exact absurd (forced_of_judgeRename indexed judged member key locked) unforced
  obtain ⟨fault, answered⟩ := refused
  exact ⟨⟨fault, answered⟩, Operation.run_of_refused indexed answered⟩

/-- After any run: a step changes the lock of a member only as an admin's setting of the locks of its
key; that setting succeeds if the key is known, puts all locks of the key and nothing else as asked,
tells whether any has changed, and finds nothing to do when it is repeated; and a rename of a key
with a locked member is refused, with no effect, unless an admin forces it. -/
theorem locks_set_by_admins {start : Store} (origin : Origin start) (steps : List Step) :
    let s := replay Step.run steps start
    (∀ (step : Step) id m, s.member? id = some m → ∃ n, (step.run s).member? id = some n ∧
        n.key = m.key ∧ (n.locked = m.locked ∨ step.Relocks s m.key n.locked)) ∧
      (∀ admins actor key locked,
        let op := Operation.setLocks admins actor key locked
        ((∃ changed, op.answer s = .ok (.relocked changed)) ↔
            admins actor = true ∧ ∃ m ∈ s.members, m.key = key) ∧
          ∀ changed, op.answer s = .ok (.relocked changed) →
            op.run s = { s with
                members := s.members.map (fun m => if m.key = key then { m with locked } else m) } ∧
              (changed = true ↔ ∃ m ∈ s.members, m.key = key ∧ m.locked ≠ locked) ∧
              op.answer (op.run s) = .ok (.relocked false) ∧ op.run (op.run s) = op.run s) ∧
      ∀ admins now actor request, (∃ m ∈ s.members, m.key = request.key ∧ m.locked = true) →
        ¬ (request.force = true ∧ admins actor = true) →
        (∃ fault, (Operation.rename admins now actor request).answer s = .error fault) ∧
          (Operation.rename admins now actor request).run s = s := by
  intro s
  have sound : s.Sound := sound_of_replay origin steps
  have indexed := sound.toIndexed
  refine ⟨fun step id m => sound.lock_step step, fun admins actor key locked => ⟨⟨?_, ?_⟩, ?_⟩,
    fun admins now actor request => indexed.rename_guarded⟩
  · rintro ⟨changed, answered⟩
    obtain ⟨permitted, known, _⟩ := indexed.answer_setLocks_eq_ok_iff.mp answered
    exact ⟨permitted, known⟩
  · rintro ⟨permitted, known⟩
    by_cases unset : s.Mislocked key locked
    · exact ⟨true, indexed.answer_setLocks_eq_ok_iff.mpr ⟨permitted, known, by simp [unset]⟩⟩
    · exact ⟨false, indexed.answer_setLocks_eq_ok_iff.mpr ⟨permitted, known, by simp [unset]⟩⟩
  · intro changed answered
    obtain ⟨permitted, known, told⟩ := indexed.answer_setLocks_eq_ok_iff.mp answered
    have ran : (Operation.setLocks admins actor key locked).run s = s.relock key locked :=
      indexed.run_setLocks permitted known
    have settled := s.not_mislocked_relock key locked
    have again := indexed.relock key locked
    have stays : ∃ m ∈ (s.relock key locked).members, m.key = key := by
      obtain ⟨m, member, key'⟩ := known
      exact ⟨_, mem_relock.mpr ⟨m, member, rfl⟩, key'⟩
    rw [ran]
    refine ⟨rfl, told, again.answer_setLocks_eq_ok_iff.mpr ⟨permitted, stays, ?_⟩, ?_⟩
    · simp [settled]
    · rw [again.run_setLocks permitted stays, relock_of_not_mislocked settled]

/-- Two methods of one name, of which only the second has a number, by its obfuscated name. -/
def mixedLocks : List Step :=
  match Graph.read "a net/Base\n\tc (I)V open\nb net/Sub\n\tfunc_7_c (I)V open\n" with
  | .error _ => []
  | .ok graph => [.operation (.importGraph ⟨0, 0⟩ "1" graph "0")]

/-- The lock of one of them guards both, and an admin who locks the key reaches both. -/
theorem locks_set_by_admins_mixed :
    let s := replay Step.run mixedLocks .empty
    let admins : Permissions := fun name => name == "ann"
    let key : NameKey := ⟨"1", .method, "open"⟩
    let rename := Operation.rename admins ⟨60, 0⟩ "bob" ⟨key, "unfold", false⟩
    let lock := Operation.setLocks admins "ann" key true
    (s.membersNamed key).map MemberRecord.locked = [true, false] ∧ rename.run s = s ∧
      ((lock.run s).membersNamed key).map MemberRecord.locked = [true, true] ∧
      lock.answer s = .ok (.relocked true) ∧ lock.answer (lock.run s) = .ok (.relocked false) := by
  intro s admins key rename lock
  obtain ⟨_, sets, guards⟩ := locks_set_by_admins .empty mixedLocks
  have changed : lock.answer s = .ok (.relocked true) := by decide +kernel
  have guarded : ∃ m ∈ s.members, m.key = key ∧ m.locked = true := by decide +kernel
  obtain ⟨_, _, again, _⟩ := (sets admins "ann" key true).2 true changed
  refine ⟨by decide +kernel, ?_, by decide +kernel, changed, again⟩
  exact (guards admins ⟨60, 0⟩ "bob" ⟨key, "unfold", false⟩ guarded (by decide)).2

end Store

end SymbolAtlas
