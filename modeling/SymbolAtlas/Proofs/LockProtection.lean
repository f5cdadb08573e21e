import SymbolAtlas.Proofs.Entered

/-! What a lock guards. A rename honours it: a locked member is renamed by an admin's force and by
nothing else. Name lists and migrations never ask for it. They leave a name that exists alone, so a
lock holds against them once its member has a name; a locked member without one takes the first name
that they offer, whoever offers it. -/
namespace SymbolAtlas

namespace Operation

open Store

/-- A rename of the key that is forced by an admin. -/
def Forces (op : Operation) (key : NameKey) : Prop :=
  ∃ admins now actor request, op = rename admins now actor request ∧ request.key = key ∧
    request.force = true ∧ admins actor = true

/-- Whatever becomes of the name of a locked member is an admin's doing, and by force. -/
def RespectsLocks (op : Operation) (s : Store) : Prop :=
  ∀ m ∈ s.members, m.locked = true →
    (op.run s).finalNameAt? m.id ≠ s.finalNameAt? m.id → op.Forces m.key

theorem entered_of_offered {s : Store} {op : Operation} {change : NameChange}
    (offers : change ∈ op.offered s) : op.entered s = s.accepted (op.offered s) := by
  cases op with
  | rename => cases offers
  | _ => rfl

theorem not_forces_of_offered {s : Store} {op : Operation} {change : NameChange}
    (offers : change ∈ op.offered s) (key : NameKey) : ¬ op.Forces key := by
  rintro ⟨admins, now, actor, request, rfl, _⟩
  cases offers

end Operation

namespace Store

theorem forced_of_judgeRename {s : Store} (indexed : s.Indexed) {admins : Permissions}
    {actor : String} {request : RenameRequest} {outcome : RenameOutcome}
    (allowed : s.judgeRename admins actor request = .ok outcome) {m : MemberRecord}
    (member : m ∈ s.members) (key : m.key = request.key) (locked : m.locked = true) :
    request.force = true ∧ admins actor = true := by
  have guarded : (s.membersNamed request.key).any MemberRecord.locked = true :=
    List.any_eq_true.mpr ⟨m, indexed.mem_membersNamed.mpr ⟨member, key⟩, locked⟩
  exact (checks_of_judgeRename allowed).2 guarded

theorem Sound.entered_of_changed {s : Store} (sound : s.Sound) {op : Operation} {m : MemberRecord}
    (member : m ∈ s.members)
    (changed : (op.run s).finalNameAt? m.id ≠ s.finalNameAt? m.id) :
    ∃ change ∈ op.entered s, change.key = m.key := by
  rw [op.finalNameAt?_run sound (sound.toIndexed.member?_id member)] at changed
  cases last : (op.entered s).reverse.find? (fun c => m.key = c.key) with
  | none =>
    rw [last] at changed
    exact absurd rfl changed
  | some change =>
    have same := List.find?_some last
    exact ⟨change, List.mem_reverse.mp (List.mem_of_find?_eq_some last),
      (of_decide_eq_true same).symm⟩

theorem Sound.changed_of_entered {s : Store} (sound : s.Sound) {op : Operation} {m : MemberRecord}
    (member : m ∈ s.members) (free : m.lastChange = none)
    (entered : ∃ change ∈ op.entered s, change.key = m.key) :
    (op.run s).finalNameAt? m.id ≠ s.finalNameAt? m.id := by
  have found := sound.toIndexed.member?_id member
  have nameless : s.finalNameAt? m.id = none := by
    simp [finalNameAt?, finalName?, lastRecord?, found, free]
  rw [op.finalNameAt?_run sound found, nameless, Option.or_none]
  obtain ⟨change, taken, key⟩ := entered
  have last : ((op.entered s).reverse.find? (fun c => m.key = c.key)).isSome = true :=
    List.find?_isSome.mpr ⟨change, List.mem_reverse.mpr taken, decide_eq_true key.symm⟩
  obtain ⟨newest, hNewest⟩ := Option.isSome_iff_exists.mp last
  rw [hNewest]
  exact Option.some_ne_none _

/-- After any run a next operation respects all locks exactly when it offers no name to the key of a
locked member that none of its members has one for yet. A rename offers nothing. -/
theorem respectsLocks_iff {start : Store} (origin : Origin start) (steps : List Step)
    (op : Operation) :
    let s := replay Step.run steps start
    op.RespectsLocks s ↔
      ∀ m ∈ s.members, m.locked = true → s.Unnamed m.key →
        ∀ change ∈ op.offered s, change.key ≠ m.key := by
  intro s
  have sound : s.Sound := sound_of_replay origin steps
  have indexed := sound.toIndexed
  constructor
  · intro respects m member locked unnamed change offers key
    have taken : ∃ c ∈ op.entered s, c.key = m.key := by
      rw [op.entered_of_offered offers, exists_accepted_iff]
      exact ⟨(indexed.awaitsName_iff _).mpr unnamed, change, offers, key⟩
    have changed := sound.changed_of_entered member (unnamed.free m member rfl) taken
    exact op.not_forces_of_offered offers _ (respects m member locked changed)
  · intro unoffered m member locked changed
    have taken := sound.entered_of_changed member changed
    have notOffered (entered : op.entered s = s.accepted (op.offered s)) : False := by
      rw [entered, exists_accepted_iff] at taken
      obtain ⟨awaits, change, offers, key⟩ := taken
      exact unoffered m member locked ((indexed.awaitsName_iff _).mp awaits) change offers key
    cases op with
    | rename admins now actor request =>
      obtain ⟨change, entered, key⟩ := taken
      obtain ⟨rfl, outcome, judged⟩ := Operation.allowed_of_entered entered
      have forced := forced_of_judgeRename indexed judged member key.symm locked
      exact ⟨admins, now, actor, request, rfl, key, forced⟩
    | _ => exact (notOffered rfl).elim

def lockedField : List Step :=
  match Graph.read "a net/Base\n\tb field_1_a\n" with
  | .error _ => []
  | .ok graph =>
    [.operation (.importGraph ⟨0, 0⟩ "1" graph "0"),
      .operation (.setLocks (fun name => name == "ann") "ann" ⟨"1", .field, "field_1_a"⟩ true)]

def listedName (final : String) : Operation :=
  .importNames ⟨60, 0⟩ "1" ⟨[⟨"field_1_a", final⟩], [], []⟩ "bob"

/-- The list still names nothing once the field has a name. -/
theorem respectsLocks_named :
    (listedName "pace").RespectsLocks
      (replay Step.run (lockedField ++ [.operation (listedName "speed")]) .empty) := by
  apply (respectsLocks_iff .empty _ _).mpr
  intro m member _ unnamed
  have named : ∀ m ∈ (replay Step.run (lockedField ++ [.operation (listedName "speed")])
      .empty).members, m.lastChange = some 0 := by
    decide +kernel
  have free := unnamed.free m member rfl
  rw [named m member] at free
  cases free

/-- An actor whose rename of the locked field is refused gives it the same name by a list. -/
theorem locked_field_named_by_list :
    let s := replay Step.run lockedField .empty
    (Operation.rename (fun name => name == "ann") ⟨60, 0⟩ "bob"
          ⟨⟨"1", .field, "field_1_a"⟩, "speed", false⟩).answer s =
        .error (.forbidden
          "`field_1_a` is locked and can only be changed by an admin with --force") ∧
      (∃ m ∈ s.members, m.locked = true ∧ s.finalNameAt? m.id = none ∧
        ((listedName "speed").run s).finalNameAt? m.id = some "speed") ∧
      ¬ (listedName "speed").RespectsLocks s := by
  intro s
  have named : ∃ m ∈ s.members, m.locked = true ∧ s.finalNameAt? m.id = none ∧
      ((listedName "speed").run s).finalNameAt? m.id = some "speed" := by
    decide +kernel
  refine ⟨by decide +kernel, named, fun respects => ?_⟩
  obtain ⟨m, member, locked, before, after⟩ := named
  have changed : ((listedName "speed").run s).finalNameAt? m.id ≠ s.finalNameAt? m.id := by
    rw [before, after]
    exact Option.some_ne_none _
  obtain ⟨_, _, _, _, isRename, _⟩ := respects m member locked changed
  cases isRename

end Store

end SymbolAtlas
