import SymbolAtlas.Proofs.StoreSoundness

/-! Operations are all or nothing. A refused one leaves the whole store as it was, none is refused
because the store is broken, and an entry is never in the ledger without the members it names. -/
namespace SymbolAtlas.Store

/-- Members have the entry's key, and all of them point at it. -/
structure Serves (s : Store) (e : LedgerEntry) : Prop where
  known : ∃ m ∈ s.members, m.key = e.change.key
  newest : ∀ m ∈ s.members, m.key = e.change.key → m.lastChange = some e.id

theorem serves_enter {s : Store} {change : NameChange} (known : ∃ m ∈ s.members, m.key = change.key)
    (now : Instant) : (s.enter now change).Serves ⟨s.ledger.size, change, now⟩ := by
  constructor
  · obtain ⟨m, member, key⟩ := known
    exact ⟨_, mem_enter.mpr ⟨m, member, rfl⟩, key⟩
  · intro m member key
    obtain ⟨old, _, rfl⟩ := mem_enter.mp member
    exact if_pos key

theorem Serves.enter {s : Store} {e : LedgerEntry} (serves : s.Serves e) (now : Instant)
    {change : NameChange} (unnamed : s.Unnamed change.key) : (s.enter now change).Serves e := by
  have other : e.change.key ≠ change.key := by
    intro same
    obtain ⟨m, member, key⟩ := serves.known
    have points := serves.newest m member key
    rw [unnamed.free m member (key.trans same)] at points
    cases points
  constructor
  · obtain ⟨m, member, key⟩ := serves.known
    exact ⟨_, mem_enter.mpr ⟨m, member, rfl⟩, key⟩
  · intro m member key
    obtain ⟨old, hOld, rfl⟩ := mem_enter.mp member
    have apart : old.key ≠ change.key := fun same => other (key.symm.trans same)
    simpa only [if_neg apart] using serves.newest old hOld key

theorem Named.serves {s t : Store} (named : Named s t) {e : LedgerEntry}
    (member : e ∈ t.ledger.entries) : e ∈ s.ledger.entries ∨ t.Serves e := by
  induction named with
  | refl => exact .inl member
  | enter _ now change unnamed ih =>
    rcases mem_entries_enter.mp member with earlier | rfl
    · exact (ih earlier).imp_right (fun serves => serves.enter now unnamed)
    · exact .inr (serves_enter unnamed.known now)

/-- Every entry that an operation appends is one that all members of its key point at. -/
theorem Effect.serves {s t : Store} (effect : Effect s t) {e : LedgerEntry}
    (member : e ∈ t.ledger.entries) : e ∈ s.ledger.entries ∨ t.Serves e := by
  cases effect with
  | named named => exact named.serves member
  | renamed now change known =>
    rcases mem_entries_enter.mp member with earlier | rfl
    · exact .inl earlier
    · exact .inr (serves_enter known now)
  | relocked => exact .inl member
  | promoted => exact .inl member
  | imported now version digest graph pending _ made =>
    rw [(grown_withVersion (Graph.pendingClasses_sound made) s now digest).ledger] at member
    exact .inl member

/-- After any run an operation either succeeds or leaves the store exactly as it was; it never finds
the store corrupt; and all members of a key that it gives a new entry point at that entry. -/
theorem operation_atomic {start : Store} (origin : Origin start) (steps : List Step)
    (op : Operation) :
    let s := replay Step.run steps start
    (∀ fault, op.answer s = .error fault → op.run s = s) ∧
      (∀ reason, op.answer s ≠ .error (.storeCorrupt reason)) ∧
      ∀ e ∈ (op.run s).ledger.entries, e ∉ s.ledger.entries →
        (∃ m ∈ (op.run s).members, m.key = e.change.key) ∧
          ∀ m ∈ (op.run s).members, m.key = e.change.key → m.lastChange = some e.id := by
  intro s
  have outcome := op.outcome (sound_of_replay origin steps).toIndexed
  change Outcome s (op.update.applyTo s) at outcome
  unfold Operation.answer Operation.run
  generalize op.update.applyTo s = ending at outcome
  cases outcome with
  | refused blameless =>
    refine ⟨fun _ _ => rfl, fun reason refused => ?_, fun e member fresh => absurd member fresh⟩
    cases refused
    cases blameless
  | done effect =>
    refine ⟨fun _ refused => (by cases refused), fun _ refused => (by cases refused),
      fun e member fresh => ?_⟩
    obtain ⟨known, newest⟩ := (effect.serves member).resolve_left fresh
    exact ⟨known, newest⟩

def specimenRename (kind : MemberKind) : Operation :=
  .rename (fun _ => false) ⟨90, 0⟩ "bob" ⟨⟨"1", kind, "func_2_c"⟩, "shut", false⟩

theorem operation_atomic_specimen :
    let s := replay Step.run specimen .empty
    ((specimenRename .field).answer s =
          .error (.mappingNotFound (.member .field) "func_2_c" "1") ∧
        (specimenRename .field).run s = s) ∧
      ∃ e ∈ ((specimenRename .method).run s).ledger.entries, e.id = 1 ∧
        ∀ m ∈ ((specimenRename .method).run s).members,
          m.key = e.change.key → m.lastChange = some e.id := by
  have refused : (specimenRename .field).answer (replay Step.run specimen .empty) =
      .error (.mappingNotFound (.member .field) "func_2_c" "1") := by
    decide +kernel
  have appended : ∃ e ∈ ((specimenRename .method).run
      (replay Step.run specimen .empty)).ledger.entries,
      e.id = 1 ∧ e ∉ (replay Step.run specimen .empty).ledger.entries := by
    decide +kernel
  obtain ⟨e, member, id, fresh⟩ := appended
  have unchanged := (operation_atomic .empty specimen (specimenRename .field)).1 _ refused
  have serves := (operation_atomic .empty specimen (specimenRename .method)).2.2 e member fresh
  exact ⟨⟨refused, unchanged⟩, e, member, id, serves.2⟩

end SymbolAtlas.Store
