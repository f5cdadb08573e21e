import SymbolAtlas.Proofs.DocumentRoundTrip

/-! Members against the ledger in stores made by operations alone. Each member points at the newest
entry of its key, and at nothing while its key has no entry. Entries are only made for keys of
members, and members only join versions that did not exist, so a member never finds its key with a
history that it took no part in. -/
namespace SymbolAtlas

namespace Ledger

theorem history_append (l : Ledger) (now : Instant) (change : NameChange) (key : NameKey) :
    (l.append now change).history key =
      l.history key ++ if change.key = key then [⟨l.size, change, now⟩] else [] := by
  by_cases same : change.key = key <;> simp [history, append, size, same]

/-- The ids of a history are told by ids and changes alone; times do not matter. -/
theorem map_id_history (l : Ledger) (key : NameKey) :
    (l.history key).map LedgerEntry.id =
      ((l.entries.map (fun e => (e.id, e.change))).filter
        (fun p => p.2.key = key)).map Prod.fst := by
  rw [List.filter_map, List.map_map]
  rfl

end Ledger

namespace Store

def newest? (s : Store) (key : NameKey) : Option Nat :=
  (s.history key).getLast?.map LedgerEntry.id

structure Coherent (s : Store) : Prop where
  newest : ∀ m ∈ s.members, m.lastChange = s.newest? m.key
  known : ∀ e ∈ s.ledger.entries, ∃ m ∈ s.members, m.key = e.change.key
  versioned : ∀ m ∈ s.members, m.key.version ∈ s.versions.map VersionRecord.version

theorem newest?_enter (s : Store) (now : Instant) (change : NameChange) (key : NameKey) :
    (s.enter now change).newest? key =
      if key = change.key then some s.ledger.size else s.newest? key := by
  change ((s.ledger.append now change).history key).getLast?.map LedgerEntry.id = _
  rw [Ledger.history_append]
  by_cases same : key = change.key
  · simp [same]
  · simp [same, Ne.symm same, newest?, history]

theorem newest?_eq_none_iff {s : Store} {key : NameKey} :
    s.newest? key = none ↔ s.history key = [] := by
  rw [newest?, Option.map_eq_none_iff, List.getLast?_eq_none_iff]

/-- Times in the ledger and the promoted version make no difference. -/
theorem Coherent.congr {s t : Store} (coherent : s.Coherent) (members : t.members = s.members)
    (entries : t.ledger.entries.map (fun e => (e.id, e.change)) =
      s.ledger.entries.map (fun e => (e.id, e.change)))
    (versions : t.versions.map VersionRecord.version = s.versions.map VersionRecord.version) :
    t.Coherent where
  newest m member := by
    rw [members] at member
    rw [coherent.newest m member, newest?, newest?, history, history, ← List.getLast?_map,
      ← List.getLast?_map, Ledger.map_id_history, Ledger.map_id_history, entries]
  known e member := by
    have listed : (e.id, e.change) ∈ s.ledger.entries.map (fun e => (e.id, e.change)) :=
      entries ▸ List.mem_map_of_mem member
    obtain ⟨old, hOld, same⟩ := List.mem_map.mp listed
    obtain ⟨m, hm, key⟩ := coherent.known old hOld
    refine ⟨m, members ▸ hm, key.trans ?_⟩
    rw [(Prod.mk.inj same).2]
  versioned m member := by
    rw [versions]
    exact coherent.versioned m (members ▸ member)

theorem coherent_empty : Coherent .empty where
  newest m member := by cases member
  known e member := by cases member
  versioned m member := by cases member

theorem Coherent.history_fresh {s : Store} (coherent : s.Coherent) {version : String}
    (fresh : s.version? version = none) {key : NameKey} (same : key.version = version) :
    s.history key = [] := by
  refine List.filter_eq_nil_iff.mpr (fun e member named => ?_)
  obtain ⟨m, hm, key'⟩ := coherent.known e member
  obtain ⟨v, hv, name⟩ := List.mem_map.mp (coherent.versioned m hm)
  rw [key', of_decide_eq_true named, same] at name
  exact List.find?_eq_none.mp fresh v hv (decide_eq_true name)

theorem kept_coherent : Kept Coherent where
  entered s now change known coherent := by
    refine ⟨?_, ?_, ?_⟩
    · intro m member
      obtain ⟨old, hOld, rfl⟩ := mem_enter.mp member
      rw [newest?_enter, ← coherent.newest old hOld]
    · intro e member
      have source : ∃ m ∈ s.members, m.key = e.change.key := by
        rcases mem_entries_enter.mp member with earlier | rfl
        · exact coherent.known e earlier
        · exact known
      obtain ⟨m, hm, key⟩ := source
      exact ⟨_, mem_enter.mpr ⟨m, hm, rfl⟩, key⟩
    · intro m member
      obtain ⟨old, hOld, rfl⟩ := mem_enter.mp member
      exact coherent.versioned old hOld
  relocked s key locked coherent := by
    refine ⟨?_, ?_, ?_⟩
    · intro m member
      obtain ⟨old, hOld, rfl⟩ := mem_relock.mp member
      exact coherent.newest old hOld
    · intro e member
      obtain ⟨m, hm, key'⟩ := coherent.known e member
      exact ⟨_, mem_relock.mpr ⟨m, hm, rfl⟩, key'⟩
    · intro m member
      obtain ⟨old, hOld, rfl⟩ := mem_relock.mp member
      exact coherent.versioned old hOld
  promoted s target coherent := by
    refine coherent.congr rfl rfl (List.ext_getElem? (fun i => ?_))
    simp [promoteTo, Function.comp_def]
  imported s now version digest graph pending fresh made coherent := by
    have grown := grown_withVersion (Graph.pendingClasses_sound made) s now digest
    obtain ⟨added, members, newcomers⟩ := grown.members
    have ledger : (s.withVersion now version digest pending).ledger = s.ledger := grown.ledger
    have versions : (s.withVersion now version digest pending).versions.map VersionRecord.version =
        s.versions.map VersionRecord.version ++ [version] := by
      rw [grown.versions]
      simp
    refine ⟨?_, ?_, ?_⟩
    · intro m member
      rw [newest?, history, ledger]
      rw [members] at member
      rcases List.mem_append.mp member with earlier | later
      · exact coherent.newest m earlier
      · rw [(newcomers m later).unnamed]
        have none := newest?_eq_none_iff.mpr
          (coherent.history_fresh fresh (newcomers m later).version)
        exact none.symm
    · rw [ledger, members]
      intro e member
      obtain ⟨m, hm, key⟩ := coherent.known e member
      exact ⟨m, List.mem_append_left _ hm, key⟩
    · intro m member
      rw [versions]
      rw [members] at member
      rcases List.mem_append.mp member with earlier | later
      · exact List.mem_append_left _ (coherent.versioned m earlier)
      · exact List.mem_append_right _ (by simp [(newcomers m later).version])

theorem Coherent.of_document {s t : Store} (coherent : s.Coherent)
    (read : parse s.document = .ok t) : t.Coherent := by
  obtain ⟨reread, _⟩ := parse_document_iff.mp read
  exact coherent.congr reread.members.2.symm reread.entries_eq reread.versions_eq

theorem coherent_of_replay (steps : List Step) : (replay Step.run steps .empty).Coherent :=
  kept_coherent.replay_of_reread Coherent.of_document indexed_empty coherent_empty steps

theorem Coherent.lastRecord?_eq {s : Store} (coherent : s.Coherent) (sound : s.Sound)
    {m : MemberRecord} (member : m ∈ s.members) :
    s.lastRecord? m = (s.history m.key).getLast? := by
  rw [lastRecord?, coherent.newest m member, newest?]
  cases last : (s.history m.key).getLast? with
  | none => rfl
  | some e =>
    have listed : e ∈ s.ledger.entries := (List.mem_filter.mp (List.mem_of_getLast? last)).1
    exact sound.entries.getElem?_id listed

theorem Coherent.finalName?_eq {s : Store} (coherent : s.Coherent) (sound : s.Sound)
    {m : MemberRecord} (member : m ∈ s.members) :
    s.finalName? m = (s.history m.key).getLast?.map (fun e => e.change.final) := by
  rw [finalName?, coherent.lastRecord?_eq sound member]

/-- In every store made by operations and reloads, a member points at the newest entry of its key
and is named by it, members of one key agree, and every entry has a member of its key. -/
theorem lastChange_eq_newest (steps : List Step) :
    let s := replay Step.run steps .empty
    (∀ m ∈ s.members, m.lastChange = (s.history m.key).getLast?.map LedgerEntry.id ∧
        (m.lastChange = none ↔ s.history m.key = []) ∧
        s.finalName? m = (s.history m.key).getLast?.map (fun e => e.change.final)) ∧
      (∀ m ∈ s.members, ∀ n ∈ s.members, m.key = n.key →
        m.lastChange = n.lastChange ∧ s.finalName? m = s.finalName? n) ∧
      ∀ e ∈ s.ledger.entries, ∃ m ∈ s.members, m.key = e.change.key := by
  intro s
  have coherent : s.Coherent := coherent_of_replay steps
  have sound : s.Sound := sound_of_replay .empty steps
  have named : ∀ m ∈ s.members,
      s.finalName? m = (s.history m.key).getLast?.map (fun e => e.change.final) := by
    intro m member
    rw [finalName?, coherent.lastRecord?_eq sound member]
  refine ⟨fun m member => ⟨coherent.newest m member, ?_, named m member⟩, ?_, coherent.known⟩
  · rw [coherent.newest m member, newest?_eq_none_iff]
  · intro m hm n hn same
    rw [coherent.newest m hm, coherent.newest n hn, named m hm, named n hn, same]
    exact ⟨rfl, rfl⟩

theorem lastChange_eq_newest_specimen :
    let s := replay Step.run specimen .empty
    ∃ m ∈ s.members, ∃ n ∈ s.members, m ≠ n ∧ m.key = n.key ∧
      (s.history m.key).getLast?.map LedgerEntry.id = some 0 ∧ s.finalName? n = some "open" := by
  intro s
  obtain ⟨m, hm, n, hn, apart, same, points, named⟩ : ∃ m ∈ s.members, ∃ n ∈ s.members,
      m ≠ n ∧ m.key = n.key ∧ m.lastChange = some 0 ∧ s.finalName? m = some "open" := by
    decide +kernel
  obtain ⟨newest, agree, _⟩ := lastChange_eq_newest specimen
  exact ⟨m, hm, n, hn, apart, same, (newest m hm).1.symm.trans points,
    (agree m hm n hn same).2.symm.trans named⟩

end Store

end SymbolAtlas
