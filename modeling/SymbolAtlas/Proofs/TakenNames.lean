import SymbolAtlas.Proofs.CarriedNames

/-! What a store makes of the names that it takes. The changes taken out of an offer have keys of
their own, so each of them is in the end the entry that the members of its key point at, whatever
was entered before or after it; all other members are as they were. An offer that was taken has
nothing left to give when it is made again. -/
namespace SymbolAtlas.Store

/-- The second store is the first with these changes made, each of a key of its own: a change is one
new entry, the members of its key point at the entry, and nothing else is different. -/
structure Receives (s : Store) (now : Instant) (changes : List NameChange) (t : Store) : Prop where
  apart : (changes.map NameChange.key).Nodup
  entries : t.ledger.entries =
    s.ledger.entries ++ changes.mapIdx (fun i change => ⟨s.ledger.size + i, change, now⟩)
  pointed : ∀ i change, changes[i]? = some change → ∀ m ∈ s.members, m.key = change.key →
    t.member? m.id = some { m with lastChange := some (s.ledger.size + i) }
  untouched : ∀ m ∈ s.members, m.key ∉ changes.map NameChange.key → t.member? m.id = some m
  length : t.members.length = s.members.length
  classes : t.classes = s.classes
  names : t.names = s.names
  versions : t.versions = s.versions

def Awaiting (s : Store) (key : NameKey) : Prop :=
  (∃ m ∈ s.members, m.key = key) ∧ ∀ m ∈ s.members, m.key = key → s.finalName? m = none

instance (s : Store) (key : NameKey) : Decidable (s.Awaiting key) :=
  inferInstanceAs (Decidable (_ ∧ _))

section

variable {s : Store} {now : Instant} {changes : List NameChange}

theorem names_enterAll (s : Store) (now : Instant) (changes : List NameChange) :
    (s.enterAll now changes).names = s.names := by
  induction changes generalizing s with
  | nil => rfl
  | cons change changes ih => exact ih (s.enter now change)

theorem member?_enterAll_of_not_mem {id : Nat} {m : MemberRecord} (found : s.member? id = some m)
    (other : m.key ∉ changes.map NameChange.key) :
    (s.enterAll now changes).member? id = some m := by
  induction changes generalizing s with
  | nil => exact found
  | cons change changes ih =>
    simp only [List.map_cons, List.mem_cons, not_or] at other
    refine ih ?_ other.2
    simp [member?_enter, found, other.1]

theorem member?_enterAll_of_getElem? {id i : Nat} {m : MemberRecord} {change : NameChange}
    (found : s.member? id = some m) (apart : (changes.map NameChange.key).Nodup)
    (listed : changes[i]? = some change) (same : m.key = change.key) :
    (s.enterAll now changes).member? id =
      some { m with lastChange := some (s.ledger.size + i) } := by
  induction changes generalizing s i with
  | nil => simp at listed
  | cons first changes ih =>
    obtain ⟨fresh, apart⟩ := List.nodup_cons.mp apart
    cases i with
    | zero =>
      obtain rfl : first = change := by simpa using listed
      have points : (s.enter now first).member? id =
          some { m with lastChange := some s.ledger.size } := by
        rw [member?_enter, found, Option.map_some, if_pos same]
      rw [enterAll_cons]
      apply member?_enterAll_of_not_mem points
      rwa [same]
    | succ i =>
      have later : changes[i]? = some change := by simpa using listed
      have other : m.key ≠ first.key := by
        intro clash
        apply fresh
        rw [← clash, same]
        exact List.mem_map_of_mem (List.mem_of_getElem? later)
      have kept : (s.enter now first).member? id = some m := by
        simp [member?_enter, found, other]
      rw [enterAll_cons, ih kept apart later, size_enter]
      simp only [Nat.add_assoc, Nat.add_comm 1]

theorem Indexed.receives_enterAll (indexed : s.Indexed) (now : Instant)
    (apart : (changes.map NameChange.key).Nodup) :
    s.Receives now changes (s.enterAll now changes) where
  apart := apart
  entries := s.entries_enterAll now changes
  pointed _ _ listed _ member same :=
    member?_enterAll_of_getElem? (indexed.member?_id member) apart listed same
  untouched _ member other := member?_enterAll_of_not_mem (indexed.member?_id member) other
  length := by
    obtain ⟨point, members⟩ := (repointed_enterAll s now changes).members
    rw [members, List.length_map]
  classes := (repointed_enterAll s now changes).classes
  names := s.names_enterAll now changes
  versions := (repointed_enterAll s now changes).versions

theorem Sound.finalName?_eq_none_iff (sound : s.Sound) {m : MemberRecord} (member : m ∈ s.members) :
    s.finalName? m = none ↔ m.lastChange = none := by
  refine ⟨sound.lastChange_of_finalName? member, fun free => ?_⟩
  simp [finalName?, lastRecord?, free]

theorem Sound.awaitsName_iff (sound : s.Sound) (key : NameKey) :
    s.awaitsName key = true ↔ s.Awaiting key := by
  rw [sound.toIndexed.awaitsName_iff]
  constructor
  · intro unnamed
    refine ⟨unnamed.known, fun m member same => ?_⟩
    exact (sound.finalName?_eq_none_iff member).mpr (unnamed.free m member same)
  · rintro ⟨known, free⟩
    refine ⟨known, fun m member same => ?_⟩
    exact (sound.finalName?_eq_none_iff member).mp (free m member same)

/-- What is taken depends on the keys alone, so it does not matter whether repeated keys go before
or after those that await no name. -/
theorem accepted_eq_filter (s : Store) (changes : List NameChange) :
    s.accepted changes =
      (firsts NameChange.key changes).filter (fun c => s.awaitsName c.key) := by
  rw [accepted_eq_firsts, filter_firsts]
  intro c d same
  rw [same]

theorem nodup_accepted (s : Store) (changes : List NameChange) :
    ((s.accepted changes).map NameChange.key).Nodup := by
  rw [accepted_eq_firsts]
  exact nodup_map_firsts NameChange.key _

theorem Sound.receives_accepted (sound : s.Sound) (now : Instant) (changes : List NameChange) :
    s.Receives now (s.accepted changes) (s.enterAll now (s.accepted changes)) :=
  sound.toIndexed.receives_enterAll now (s.nodup_accepted changes)

theorem Sound.not_mem_accepted_of_named (sound : s.Sound) {m : MemberRecord}
    (member : m ∈ s.members) (named : (s.finalName? m).isSome) :
    m.key ∉ (s.accepted changes).map NameChange.key := by
  intro listed
  obtain ⟨change, taken, same⟩ := List.mem_map.mp listed
  have awaiting := (sound.awaitsName_iff _).mp (mem_of_mem_accepted taken).2
  simp [awaiting.2 m member same.symm] at named

theorem accepted_append (s : Store) {xs ys : List NameChange}
    (apart : ∀ y ∈ ys, ∀ x ∈ xs, y.key ≠ x.key) :
    s.accepted (xs ++ ys) = s.accepted xs ++ s.accepted ys := by
  have stays : ∀ y ∈ firsts NameChange.key ys,
      decide (y.key ∉ xs.map NameChange.key) = true := by
    intro y listed
    apply decide_eq_true
    intro known
    obtain ⟨x, member, same⟩ := List.mem_map.mp known
    exact apart y (mem_of_mem_keepFirst listed) x member same.symm
  rw [accepted_eq_filter, firsts_append, List.filter_eq_self.mpr stays, List.filter_append,
    ← accepted_eq_filter, ← accepted_eq_filter]

theorem accepted_flatMap_kinds (s : Store) {parts : MemberKind → List NameChange}
    (sorted : ∀ kind, ∀ change ∈ parts kind, change.key.kind = kind) {kinds : List MemberKind}
    (distinct : kinds.Nodup) :
    s.accepted (kinds.flatMap parts) = kinds.flatMap (fun kind => s.accepted (parts kind)) := by
  induction kinds with
  | nil => rfl
  | cons kind kinds ih =>
    obtain ⟨fresh, distinct⟩ := List.nodup_cons.mp distinct
    rw [List.flatMap_cons, List.flatMap_cons, accepted_append, ih distinct]
    intro y later x here same
    obtain ⟨other, listed, member⟩ := List.mem_flatMap.mp later
    have clash : other = kind := by
      rw [← sorted other y member, ← sorted kind x here, same]
    exact fresh (clash ▸ listed)

theorem foldl_count_of_kind {kind : MemberKind} {changes : List NameChange}
    (sorted : ∀ change ∈ changes, change.key.kind = kind) (report : NamesReport) :
    changes.foldl (fun r change => r.count change.key.kind) report =
      match kind with
      | .field => { report with fields := report.fields + changes.length }
      | .method => { report with methods := report.methods + changes.length }
      | .parameter => { report with params := report.params + changes.length } := by
  induction changes generalizing report with
  | nil => cases kind <;> rfl
  | cons change changes ih =>
    have rest := ih (fun c listed => sorted c (List.mem_cons_of_mem _ listed)) (report.count kind)
    rw [List.foldl_cons, sorted change List.mem_cons_self, rest]
    cases kind <;> simp [NamesReport.count, Nat.add_assoc, Nat.add_comm 1]

/-- The report of changes that come kind by kind tells how many there are of each kind. -/
theorem ofChanges_flatMap_kinds {parts : MemberKind → List NameChange}
    (sorted : ∀ kind, ∀ change ∈ parts kind, change.key.kind = kind) :
    NamesReport.ofChanges (MemberKind.all.flatMap parts) =
      ⟨(parts .field).length, (parts .method).length, (parts .parameter).length⟩ := by
  simp [NamesReport.ofChanges, MemberKind.all, List.foldl_append,
    foldl_count_of_kind (sorted _), NamesReport.zero]

theorem Indexed.awaitsName_enterAll (indexed : s.Indexed) (now : Instant)
    (changes : List NameChange) (key : NameKey) :
    (s.enterAll now changes).awaitsName key =
      (s.awaitsName key && decide (key ∉ changes.map NameChange.key)) := by
  induction changes generalizing s with
  | nil => simp [Store.enterAll]
  | cons change changes ih =>
    rw [enterAll_cons, ih (indexed.enter now change), indexed.awaitsName_enter]
    simp [Bool.and_assoc]

/-- Whatever was worth taking is taken, so the same offer is void the second time. -/
theorem Indexed.accepted_again (indexed : s.Indexed) (now : Instant) (changes : List NameChange) :
    (s.enterAll now (s.accepted changes)).accepted changes = [] := by
  refine List.eq_nil_iff_forall_not_mem.mpr (fun change taken => ?_)
  obtain ⟨offered, awaits⟩ := mem_of_mem_accepted taken
  rw [indexed.awaitsName_enterAll, Bool.and_eq_true, decide_eq_true_iff] at awaits
  obtain ⟨first, listed, same⟩ := exists_accepted_iff.mpr ⟨awaits.1, change, offered, rfl⟩
  exact awaits.2 (same ▸ List.mem_map_of_mem listed)

end

end SymbolAtlas.Store
