import SymbolAtlas.Proofs.StoreSoundness

/-! What name lists and migrations come to. Both offer changes to a store one after another, and the
store takes the first change of every key that awaits a name. Nothing a store takes has a bearing on
what else it is offered, so the taken changes can be read off the store as it was at the start, and
they are entered in the order of the offer. -/
namespace SymbolAtlas.Store

/-- The changes taken out of those offered: of each key that awaits a name, the first. -/
def accepted (s : Store) : List NameChange → List NameChange
  | [] => []
  | change :: changes =>
    if s.awaitsName change.key then
      change :: (s.accepted changes).filter (fun c => c.key ≠ change.key)
    else s.accepted changes

def enterAll (s : Store) (now : Instant) (changes : List NameChange) : Store :=
  changes.foldl (fun s change => s.enter now change) s

def finalNameAt? (s : Store) (id : Nat) : Option String := (s.member? id).bind s.finalName?

theorem mem_of_mem_accepted {s : Store} {changes : List NameChange} {change : NameChange}
    (taken : change ∈ s.accepted changes) :
    change ∈ changes ∧ s.awaitsName change.key = true := by
  induction changes with
  | nil => cases taken
  | cons first changes ih =>
    rw [accepted] at taken
    split at taken
    case isTrue awaits =>
      rcases List.mem_cons.mp taken with rfl | later
      · exact ⟨List.mem_cons_self, awaits⟩
      · have := ih (List.mem_filter.mp later).1
        exact ⟨List.mem_cons_of_mem _ this.1, this.2⟩
    case isFalse =>
      have := ih taken
      exact ⟨List.mem_cons_of_mem _ this.1, this.2⟩

theorem exists_accepted_iff {s : Store} {changes : List NameChange} {key : NameKey} :
    (∃ change ∈ s.accepted changes, change.key = key) ↔
      s.awaitsName key = true ∧ ∃ change ∈ changes, change.key = key := by
  constructor
  · rintro ⟨change, taken, rfl⟩
    obtain ⟨offered, awaits⟩ := mem_of_mem_accepted taken
    exact ⟨awaits, change, offered, rfl⟩
  · rintro ⟨awaits, change, offered, rfl⟩
    induction changes with
    | nil => cases offered
    | cons first changes ih =>
      rw [accepted]
      by_cases same : first.key = change.key
      · rw [if_pos (same ▸ awaits)]
        exact ⟨first, List.mem_cons_self, same⟩
      · have later : change ∈ changes := by
          rcases List.mem_cons.mp offered with rfl | later
          · exact absurd rfl same
          · exact later
        obtain ⟨taken, member, key⟩ := ih later
        split
        · have apart : taken.key ≠ first.key := fun eq => same (eq.symm.trans key)
          refine ⟨taken, List.mem_cons_of_mem _ ?_, key⟩
          exact List.mem_filter.mpr ⟨member, decide_eq_true apart⟩
        · exact ⟨taken, member, key⟩

theorem unnamed_enter_iff {s : Store} {now : Instant} {change : NameChange} {key : NameKey} :
    (s.enter now change).Unnamed key ↔ s.Unnamed key ∧ key ≠ change.key := by
  constructor
  · intro unnamed
    obtain ⟨m, member, known⟩ := unnamed.known
    obtain ⟨old, hOld, rfl⟩ := mem_enter.mp member
    have other : key ≠ change.key := by
      intro same
      have free := unnamed.free _ member known
      rw [if_pos (known.trans same)] at free
      cases free
    refine ⟨⟨⟨old, hOld, known⟩, fun m hm at_key => ?_⟩, other⟩
    have free := unnamed.free _ (mem_enter.mpr ⟨m, hm, rfl⟩) at_key
    rwa [if_neg (fun same => other (at_key.symm.trans same))] at free
  · rintro ⟨unnamed, other⟩
    obtain ⟨m, member, known⟩ := unnamed.known
    refine ⟨⟨_, mem_enter.mpr ⟨m, member, rfl⟩, known⟩, fun n hn at_key => ?_⟩
    obtain ⟨old, hOld, rfl⟩ := mem_enter.mp hn
    rw [if_neg (fun same => other (at_key.symm.trans same))]
    exact unnamed.free old hOld at_key

theorem Indexed.awaitsName_enter {s : Store} (indexed : s.Indexed) (now : Instant)
    (change : NameChange) (key : NameKey) :
    (s.enter now change).awaitsName key = (s.awaitsName key && decide (key ≠ change.key)) := by
  rw [Bool.eq_iff_iff, (indexed.enter now change).awaitsName_iff, unnamed_enter_iff,
    Bool.and_eq_true, indexed.awaitsName_iff, decide_eq_true_iff]

/-- Taking a change spoils the later ones of its key and no others. -/
theorem Indexed.accepted_enter {s : Store} (indexed : s.Indexed) (now : Instant)
    (change : NameChange) (changes : List NameChange) :
    (s.enter now change).accepted changes =
      (s.accepted changes).filter (fun c => c.key ≠ change.key) := by
  induction changes with
  | nil => rfl
  | cons first changes ih =>
    rw [accepted, accepted, indexed.awaitsName_enter, ih]
    by_cases awaits : s.awaitsName first.key = true
    -- a change of another key is taken by both, and both drop the later ones of its key
    · by_cases other : first.key ≠ change.key
      · simp [awaits, other, List.filter_filter, Bool.and_comm]
      · have same : first.key = change.key := not_not.mp other
        rw [same] at awaits
        simp [awaits, same, List.filter_filter]
    · simp [awaits]

theorem enterAll_cons (s : Store) (now : Instant) (change : NameChange)
    (changes : List NameChange) :
    s.enterAll now (change :: changes) = (s.enter now change).enterAll now changes := rfl

theorem Indexed.enterAll {s : Store} (indexed : s.Indexed) (now : Instant)
    (changes : List NameChange) : (s.enterAll now changes).Indexed := by
  induction changes generalizing s with
  | nil => exact indexed
  | cons change changes ih => exact ih (indexed.enter now change)

/-- The loop over the offer, as a choice made beforehand and a loop that only enters. -/
theorem Indexed.foldl_offer {s : Store} (indexed : s.Indexed) (now : Instant)
    (report : NamesReport) (changes : List NameChange) :
    changes.foldl (offer now) (report, s) =
      ((s.accepted changes).foldl (fun r change => r.count change.key.kind) report,
        s.enterAll now (s.accepted changes)) := by
  induction changes generalizing s report with
  | nil => rfl
  | cons change changes ih =>
    rw [List.foldl_cons, accepted, offer]
    split
    · rw [ih (indexed.enter now change), indexed.accepted_enter, enterAll_cons, List.foldl_cons]
    · exact ih indexed report

theorem entries_enterAll (s : Store) (now : Instant) (changes : List NameChange) :
    (s.enterAll now changes).ledger.entries =
      s.ledger.entries ++ changes.mapIdx (fun i change => ⟨s.ledger.size + i, change, now⟩) := by
  induction changes generalizing s with
  | nil => simp [enterAll]
  | cons change changes ih =>
    have first : (s.enter now change).ledger.entries =
        s.ledger.entries ++ [⟨s.ledger.size, change, now⟩] := rfl
    rw [enterAll_cons, ih, first, size_enter, List.mapIdx_cons, List.append_assoc]
    simp [Nat.add_assoc, Nat.add_comm 1]

theorem total_count (report : NamesReport) (kind : MemberKind) :
    (report.count kind).total = report.total + 1 := by
  cases kind <;> simp only [NamesReport.count, NamesReport.total] <;> omega

theorem total_foldl_count (report : NamesReport) (changes : List NameChange) :
    (changes.foldl (fun r change => r.count change.key.kind) report).total =
      report.total + changes.length := by
  induction changes generalizing report with
  | nil => rfl
  | cons change changes ih =>
    rw [List.foldl_cons, ih, total_count, List.length_cons]
    omega

theorem member?_enter (s : Store) (now : Instant) (change : NameChange) (id : Nat) :
    (s.enter now change).member? id = (s.member? id).map (fun m =>
      if m.key = change.key then { m with lastChange := some s.ledger.size } else m) :=
  List.getElem?_map

theorem get?_enter {s : Store} {id : Nat} (below : id < s.ledger.size) (now : Instant)
    (change : NameChange) : (s.enter now change).ledger.get? id = s.ledger.get? id :=
  (Ledger.get?_append ..).trans (if_neg (Nat.ne_of_lt below))

theorem Sound.finalNameAt?_enter {s : Store} (sound : s.Sound) {id : Nat} {m : MemberRecord}
    (found : s.member? id = some m) (now : Instant) (change : NameChange) :
    (s.enter now change).finalNameAt? id =
      if m.key = change.key then some change.final else s.finalNameAt? id := by
  rw [finalNameAt?, finalNameAt?, member?_enter, found]
  have member : m ∈ s.members := List.mem_of_getElem? found
  split
  case isTrue same =>
    have newest : (s.enter now change).ledger.get? s.ledger.size =
        some ⟨s.ledger.size, change, now⟩ := (Ledger.get?_append ..).trans (if_pos rfl)
    simp [finalName?, lastRecord?, newest, same]
  case isFalse other =>
    cases points : m.lastChange with
    | none => simp [finalName?, lastRecord?, points, other]
    | some last =>
      have kept := get?_enter (sound.recorded m member last points) now change
      simp [finalName?, lastRecord?, points, other, kept]

theorem known_enter {s : Store} {now : Instant} {change : NameChange} {key : NameKey} :
    (∃ m ∈ (s.enter now change).members, m.key = key) ↔ ∃ m ∈ s.members, m.key = key := by
  constructor
  · rintro ⟨m, member, known⟩
    obtain ⟨old, hOld, rfl⟩ := mem_enter.mp member
    exact ⟨old, hOld, known⟩
  · rintro ⟨m, member, known⟩
    exact ⟨_, mem_enter.mpr ⟨m, member, rfl⟩, known⟩

theorem Indexed.known_of_accepted {s : Store} (indexed : s.Indexed) {changes : List NameChange} :
    ∀ change ∈ s.accepted changes, ∃ m ∈ s.members, m.key = change.key := by
  intro change taken
  exact ((indexed.awaitsName_iff _).mp (mem_of_mem_accepted taken).2).known

theorem Sound.finalNameAt?_enterAll {s : Store} (sound : s.Sound) {id : Nat} {m : MemberRecord}
    (found : s.member? id = some m) (now : Instant) {changes : List NameChange}
    (known : ∀ change ∈ changes, ∃ m ∈ s.members, m.key = change.key) :
    (s.enterAll now changes).finalNameAt? id =
      ((changes.reverse.find? (fun c => m.key = c.key)).map NameChange.final).or
        (s.finalNameAt? id) := by
  induction changes generalizing s m with
  | nil => rfl
  | cons change changes ih =>
    have entered : (s.enter now change).Sound :=
      kept_sound.entered s now change (known change List.mem_cons_self) sound
    obtain ⟨n, found', key⟩ :
        ∃ n, (s.enter now change).member? id = some n ∧ n.key = m.key := by
      refine ⟨_, by rw [member?_enter, found]; rfl, ?_⟩
      dsimp only
      split <;> rfl
    have later : ∀ c ∈ changes, ∃ m ∈ (s.enter now change).members, m.key = c.key :=
      fun c member => known_enter.mpr (known c (List.mem_cons_of_mem _ member))
    rw [enterAll_cons, ih entered found' later, sound.finalNameAt?_enter found, key,
      List.reverse_cons, List.find?_append]
    cases changes.reverse.find? (fun c => m.key = c.key) with
    | some c => rfl
    | none =>
      by_cases same : m.key = change.key
      · simp [same]
      · simp [same]

theorem Sound.enterAll {s : Store} (sound : s.Sound) (now : Instant) {changes : List NameChange}
    (known : ∀ change ∈ changes, ∃ m ∈ s.members, m.key = change.key) :
    (s.enterAll now changes).Sound := by
  induction changes generalizing s with
  | nil => exact sound
  | cons change changes ih =>
    refine ih (kept_sound.entered s now change (known change List.mem_cons_self) sound) ?_
    exact fun c member => known_enter.mpr (known c (List.mem_cons_of_mem _ member))

theorem membersOf_enter {s : Store} {now : Instant} {change : NameChange} {version : String}
    (apart : change.key.version ≠ version) (kind : MemberKind) :
    (s.enter now change).membersOf version kind = s.membersOf version kind := by
  let point (m : MemberRecord) : MemberRecord :=
    if m.key = change.key then { m with lastChange := some s.ledger.size } else m
  have key (m : MemberRecord) : (point m).key = m.key := by
    dsimp only [point]
    split <;> rfl
  change (s.members.map point).filter _ = s.members.filter _
  rw [List.filter_map]
  simp only [Function.comp_def, key]
  refine (List.map_congr_left (fun m member => ?_)).trans (List.map_id _)
  obtain ⟨_, here, _⟩ := mem_membersOf.mp member
  have other : m.key ≠ change.key := fun same => apart (same ▸ here)
  exact if_neg other

/-- Names given in another version are no news for those that a version hands on. -/
theorem Sound.carriedChanges_enter {s : Store} (sound : s.Sound) {now : Instant}
    {change : NameChange} {source : String} (apart : change.key.version ≠ source)
    (target : String) (kind : MemberKind) :
    (s.enter now change).carriedChanges source target kind =
      s.carriedChanges source target kind := by
  rw [carriedChanges, carriedChanges, membersOf_enter apart]
  refine List.filterMap_congr (fun m listed => ?_)
  have member : m ∈ s.members := (List.mem_filter.mp listed).1
  have same : (s.enter now change).lastRecord? m = s.lastRecord? m := by
    cases points : m.lastChange with
    | none => simp [lastRecord?, points]
    | some last => simp [lastRecord?, points, get?_enter (sound.recorded m member last points)]
  rw [same]

theorem Sound.carriedChanges_enterAll {s : Store} (sound : s.Sound) {now : Instant}
    {changes : List NameChange} {source : String}
    (known : ∀ change ∈ changes, ∃ m ∈ s.members, m.key = change.key)
    (apart : ∀ change ∈ changes, change.key.version ≠ source) (target : String)
    (kind : MemberKind) :
    (s.enterAll now changes).carriedChanges source target kind =
      s.carriedChanges source target kind := by
  induction changes generalizing s with
  | nil => rfl
  | cons change changes ih =>
    have first := known change List.mem_cons_self
    rw [enterAll_cons, ih (kept_sound.entered s now change first sound),
      sound.carriedChanges_enter (apart change List.mem_cons_self)]
    · exact fun c member => known_enter.mpr (known c (List.mem_cons_of_mem _ member))
    · exact fun c member => apart c (List.mem_cons_of_mem _ member)

/-- A migration gathers the names of each kind when its turn comes; it might as well have gathered
all of them at the start. -/
theorem Sound.foldl_carry {s : Store} (sound : s.Sound) (now : Instant) {source target : String}
    (different : source ≠ target) (report : NamesReport) (kinds : List MemberKind) :
    kinds.foldl (carry now source target) (report, s) =
      (kinds.flatMap (s.carriedChanges source target)).foldl (offer now) (report, s) := by
  induction kinds generalizing s report with
  | nil => rfl
  | cons kind kinds ih =>
    let taken := s.accepted (s.carriedChanges source target kind)
    have known : ∀ change ∈ taken, ∃ m ∈ s.members, m.key = change.key :=
      sound.toIndexed.known_of_accepted
    have apart : ∀ change ∈ taken, change.key.version ≠ source := by
      intro change member
      obtain ⟨m, _, made⟩ := List.mem_filterMap.mp (mem_of_mem_accepted member).1
      obtain ⟨e, _, rfl⟩ := Option.map_eq_some_iff.mp made
      exact Ne.symm different
    have later : (s.enterAll now taken).carriedChanges source target =
        s.carriedChanges source target :=
      funext (sound.carriedChanges_enterAll known apart target)
    rw [List.foldl_cons, carry, List.flatMap_cons, List.foldl_append,
      sound.toIndexed.foldl_offer now report (s.carriedChanges source target kind),
      ih (sound.enterAll now known), later]

end SymbolAtlas.Store
