import SymbolAtlas.Progress
import SymbolAtlas.Proofs.KeepFirst
import SymbolAtlas.Proofs.VersionContents

/-! Two ways to hand the names of one version on to another: a migration, and a list of the names
that is imported like any other. The list has each name once and without who gave it; a migration
offers it once for every member. What a store takes of an offer is the first change of each key that
awaits a name, so both ways come to the same names, and only who gave them and when is told
differently. -/
namespace SymbolAtlas

def NameChange.signedBy (change : NameChange) (actor : String) : NameChange := { change with actor }

def NameChange.row (change : NameChange) : NameRow := ⟨change.key.name, change.final⟩

/-- What an entry says apart from who made it and when. -/
def LedgerEntry.unsigned (e : LedgerEntry) : Nat × NameKey × String :=
  (e.id, e.change.key, e.change.final)

theorem NamesReport.ofChanges_signedBy (changes : List NameChange) (actor : String) :
    ofChanges (changes.map (·.signedBy actor)) = ofChanges changes := by
  rw [ofChanges, List.foldl_map]
  rfl

namespace Store

theorem accepted_eq_firsts (s : Store) (changes : List NameChange) :
    s.accepted changes =
      firsts NameChange.key (changes.filter (fun c => s.awaitsName c.key)) := by
  induction changes with
  | nil => rfl
  | cons change changes ih =>
    rw [accepted, List.filter_cons]
    split
    · rw [firsts_cons, ih]
    · exact ih

theorem accepted_signedBy (s : Store) (changes : List NameChange) (actor : String) :
    s.accepted (changes.map (·.signedBy actor)) = (s.accepted changes).map (·.signedBy actor) := by
  rw [accepted_eq_firsts, accepted_eq_firsts, List.filter_map, firsts_map]
  rfl

theorem accepted_flatMap_firsts (s : Store) {ι : Type} (parts : ι → List NameChange)
    (is : List ι) :
    s.accepted (is.flatMap (fun i => firsts NameChange.key (parts i))) =
      s.accepted (is.flatMap parts) := by
  have blind : ∀ c d : NameChange, c.key = d.key → s.awaitsName c.key = s.awaitsName d.key :=
    fun c d same => by rw [same]
  rw [accepted_eq_firsts, accepted_eq_firsts, List.filter_flatMap, List.filter_flatMap]
  simp only [filter_firsts NameChange.key blind]
  exact firsts_flatMap_firsts NameChange.key _ is

def namedRow? (s : Store) (m : MemberRecord) : Option NameRow :=
  (s.finalName? m).map (⟨m.key.name, ·⟩)

theorem entries_collectNames (s : Store) (members : List MemberRecord) :
    (members.foldl s.collectName .empty).entries.map (fun e => (⟨e.1, e.2⟩ : NameRow)) =
      firsts NameRow.intermediate (members.filterMap s.namedRow?) := by
  induction members using List.reverseRecOn with
  | nil => rfl
  | append_singleton members m ih =>
    rw [List.foldl_append, List.filterMap_append, List.foldl_cons, List.foldl_nil]
    generalize members.foldl s.collectName .empty = names at ih ⊢
    cases named : s.finalName? m with
    | none =>
      have row : [m].filterMap s.namedRow? = [] := by simp [namedRow?, named]
      rw [row, List.append_nil, ← ih, collectName, named]
    | some final =>
      have row : [m].filterMap s.namedRow? = [⟨m.key.name, final⟩] := by simp [namedRow?, named]
      have known_iff : m.key.name ∈ (members.filterMap s.namedRow?).map NameRow.intermediate ↔
          names.contains m.key.name = true := by
        rw [← mem_map_firsts_iff, ← ih, List.map_map, Table.contains_iff_mem_keys]
        rfl
      rw [row, firsts_concat, if_congr known_iff rfl rfl, ← ih, collectName, named]
      dsimp only
      split
      · rfl
      case isFalse fresh =>
        rw [Table.entries_insert_new (Bool.eq_false_iff.mpr fresh), List.map_append]
        rfl

theorem map_row_carriedChanges (s : Store) (version target : String) (kind : MemberKind) :
    (s.carriedChanges version target kind).map NameChange.row =
      (s.membersOf version kind).filterMap s.namedRow? := by
  rw [carriedChanges, List.map_filterMap]
  refine List.filterMap_congr (fun m _ => ?_)
  simp only [namedRow?, finalName?, Option.map_map]
  rfl

/-- The listed names of a version are the first ones of those that it hands on, to whatever version
that may be. -/
theorem namesOf_eq_firsts (s : Store) (version target : String) (kind : MemberKind) :
    s.namesOf version kind =
      firsts NameRow.intermediate ((s.carriedChanges version target kind).map NameChange.row) := by
  rw [map_row_carriedChanges]
  exact s.entries_collectNames _

theorem changes_dump (s : Store) (source target actor : String) :
    (s.dump source).names.changes target actor =
      MemberKind.all.flatMap (fun kind => firsts NameChange.key
        ((s.carriedChanges source target kind).map (·.signedBy actor))) := by
  refine List.flatMap_congr (fun kind _ => ?_)
  have rows : (s.dump source).names.rows kind = s.namesOf source kind := by
    cases kind <;> rfl
  let change (row : NameRow) : NameChange := ⟨⟨target, kind, row.intermediate⟩, actor, row.final⟩
  have same : (s.carriedChanges source target kind).map (·.signedBy actor) =
      ((s.carriedChanges source target kind).map NameChange.row).map change := by
    rw [List.map_map]
    refine List.map_congr_left (fun c carried => ?_)
    obtain ⟨m, _, made⟩ := List.mem_filterMap.mp carried
    obtain ⟨e, _, rfl⟩ := Option.map_eq_some_iff.mp made
    rfl
  rw [rows, s.namesOf_eq_firsts source target, same, firsts_map NameChange.key change]
  have keys (x y : NameRow) :
      x.intermediate = y.intermediate ↔ (change x).key = (change y).key := by
    simp [change]
  exact congrArg (List.map change) (firsts_congr keys _)

theorem accepted_dump (s : Store) (source target actor : String) :
    s.accepted ((s.dump source).names.changes target actor) =
      (s.accepted (s.migration source target)).map (·.signedBy actor) := by
  rw [changes_dump, accepted_flatMap_firsts, ← accepted_signedBy, migration, List.map_flatMap]

/-- Two stores that agree but for who made the entries of their ledgers and when. -/
structure Alike (t u : Store) : Prop where
  classes : t.classes = u.classes
  members : t.members = u.members
  names : t.names = u.names
  versions : t.versions = u.versions
  entries : t.ledger.entries.map LedgerEntry.unsigned = u.ledger.entries.map LedgerEntry.unsigned

theorem Alike.refl (s : Store) : Alike s s := ⟨rfl, rfl, rfl, rfl, rfl⟩

theorem Alike.enter {t u : Store} (alike : Alike t u) (now later : Instant) (change : NameChange)
    (actor : String) : Alike (t.enter now change) (u.enter later (change.signedBy actor)) := by
  have size : t.ledger.size = u.ledger.size := by
    simpa [Ledger.size] using congrArg List.length alike.entries
  refine ⟨alike.classes, ?_, alike.names, alike.versions, ?_⟩
  · change t.members.map _ = u.members.map _
    rw [alike.members, size]
    rfl
  · change (t.ledger.entries ++ [_]).map _ = (u.ledger.entries ++ [_]).map _
    rw [List.map_append, List.map_append, alike.entries]
    change _ ++ [(t.ledger.size, _, _)] = _ ++ [(u.ledger.size, _, _)]
    rw [size]
    rfl

theorem Alike.enterAll {t u : Store} (alike : Alike t u) (now later : Instant)
    (changes : List NameChange) (actor : String) :
    Alike (t.enterAll now changes) (u.enterAll later (changes.map (·.signedBy actor))) := by
  induction changes generalizing t u with
  | nil => exact alike
  | cons change changes ih => exact ih (alike.enter now later change actor)

theorem Alike.finalName?_eq {t u : Store} (alike : Alike t u) :
    t.finalName? = u.finalName? := by
  have final (v : Store) (m : MemberRecord) : v.finalName? m =
      m.lastChange.bind (fun i =>
        ((v.ledger.entries.map LedgerEntry.unsigned)[i]?).map (·.2.2)) := by
    cases points : m.lastChange with
    | none => simp [finalName?, lastRecord?, points]
    | some i =>
      simp [finalName?, lastRecord?, points, Ledger.get?, Function.comp_def, LedgerEntry.unsigned]
  funext m
  rw [final, final, alike.entries]

theorem Alike.dump_eq {t u : Store} (alike : Alike t u) (version : String) :
    t.dump version = u.dump version := by
  have collect : t.collectName = u.collectName := by
    funext names m
    rw [collectName, collectName, alike.finalName?_eq]
  simp only [dump, namesOf, membersOf, alike.members, collect]

theorem Sound.alike_migrate_importNames {s : Store} (sound : s.Sound) {source target : String}
    (different : source ≠ target) (known : (s.version? source).isSome)
    (known' : (s.version? target).isSome) (now later : Instant) (actor : String) :
    let taken := s.accepted (s.migration source target)
    let taken' := taken.map (·.signedBy actor)
    (migrate now source target).applyTo s = (.ok (.ofChanges taken), s.enterAll now taken) ∧
      (importNames later target (s.dump source).names actor).applyTo s =
        (.ok (.ofChanges taken), s.enterAll later taken') ∧
      Alike (s.enterAll now taken) (s.enterAll later taken') := by
  intro taken taken'
  refine ⟨sound.migrate_eq different known known' now, ?_,
    (Alike.refl s).enterAll now later taken actor⟩
  rw [sound.importNames_eq known', accepted_dump, NamesReport.ofChanges_signedBy]

theorem Indexed.finalNameAt?_id {s : Store} (indexed : s.Indexed) {m : MemberRecord}
    (member : m ∈ s.members) : s.finalNameAt? m.id = s.finalName? m := by
  rw [finalNameAt?, indexed.member?_id member]
  rfl

theorem mem_migration_iff {s : Store} {source target : String} {change : NameChange} :
    change ∈ s.migration source target ↔ ∃ m ∈ s.members, m.key.version = source ∧
      ∃ e, s.lastRecord? m = some e ∧
        change = ⟨⟨target, m.key.kind, m.key.name⟩, e.change.actor, e.change.final⟩ := by
  constructor
  · intro offered
    obtain ⟨kind, _, offered⟩ := List.mem_flatMap.mp offered
    obtain ⟨m, listed, made⟩ := List.mem_filterMap.mp offered
    obtain ⟨e, last, rfl⟩ := Option.map_eq_some_iff.mp made
    obtain ⟨member, version, rfl⟩ := mem_membersOf.mp listed
    exact ⟨m, member, version, e, last, rfl⟩
  · rintro ⟨m, member, version, e, last, rfl⟩
    refine List.mem_flatMap.mpr ⟨m.key.kind, MemberKind.mem_all _, ?_⟩
    refine List.mem_filterMap.mpr ⟨m, mem_membersOf.mpr ⟨member, version, rfl⟩, ?_⟩
    rw [last]
    rfl

theorem version_of_mem_migration {s : Store} {source target : String} {change : NameChange}
    (taken : change ∈ s.accepted (s.migration source target)) : change.key.version = target := by
  obtain ⟨_, _, _, _, _, rfl⟩ := mem_migration_iff.mp (mem_of_mem_accepted taken).1
  rfl

theorem Sound.lastChange_of_finalName? {s : Store} (sound : s.Sound) {m : MemberRecord}
    (member : m ∈ s.members) (unnamed : s.finalName? m = none) : m.lastChange = none := by
  cases points : m.lastChange with
  | none => rfl
  | some last =>
    have inside : last < s.ledger.entries.length := sound.recorded m member last points
    simp [finalName?, lastRecord?, points, Ledger.get?, inside] at unnamed

/-- What a migration offers under a key is what the members of that kind and name point at. -/
theorem Coherent.lastRecord?_of_mem_migration {s : Store} (coherent : s.Coherent) (sound : s.Sound)
    {source target : String} {change : NameChange} (offered : change ∈ s.migration source target)
    {n : MemberRecord} (member : n ∈ s.members) (version : n.key.version = source)
    (key : change.key = ⟨target, n.key.kind, n.key.name⟩) :
    ∃ e, s.lastRecord? n = some e ∧ change.actor = e.change.actor ∧
      change.final = e.change.final := by
  obtain ⟨o, member', version', e, last, rfl⟩ := mem_migration_iff.mp offered
  obtain ⟨_, kind, name⟩ := NameKey.mk.inj key
  have shared : n.key = o.key := by
    calc n.key = ⟨n.key.version, n.key.kind, n.key.name⟩ := rfl
      _ = o.key := by rw [version, ← kind, ← name, ← version']
  refine ⟨e, ?_, rfl, rfl⟩
  rw [coherent.lastRecord?_eq sound member, shared, ← coherent.lastRecord?_eq sound member', last]

theorem Coherent.final_of_mem_migration {s : Store} (coherent : s.Coherent) (sound : s.Sound)
    {source target : String} {change : NameChange} (offered : change ∈ s.migration source target)
    {n : MemberRecord} (member : n ∈ s.members) (version : n.key.version = source)
    (key : change.key = ⟨target, n.key.kind, n.key.name⟩) :
    s.finalName? n = some change.final := by
  obtain ⟨e, last, _, final⟩ :=
    coherent.lastRecord?_of_mem_migration sound offered member version key
  simp [finalName?, last, final]

theorem exists_accepted_migration {s : Store} {source target : String} {n : MemberRecord}
    (member : n ∈ s.members) (version : n.key.version = source)
    (awaits : s.awaitsName ⟨target, n.key.kind, n.key.name⟩ = true)
    (named : (s.finalName? n).isSome) :
    ∃ change ∈ s.accepted (s.migration source target),
      change.key = ⟨target, n.key.kind, n.key.name⟩ := by
  obtain ⟨e, last⟩ := Option.isSome_iff_exists.mp (Option.isSome_map ▸ named)
  refine exists_accepted_iff.mpr ⟨awaits, ?_⟩
  exact ⟨_, mem_migration_iff.mpr ⟨n, member, version, e, last, rfl⟩, rfl⟩

/-- For a key that awaits a name, a migration takes the name that the key has in the source, if it
has one there. -/
theorem Coherent.find?_accepted_migration {s : Store} (coherent : s.Coherent) (sound : s.Sound)
    {source target : String} {n : MemberRecord} (member : n ∈ s.members)
    (version : n.key.version = source) {key : NameKey}
    (handed : key = ⟨target, n.key.kind, n.key.name⟩) (awaits : s.awaitsName key = true) :
    ((s.accepted (s.migration source target)).reverse.find? (fun c => key = c.key)).map
      NameChange.final = s.finalName? n := by
  cases taken : (s.accepted (s.migration source target)).reverse.find? (fun c => key = c.key) with
  | some change =>
    have listed := List.mem_reverse.mp (List.mem_of_find?_eq_some taken)
    have same : key = change.key := by simpa using List.find?_some taken
    exact (coherent.final_of_mem_migration sound (mem_of_mem_accepted listed).1 member version
      (same.symm.trans handed)).symm
  | none =>
    cases named : s.finalName? n with
    | none => rfl
    | some final =>
      obtain ⟨c, kept, same⟩ := exists_accepted_migration member version (handed ▸ awaits)
        (Option.isSome_iff_exists.mpr ⟨final, named⟩)
      exact absurd (decide_eq_true (handed.trans same.symm))
        (List.find?_eq_none.mp taken c (List.mem_reverse.mpr kept))

/-- After a migration into a version without names a member has the name of the members that it
shares kind and name with in the other version. -/
theorem finalName?_migrated {s : Store} (coherent : s.Coherent) (sound : s.Sound)
    {source target : String} (now : Instant)
    (unnamed : ∀ m ∈ s.members, m.key.version = target → s.finalName? m = none) :
    let t := s.enterAll now (s.accepted (s.migration source target))
    ∀ m ∈ t.members, m.key.version = target → ∀ n ∈ s.members, n.key.version = source →
      m.label = n.label → t.finalName? m = s.finalName? n := by
  intro t m member version n member' version' same
  obtain ⟨old, hOld, key, id⟩ : ∃ old ∈ s.members, old.key = m.key ∧ old.id = m.id := by
    obtain ⟨point, members⟩ := (repointed_enterAll s now _).members
    obtain ⟨old, hOld, rfl⟩ := List.mem_map.mp (members ▸ member)
    exact ⟨old, hOld, rfl, rfl⟩
  have before : s.finalNameAt? m.id = none := by
    rw [← id, sound.toIndexed.finalNameAt?_id hOld]
    exact unnamed old hOld (key ▸ version)
  have awaits : s.awaitsName m.key = true := (sound.toIndexed.awaitsName_iff _).mpr
    ⟨⟨old, hOld, key⟩, fun o hO at_key => sound.lastChange_of_finalName? hO
      (unnamed o hO (at_key.symm ▸ version))⟩
  have handed : m.key = ⟨target, n.key.kind, n.key.name⟩ := by
    obtain ⟨kind, name⟩ := Prod.mk.inj same
    rw [← version, ← kind, ← name]
  have found : s.member? m.id = some old := id ▸ sound.toIndexed.member?_id hOld
  calc t.finalName? m = t.finalNameAt? m.id :=
        ((sound.toIndexed.enterAll now _).finalNameAt?_id member).symm
    _ = ((s.accepted (s.migration source target)).reverse.find? (fun c => m.key = c.key)).map
          NameChange.final := by
        rw [sound.finalNameAt?_enterAll found now sound.toIndexed.known_of_accepted, before, key,
          Option.or_none]
    _ = s.finalName? n := coherent.find?_accepted_migration sound member' version' handed awaits

theorem map_eq_of_map_eq {f : α → γ} {g : β → γ} {h : α → δ} {k : β → δ} {xs : List α}
    {ys : List β} (same : xs.map f = ys.map g)
    (follows : ∀ x ∈ xs, ∀ y ∈ ys, f x = g y → h x = k y) : xs.map h = ys.map k := by
  induction xs generalizing ys with
  | nil =>
    rw [List.map_eq_nil_iff.mp same.symm]
    rfl
  | cons x xs ih =>
    cases ys with
    | nil => cases same
    | cons y ys =>
      rw [List.map_cons, List.map_cons, List.cons.injEq] at same
      have rest := ih same.2 (fun x' hx y' hy =>
        follows x' (List.mem_cons_of_mem _ hx) y' (List.mem_cons_of_mem _ hy))
      rw [List.map_cons, List.map_cons, rest,
        follows x List.mem_cons_self y List.mem_cons_self same.1]

theorem labels_membersOf (s : Store) (version : String) (kind : MemberKind) :
    (s.membersOf version kind).map MemberRecord.label =
      (s.labelsIn version).filter (fun label => label.1 = kind) := by
  rw [labelsIn, List.filter_map, List.filter_filter]
  rfl

theorem namesOf_congr {s t : Store} {source target : String}
    (labels : t.labelsIn target = s.labelsIn source)
    (agree : ∀ m ∈ t.members, m.key.version = target → ∀ n ∈ s.members, n.key.version = source →
      m.label = n.label → t.finalName? m = s.finalName? n) (kind : MemberKind) :
    t.namesOf target kind = s.namesOf source kind := by
  have rows : (t.membersOf target kind).map t.namedRow? =
      (s.membersOf source kind).map s.namedRow? := by
    refine map_eq_of_map_eq (f := MemberRecord.label) (g := MemberRecord.label) ?_ ?_
    · rw [labels_membersOf, labels_membersOf, labels]
    · intro m listed n listed' same
      obtain ⟨member, here, _⟩ := mem_membersOf.mp listed
      obtain ⟨member', here', _⟩ := mem_membersOf.mp listed'
      have name : m.key.name = n.key.name := (Prod.mk.inj same).2
      rw [namedRow?, namedRow?, name, agree m member here n member' here' same]
  have collected (u : Store) (version : String) : u.namesOf version kind = firsts
      NameRow.intermediate (((u.membersOf version kind).map u.namedRow?).filterMap id) := by
    rw [List.filterMap_map]
    exact u.entries_collectNames _
  rw [collected, collected, rows]

theorem Sound.dump_source_migrated {s : Store} (sound : s.Sound) {source target : String}
    (different : source ≠ target) (now : Instant) :
    (s.enterAll now (s.accepted (s.migration source target))).dump source = s.dump source := by
  have apart : ∀ change ∈ s.accepted (s.migration source target), change.key.version ≠ source :=
    fun change taken => version_of_mem_migration taken ▸ different.symm
  simp only [dump, namesOf_eq_firsts _ source target,
    sound.carriedChanges_enterAll sound.toIndexed.known_of_accepted apart]

/-- Into a version of the same labels and without names, a migration carries the whole list. -/
theorem dump_migrated {s : Store} (coherent : s.Coherent) (sound : s.Sound)
    {source target : String} (now : Instant) (labels : s.labelsIn target = s.labelsIn source)
    (unnamed : ∀ m ∈ s.members, m.key.version = target → s.finalName? m = none) :
    ((s.enterAll now (s.accepted (s.migration source target))).dump target).names =
      (s.dump source).names := by
  let t := s.enterAll now (s.accepted (s.migration source target))
  have keys : t.members.map MemberRecord.key = s.members.map MemberRecord.key :=
    (repointed_enterAll s now _).map_eq MemberRecord.key (fun _ _ => rfl)
  have listed := namesOf_congr ((labelsIn_congr keys target).trans labels)
    (finalName?_migrated coherent sound now unnamed)
  exact NameExport.mk.injEq .. |>.mpr ⟨listed .field, listed .method, listed .parameter⟩

/-- After any run the names of one version come to another in the same way by a migration as by a
list of them, and to a version of the same graph that has none they come completely. -/
theorem migrate_alike_importNames_dump (steps : List Step) {source target : String}
    (different : source ≠ target)
    (known : ((replay Step.run steps .empty).version? source).isSome)
    (known' : ((replay Step.run steps .empty).version? target).isSome)
    (now later : Instant) (actor : String) :
    let s := replay Step.run steps .empty
    ∃ report t u,
      (migrate now source target).applyTo s = (.ok report, t) ∧
      (importNames later target (s.dump source).names actor).applyTo s = (.ok report, u) ∧
      s.ledger.entries <+: t.ledger.entries ∧ s.ledger.entries <+: u.ledger.entries ∧
      Alike t u ∧ t.dump source = s.dump source ∧
      ∀ g, ImportedFrom steps source g → ImportedFrom steps target g →
        (∀ m ∈ s.members, m.key.version = target → s.finalName? m = none) →
        (t.dump target).names = (s.dump source).names ∧
          (u.dump target).names = (s.dump source).names := by
  intro s
  have sound : s.Sound := sound_of_replay .empty steps
  obtain ⟨migrated, listed, alike⟩ :=
    sound.alike_migrate_importNames different known known' now later actor
  refine ⟨_, _, _, migrated, listed, ?_, ?_, alike, sound.dump_source_migrated different now,
    fun g origin origin' unnamed => ?_⟩
  · exact entries_enterAll s now _ ▸ List.prefix_append _ _
  · exact entries_enterAll s later _ ▸ List.prefix_append _ _
  · have labels : s.labelsIn target = s.labelsIn source :=
      (holds_of_importedFrom origin').labels.trans (holds_of_importedFrom origin).labels.symm
    have carried := dump_migrated (coherent_of_replay steps) sound now labels unnamed
    exact ⟨carried, alike.dump_eq target ▸ carried⟩

def common : Graph :=
  match Graph.read "a Base\n\tc (I)V func_2_c\n\td field_3_d\nb Sub\n\tc (I)V func_2_c\n" with
  | .error _ => .empty
  | .ok graph => graph

/-- The same graph twice, and names only for the first of the two versions. -/
def commonTwice : List Step :=
  let name (now : Instant) (kind : MemberKind) (intermediate final : String) : Step :=
    .operation (.rename (fun _ => false) now "ann" ⟨⟨"1", kind, intermediate⟩, final, false⟩)
  [.operation (.importGraph ⟨0, 0⟩ "1" common "0"), name ⟨10, 0⟩ .method "func_2_c" "open",
    name ⟨20, 0⟩ .field "field_3_d" "depth", .operation (.importGraph ⟨90, 0⟩ "2" common "1")]

theorem migrate_alike_importNames_dump_common :
    let s := replay Step.run commonTwice .empty
    ∃ t u, (migrate ⟨120, 0⟩ "1" "2").applyTo s = (.ok ⟨1, 1, 0⟩, t) ∧
      (importNames ⟨150, 0⟩ "2" (s.dump "1").names "bob").applyTo s = (.ok ⟨1, 1, 0⟩, u) ∧
      Alike t u ∧ (s.dump "2").names = ⟨[], [], []⟩ ∧
      (t.dump "2").names = ⟨[⟨"field_3_d", "depth"⟩], [⟨"func_2_c", "open"⟩], []⟩ := by
  intro s
  have first : ImportedFrom commonTwice "1" common :=
    ⟨[], _, _, _, ⟨2, 0, 1, 2, 2⟩, rfl, by decide +kernel⟩
  have second : ImportedFrom commonTwice "2" common :=
    ⟨commonTwice.take 3, _, _, _, ⟨2, 0, 1, 2, 2⟩, rfl, by decide +kernel⟩
  obtain ⟨report, t, u, migrated, listed, _, _, alike, _, complete⟩ :=
    migrate_alike_importNames_dump commonTwice (show "1" ≠ "2" by decide) (by decide +kernel)
      (by decide +kernel) ⟨120, 0⟩ ⟨150, 0⟩ "bob"
  have counted : ((migrate ⟨120, 0⟩ "1" "2").applyTo s).1 = .ok ⟨1, 1, 0⟩ := by decide +kernel
  obtain rfl : report = ⟨1, 1, 0⟩ := Except.ok.inj ((congrArg Prod.fst migrated).symm.trans counted)
  have carried := (complete common first second (by decide +kernel)).1
  exact ⟨t, u, migrated, listed, alike, by decide +kernel, carried.trans (by decide +kernel)⟩

end Store

end SymbolAtlas
