import SymbolAtlas.Progress
import SymbolAtlas.Proofs.AppendOnly
import SymbolAtlas.Proofs.ImportContents
import SymbolAtlas.Store.Lookup

/-! Versions do not disturb each other. They share the lists of a store, the ledger and the name
index, but whatever is read of a version is read off its own classes, members and entries, and an
operation on one version changes none of another's. A migration reads the version that it copies
from and changes the other alone. -/
namespace SymbolAtlas

/-- The version that an operation changes; a promotion is about all of them. -/
def Operation.target? : Operation → Option String
  | importGraph _ version _ _ => some version
  | importNames _ version _ _ => some version
  | migrate _ _ target => some target
  | promote _ => none
  | rename _ _ _ request => some request.key.version
  | setLocks _ _ key _ => some key.version

namespace Store

/-- Everything that can be read of a version is the same in both stores. -/
structure ReadsAlike (version : String) (s t : Store) : Prop where
  resolve : ∀ kind name, t.resolve ⟨kind, name, version⟩ = s.resolve ⟨kind, name, version⟩
  resolveClass : ∀ name, t.resolveClass version name = s.resolveClass version name
  classByObfuscated : ∀ name, t.classByObfuscated? version name = s.classByObfuscated? version name
  classesBySuffix : ∀ suffix, t.classesBySuffix version suffix = s.classesBySuffix version suffix
  membersOf : ∀ kind, t.membersOf version kind = s.membersOf version kind
  membersNamed : ∀ key, key.version = version → t.membersNamed key = s.membersNamed key
  findMembers : ∀ scope key, scope.version = version →
    t.findMembers scope key = s.findMembers scope key
  finalName : ∀ m ∈ s.members, m.key.version = version → t.finalName? m = s.finalName? m
  history : ∀ key, key.version = version → t.history key = s.history key
  summarize : t.summarize version = s.summarize version
  dump : t.dump version = s.dump version
  record : t.version? version = s.version? version

/-- The classes, members and entries of a version are the same in both stores. -/
structure SameVersion (version : String) (s t : Store) : Prop where
  classes : t.classes.filter (fun c => c.version = version) =
    s.classes.filter (fun c => c.version = version)
  members : t.members.filter (fun m => m.key.version = version) =
    s.members.filter (fun m => m.key.version = version)
  entries : t.ledger.entries.filter (fun e => e.change.key.version = version) =
    s.ledger.entries.filter (fun e => e.change.key.version = version)
  pointed : ∀ m ∈ s.members, m.key.version = version → t.lastRecord? m = s.lastRecord? m
  record : t.version? version = s.version? version

theorem SameVersion.refl (version : String) (s : Store) : SameVersion version s s :=
  ⟨rfl, rfl, rfl, fun _ _ _ => rfl, rfl⟩

theorem filter_eq_of_narrower {p q : α → Bool} {xs ys : List α} (same : ys.filter p = xs.filter p)
    (narrower : ∀ x, q x = true → p x = true) : ys.filter q = xs.filter q := by
  have through (zs : List α) : zs.filter q = (zs.filter p).filter q := by
    rw [List.filter_filter]
    refine List.filter_congr (fun x _ => ?_)
    cases chosen : q x with
    | false => rfl
    | true => rw [narrower x chosen, Bool.true_and]
  rw [through ys, through xs, same]

namespace SameVersion

variable {version : String} {s t : Store}

theorem finalName?_eq (same : SameVersion version s t) {m : MemberRecord} (member : m ∈ s.members)
    (here : m.key.version = version) : t.finalName? m = s.finalName? m := by
  rw [finalName?, finalName?, same.pointed m member here]

theorem membersOf_eq (same : SameVersion version s t) (kind : MemberKind) :
    t.membersOf version kind = s.membersOf version kind :=
  filter_eq_of_narrower same.members (fun m chosen => by simp_all)

theorem membersNamed_eq (same : SameVersion version s t) (hs : s.Indexed) (ht : t.Indexed)
    {key : NameKey} (here : key.version = version) : t.membersNamed key = s.membersNamed key := by
  rw [hs.membersNamed_eq, ht.membersNamed_eq]
  refine filter_eq_of_narrower same.members (fun m chosen => ?_)
  rw [decide_eq_true_eq] at chosen ⊢
  rw [chosen, here]

theorem classesBySuffix_eq (same : SameVersion version s t) (suffix : String) :
    t.classesBySuffix version suffix = s.classesBySuffix version suffix :=
  filter_eq_of_narrower same.classes (fun c chosen => by simp_all)

theorem classByObfuscated?_eq (same : SameVersion version s t) (name : String) :
    t.classByObfuscated? version name = s.classByObfuscated? version name := by
  rw [classByObfuscated?, classByObfuscated?, ← List.head?_filter, ← List.head?_filter]
  exact congrArg List.head? (filter_eq_of_narrower same.classes (fun c chosen => by simp_all))

theorem resolveClass_eq (same : SameVersion version s t) (name : String) :
    t.resolveClass version name = s.resolveClass version name := by
  simp only [resolveClass, classMatches, same.classByObfuscated?_eq, same.classesBySuffix_eq]

theorem findMembers_eq (same : SameVersion version s t) (hs : s.Indexed) (ht : t.Indexed)
    {scope : Scope} (here : scope.version = version) (key : MemberKey) :
    t.findMembers scope key = s.findMembers scope key := by
  subst here
  have tested (key : MemberKey) :
      ((t.membersOf scope.version scope.kind).filter scope.admits).filter (t.matchesKey key) =
        ((s.membersOf scope.version scope.kind).filter scope.admits).filter (s.matchesKey key) := by
    rw [same.membersOf_eq]
    refine List.filter_congr (fun m member => ?_)
    obtain ⟨listed, here, _⟩ := mem_membersOf.mp (List.mem_filter.mp member).1
    cases key <;> simp only [matchesKey, same.finalName?_eq listed here]
  cases key with
  | intermediate name =>
    let named : NameKey := ⟨scope.version, scope.kind, name⟩
    have found : t.membersNamed named = s.membersNamed named := same.membersNamed_eq hs ht rfl
    exact congrArg (List.filter scope.admits) found
  | number number => exact tested _
  | obfuscated name => exact tested _
  | final name => exact tested _

theorem searchMembers_eq (same : SameVersion version s t) (hs : s.Indexed) (ht : t.Indexed)
    {scope : Scope} (here : scope.version = version) (name : String) :
    t.searchMembers scope name = s.searchMembers scope name := by
  have found : (memberKeys name).map (t.findMembers scope) =
      (memberKeys name).map (s.findMembers scope) :=
    List.map_congr_left (fun key _ => same.findMembers_eq hs ht here key)
  rw [searchMembers, searchMembers, found]

theorem resolve_eq (same : SameVersion version s t) (hs : s.Indexed) (ht : t.Indexed)
    (kind : SymbolKind) (name : String) :
    t.resolve ⟨kind, name, version⟩ = s.resolve ⟨kind, name, version⟩ := by
  have search (kind : MemberKind) (owner : Option Nat) (name : String) :
      t.searchMembers ⟨version, kind, owner⟩ name = s.searchMembers ⟨version, kind, owner⟩ name :=
    same.searchMembers_eq hs ht rfl name
  simp only [resolve, resolveMember, same.resolveClass_eq, search]

theorem summarizeKind_eq (same : SameVersion version s t) (kind : MemberKind) :
    t.summarizeKind version kind = s.summarizeKind version kind := by
  have named : ((s.membersOf version kind).filter needsName).filter t.isNamed =
      ((s.membersOf version kind).filter needsName).filter s.isNamed := by
    refine List.filter_congr (fun m member => ?_)
    obtain ⟨listed, here, _⟩ := mem_membersOf.mp (List.mem_filter.mp member).1
    rw [isNamed, isNamed, same.finalName?_eq listed here]
  simp only [summarizeKind, same.membersOf_eq, named]

theorem namesOf_eq (same : SameVersion version s t) (kind : MemberKind) :
    t.namesOf version kind = s.namesOf version kind := by
  have collected : (s.membersOf version kind).foldl t.collectName .empty =
      (s.membersOf version kind).foldl s.collectName .empty := by
    refine List.foldl_ext _ _ _ (fun names m member => ?_)
    obtain ⟨listed, here, _⟩ := mem_membersOf.mp member
    rw [collectName, collectName, same.finalName?_eq listed here]
  rw [namesOf, namesOf, same.membersOf_eq, collected]

theorem readsAlike (same : SameVersion version s t) (hs : s.Indexed) (ht : t.Indexed) :
    ReadsAlike version s t where
  resolve := same.resolve_eq hs ht
  resolveClass := same.resolveClass_eq
  classByObfuscated := same.classByObfuscated?_eq
  classesBySuffix := same.classesBySuffix_eq
  membersOf := same.membersOf_eq
  membersNamed _ here := same.membersNamed_eq hs ht here
  findMembers _ key here := same.findMembers_eq hs ht here key
  finalName _ member here := same.finalName?_eq member here
  history key here := by
    refine filter_eq_of_narrower same.entries (fun e chosen => ?_)
    rw [decide_eq_true_eq] at chosen ⊢
    rw [chosen, here]
  summarize := by simp only [summarize, same.summarizeKind_eq]
  dump := by simp only [dump, same.namesOf_eq]
  record := same.record

end SameVersion

/-- Members of other versions are none of a change's business. -/
theorem filter_mapKey {version : String} {key : NameKey} (other : key.version ≠ version) (s : Store)
    {f : MemberRecord → MemberRecord} (settles : Settles f) :
    (s.mapKey key f).members.filter (fun m => m.key.version = version) =
      s.members.filter (fun m => m.key.version = version) := by
  have blind : (fun m : MemberRecord => decide (m.key.version = version)) ∘
      (fun m => if m.key = key then f m else m) = fun m => decide (m.key.version = version) := by
    funext m
    simp only [Function.comp, (settles_if settles key m).1]
  rw [mapKey, List.filter_map, blind]
  refine (List.map_congr_left (fun m member => if_neg (fun same => other ?_))).trans (List.map_id _)
  rw [← same]
  exact of_decide_eq_true (List.mem_filter.mp member).2

theorem filter_enterAll {version : String} {changes : List NameChange}
    (others : ∀ change ∈ changes, change.key.version ≠ version) (s : Store) (now : Instant) :
    (s.enterAll now changes).members.filter (fun m => m.key.version = version) =
      s.members.filter (fun m => m.key.version = version) := by
  induction changes generalizing s with
  | nil => rfl
  | cons change changes ih =>
    rw [enterAll_cons, ih (fun c member => others c (List.mem_cons_of_mem _ member))]
    exact filter_mapKey (others change List.mem_cons_self)
      { s with ledger := s.ledger.append now change } (settles_lastChange _)

theorem Sound.sameVersion_enterAll {s : Store} (sound : s.Sound) {version : String}
    {changes : List NameChange} (others : ∀ change ∈ changes, change.key.version ≠ version)
    (now : Instant) : SameVersion version s (s.enterAll now changes) := by
  have repointed := repointed_enterAll s now changes
  refine ⟨?_, filter_enterAll others s now, ?_, fun m member _ => ?_, ?_⟩
  · rw [repointed.classes]
  · rw [entries_enterAll, List.filter_append]
    have none : (changes.mapIdx (fun i change => (⟨s.ledger.size + i, change, now⟩ : LedgerEntry))).filter
        (fun e => e.change.key.version = version) = [] := by
      refine List.filter_eq_nil_iff.mpr (fun e member here => ?_)
      obtain ⟨i, bound, rfl⟩ := List.mem_mapIdx.mp member
      exact others _ (List.getElem_mem bound) (of_decide_eq_true here)
    rw [none, List.append_nil]
  · rw [lastRecord?, lastRecord?]
    cases points : m.lastChange with
    | none => rfl
    | some change =>
      have inside : change < s.ledger.entries.length := sound.recorded m member change points
      rw [Option.bind_some, Option.bind_some, Ledger.get?, entries_enterAll,
        List.getElem?_append_left inside]
      rfl
  · rw [version?, repointed.versions]
    rfl

theorem sameVersion_relock {version : String} {key : NameKey} (other : key.version ≠ version)
    (s : Store) (locked : Bool) : SameVersion version s (s.relock key locked) :=
  ⟨rfl, filter_mapKey other s (settles_locked locked), rfl, fun _ _ _ => rfl, rfl⟩

theorem sameVersion_withVersion {g : Graph} {other version : String} {pending : List PendingClass}
    (made : g.pendingClasses other = .ok pending) (apart : other ≠ version) (s : Store)
    (now : Instant) (digest : String) :
    SameVersion version s (s.withVersion now other digest pending) := by
  have grown := grown_withVersion (Graph.pendingClasses_sound made) s now digest
  obtain ⟨added, members, newcomers⟩ := grown.members
  refine ⟨?_, ?_, ?_, fun m _ _ => ?_, ?_⟩
  · rw [classes_withVersion, List.filter_append]
    have none : (pending.mapIdx (fun i c =>
        (⟨s.classes.length + i, c.intermediate, c.obfuscated, other⟩ : ClassRecord))).filter
        (fun c => c.version = version) = [] := by
      refine List.filter_eq_nil_iff.mpr (fun c member here => ?_)
      obtain ⟨i, bound, rfl⟩ := List.mem_mapIdx.mp member
      exact apart (of_decide_eq_true here)
    rw [none, List.append_nil]
  · rw [members, List.filter_append]
    have none : added.filter (fun m => m.key.version = version) = [] := by
      refine List.filter_eq_nil_iff.mpr (fun m member here => apart ?_)
      rw [← (newcomers m member).version]
      exact of_decide_eq_true here
    rw [none, List.append_nil]
  · rw [grown.ledger]
  · rw [lastRecord?, lastRecord?, grown.ledger]
  · rw [version?, grown.versions, List.find?_append]
    have missed : [(⟨digest, now, s.latest?.isNone, other⟩ : VersionRecord)].find?
        (fun v => v.version = version) = none := by
      simp [apart]
    rw [missed, Option.or_none]
    rfl

end Store

namespace Operation

open Store

theorem version_of_entered {s : Store} {op : Operation} {change : NameChange}
    (entered : change ∈ op.entered s) : op.target? = some change.key.version := by
  cases op with
  | rename admins now actor request =>
    obtain ⟨rfl, _⟩ := allowed_of_entered entered
    rfl
  | importNames now version names actor =>
    have offers := (mem_of_mem_accepted entered).1
    rw [offered] at offers
    split at offers
    · obtain ⟨kind, _, listed⟩ := List.mem_flatMap.mp offers
      obtain ⟨row, _, rfl⟩ := List.mem_map.mp listed
      rfl
    · cases offers
  | migrate now source target =>
    have offers := (mem_of_mem_accepted entered).1
    rw [offered] at offers
    split at offers
    · obtain ⟨kind, _, carried⟩ := List.mem_flatMap.mp offers
      obtain ⟨m, _, carried⟩ := List.mem_filterMap.mp carried
      obtain ⟨e, _, rfl⟩ := Option.map_eq_some_iff.mp carried
      rfl
    · cases offers
  | _ => cases (mem_of_mem_accepted entered).1

theorem sameVersion_run {s : Store} (sound : s.Sound) {op : Operation} {target version : String}
    (aims : op.target? = some target) (other : version ≠ target) :
    SameVersion version s (op.run s) := by
  rcases op.course sound with ⟨now, ran⟩ | ⟨_, nameless⟩
  · rw [ran]
    refine sound.sameVersion_enterAll (fun change entered here => other ?_) now
    have same := aims.symm.trans (version_of_entered entered)
    rw [← here]
    exact (Option.some.inj same).symm
  · generalize op.run s = t at nameless
    cases nameless with
    | refused => exact .refl version s
    | imported pending fresh made =>
      cases aims
      exact sameVersion_withVersion made (Ne.symm other) s _ _
    | promoted => cases aims
    | relocked =>
      cases aims
      exact sameVersion_relock (Ne.symm other) s _

end Operation

namespace Store

/-- After any run, an operation on one version leaves all that can be read of another version as it
was. -/
theorem readsAlike_of_other_target {start : Store} (origin : Origin start) (steps : List Step)
    (op : Operation) {target version : String} (aims : op.target? = some target)
    (other : version ≠ target) :
    let s := replay Step.run steps start
    ReadsAlike version s (op.run s) := by
  intro s
  have sound : s.Sound := sound_of_replay origin steps
  exact (op.sameVersion_run sound aims other).readsAlike sound.toIndexed (sound.run op).toIndexed

/-- A migration names a method of its target, and its source is read as before. -/
theorem readsAlike_of_other_target_migrate :
    let s := replay Step.run twoVersions .empty
    let op := Operation.migrate ⟨120, 0⟩ "1" "2"
    (op.run s).dump "2" ≠ s.dump "2" ∧ (op.run s).dump "1" = s.dump "1" ∧
      (op.run s).resolve ⟨.member .method, "net.Sub.open", "1"⟩ =
        s.resolve ⟨.member .method, "net.Sub.open", "1"⟩ := by
  intro s op
  have alike : ReadsAlike "1" s (op.run s) :=
    readsAlike_of_other_target .empty twoVersions op rfl (by decide)
  exact ⟨by decide +kernel, alike.dump, alike.resolve _ _⟩

end Store

end SymbolAtlas
