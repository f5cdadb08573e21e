import SymbolAtlas.Proofs.Fallible
import SymbolAtlas.Proofs.NameIndex

/-! What promoting and importing make of a store, without the loops. An import is decided before it
stores anything: the graph is turned into pending classes, and these become one class record each
and a run of member records, of which parameters are owned by the method in front of them. -/
namespace SymbolAtlas

def MemberRecord.ownedBy (m : MemberRecord) (owner : Nat) : MemberRecord :=
  { m with owner := some owner }

def PendingMethod.records (owner position : Nat) (m : PendingMethod) : List MemberRecord :=
  m.record.ownedBy owner :: m.parameters.map (·.ownedBy position)

/-- Methods of one class one after another, the first at a position. -/
def methodRecords (owner : Nat) : Nat → List PendingMethod → List MemberRecord
  | _, [] => []
  | position, m :: methods =>
    m.records owner position ++
      methodRecords owner (position + (m.parameters.length + 1)) methods

namespace PendingClass

/-- Fields, then methods with their parameters, the first of all at a position. -/
def records (owner position : Nat) (c : PendingClass) : List MemberRecord :=
  c.fields.map (·.ownedBy owner) ++
    methodRecords owner (position + c.fields.length) c.methods

def report (c : PendingClass) : ImportReport :=
  ⟨1, c.constructors, c.fields.length, c.methods.length,
    (c.methods.flatMap PendingMethod.parameters).length⟩

end PendingClass

namespace Store

def insertMembers (s : Store) (members : List MemberRecord) : Store :=
  replay (fun m s => (s.insertMember m).1) members s

def insertPending (version : String) (c : PendingClass) (s : Store) : Store :=
  (s.insertClass version c.obfuscated c.intermediate).1.insertMembers
    (c.records s.classes.length s.members.length)

/-- The store after a version has been added with its classes. -/
def withVersion (s : Store) (now : Instant) (version digest : String)
    (pending : List PendingClass) : Store :=
  replay (insertPending version) pending
    { s with versions := s.versions ++ [⟨digest, now, s.latest?.isNone, version⟩] }

def promoteTo (s : Store) (target : Nat) : Store :=
  { s with versions := s.versions.mapIdx (fun i v => { v with latest := i == target }) }

theorem insertMembers_append (s : Store) (xs ys : List MemberRecord) :
    s.insertMembers (xs ++ ys) = (s.insertMembers xs).insertMembers ys :=
  List.foldl_append

theorem members_insertMembers (s : Store) (members : List MemberRecord) :
    (s.insertMembers members).members =
      s.members ++ members.mapIdx (fun i m => { m with id := s.members.length + i }) := by
  induction members generalizing s with
  | nil => simp [insertMembers, replay]
  | cons m members ih =>
    change ((s.insertMember m).1.insertMembers members).members = _
    rw [ih]
    simp [insertMember, List.mapIdx_cons, Nat.add_assoc, Nat.add_comm 1]

theorem frame_insertMembers (s : Store) (members : List MemberRecord) :
    (s.insertMembers members).classes = s.classes ∧
      (s.insertMembers members).ledger = s.ledger ∧
      (s.insertMembers members).versions = s.versions := by
  induction members generalizing s with
  | nil => exact ⟨rfl, rfl, rfl⟩
  | cons m members ih => exact ih (s.insertMember m).1

theorem length_insertMembers (s : Store) (members : List MemberRecord) :
    (s.insertMembers members).members.length = s.members.length + members.length := by
  simp [members_insertMembers]

theorem Indexed.insertMembers {s : Store} (indexed : s.Indexed) (members : List MemberRecord) :
    (s.insertMembers members).Indexed :=
  replay_invariant Indexed (fun m _ indexed => indexed.insertMember m) members s indexed

theorem applyTo_addMember (m : MemberRecord) (s : Store) :
    (addMember m).applyTo s = (.ok s.members.length, (s.insertMember m).1) := rfl

theorem applyTo_forM_addMember (owner : Nat) (members : List MemberRecord) (s : Store) :
    (members.forM (fun m => do let _ ← addMember { m with owner := some owner })).applyTo s =
      (.ok (), s.insertMembers (members.map (·.ownedBy owner))) := by
  induction members generalizing s with
  | nil => rfl
  | cons m members ih => exact ih (s.insertMember (m.ownedBy owner)).1

theorem applyTo_addPendingMethod (owner : Nat) (m : PendingMethod) (s : Store) :
    (addPendingMethod owner m).applyTo s =
      (.ok (), s.insertMembers (m.records owner s.members.length)) := by
  rw [addPendingMethod, Update.applyTo_bind_ok (applyTo_addMember _ s), applyTo_forM_addMember]
  rfl

theorem applyTo_forM_addPendingMethod (owner : Nat) (methods : List PendingMethod) (s : Store) :
    (methods.forM (addPendingMethod owner)).applyTo s =
      (.ok (), s.insertMembers (methodRecords owner s.members.length methods)) := by
  induction methods generalizing s with
  | nil => rfl
  | cons m methods ih =>
    change (addPendingMethod owner m >>= fun _ =>
      methods.forM (addPendingMethod owner)).applyTo s = _
    rw [Update.applyTo_bind_ok (applyTo_addPendingMethod owner m s), ih, length_insertMembers,
      ← insertMembers_append]
    simp [methodRecords, PendingMethod.records]

theorem applyTo_addPendingClass (version : String) (c : PendingClass) (s : Store) :
    (addPendingClass version c).applyTo s = (.ok c.report, insertPending version c s) := by
  have opened : (addClass version c.obfuscated c.intermediate).applyTo s =
      (.ok s.classes.length, (s.insertClass version c.obfuscated c.intermediate).1) := rfl
  rw [addPendingClass, Update.applyTo_bind_ok opened,
    Update.applyTo_bind_ok (applyTo_forM_addMember s.classes.length c.fields _),
    Update.applyTo_bind_ok (applyTo_forM_addPendingMethod s.classes.length c.methods _),
    ← insertMembers_append, length_insertMembers, List.length_map]
  rfl

theorem applyTo_importGraph (now : Instant) (version : String) (g : Graph) (digest : String)
    (s : Store) :
    (importGraph now version g digest).applyTo s =
      if (s.version? version).isSome then (.error (.versionAlreadyImported version), s)
      else
        match g.pendingClasses version with
        | .error fault => (.error fault, s)
        | .ok pending =>
          if version = latestWord then
            (.error (.invalidQuery s!"`{latestWord}` is reserved and cannot name a version"), s)
          else
            (.ok ((pending.map PendingClass.report).foldl .add .zero),
              s.withVersion now version digest pending) := by
  rw [importGraph, Update.applyTo_bind_ok (Update.applyTo_look s)]
  split
  · rfl
  case isFalse fresh =>
    rw [Update.applyTo_bind, Update.applyTo_ask]
    cases g.pendingClasses version with
    | error fault => rfl
    | ok pending =>
      dsimp only
      split
      case isTrue reserved =>
        subst reserved
        rfl
      case isFalse allowed =>
        have added : (addVersion now version digest).applyTo s =
            (.ok (), { s with
              versions := s.versions ++ [⟨digest, now, s.latest?.isNone, version⟩] }) := by
          rw [addVersion, Update.applyTo_bind_ok (Update.applyTo_look s), if_neg allowed,
            if_neg fresh]
          rfl
        rw [Update.applyTo_bind_ok added,
          Update.applyTo_bind_ok (Update.applyTo_mapM (applyTo_addPendingClass version) pending _)]
        rfl

/-- An import succeeds when the version is new and may have its name, and the graph can be
converted. -/
theorem importGraph_eq_ok_iff {now : Instant} {version digest : String} {g : Graph} {s t : Store}
    {report : ImportReport} :
    (importGraph now version g digest).applyTo s = (.ok report, t) ↔
      s.version? version = none ∧ version ≠ latestWord ∧
        ∃ pending, g.pendingClasses version = .ok pending ∧
          (pending.map PendingClass.report).foldl .add .zero = report ∧
          s.withVersion now version digest pending = t := by
  rw [applyTo_importGraph]
  cases s.version? version with
  | some v => simp
  | none =>
    cases g.pendingClasses version with
    | error fault => simp
    | ok pending => by_cases reserved : version = latestWord <;> simp [reserved]

theorem applyTo_promote (version : String) (s : Store) :
    (promote version).applyTo s =
      match s.versions.findIdx? (fun v => v.version = version) with
      | none => (.error (.unknownVersion version), s)
      | some target =>
        if (s.versions[target]?).any VersionRecord.latest then
          (.error (.invalidQuery s!"version `{version}` is already promoted"), s)
        else (.ok (), s.promoteTo target) := by
  rw [promote, Update.applyTo_bind_ok (Update.applyTo_look s)]
  cases s.versions.findIdx? (fun v => v.version = version) with
  | none => rfl
  | some target =>
    dsimp only
    split <;> rfl

end Store

/-- A record made for a version: without a name, and of an argument below a bound if of any. -/
structure Prepared (version : String) (bound : Nat) (m : MemberRecord) : Prop where
  version : m.key.version = version
  unnamed : m.lastChange = none
  index : ∀ i ∈ m.index, i < bound

/-- A prepared record whose owner was stored before a bound. -/
structure Newcomer (version : String) (bound : Nat) (m : MemberRecord) : Prop
    extends Prepared version bound m where
  owner : ∀ o ∈ m.owner, o < bound

def PendingMethod.Sound (version : String) (m : PendingMethod) : Prop :=
  Prepared version 0 m.record ∧ ∀ p ∈ m.parameters, Prepared version m.parameters.length p

def PendingClass.Sound (version : String) (c : PendingClass) : Prop :=
  (∀ f ∈ c.fields, Prepared version 0 f) ∧ ∀ m ∈ c.methods, m.Sound version

theorem Prepared.owned {version : String} {low bound : Nat} {m : MemberRecord}
    (prepared : Prepared version low m) (le : low ≤ bound) {owner : Nat} (before : owner < bound) :
    Newcomer version bound (m.ownedBy owner) where
  version := prepared.version
  unnamed := prepared.unnamed
  index i member := Nat.lt_of_lt_of_le (prepared.index i member) le
  owner o member := by
    cases member
    exact before

theorem Newcomer.mono {version : String} {low bound : Nat} {m : MemberRecord}
    (newcomer : Newcomer version low m) (le : low ≤ bound) : Newcomer version bound m where
  version := newcomer.version
  unnamed := newcomer.unnamed
  index i member := Nat.lt_of_lt_of_le (newcomer.index i member) le
  owner o member := Nat.lt_of_lt_of_le (newcomer.owner o member) le

theorem Newcomer.withId {version : String} {bound : Nat} {m : MemberRecord}
    (newcomer : Newcomer version bound m) (id : Nat) : Newcomer version bound { m with id } :=
  ⟨⟨newcomer.version, newcomer.unnamed, newcomer.index⟩, newcomer.owner⟩

theorem newcomers_records {version : String} {m : PendingMethod} (sound : m.Sound version)
    {owner position bound : Nat} (hOwner : owner < bound)
    (hEnd : position + (m.records owner position).length ≤ bound) :
    ∀ r ∈ m.records owner position, Newcomer version bound r := by
  simp only [PendingMethod.records, List.length_cons, List.length_map] at hEnd ⊢
  intro r member
  rcases List.mem_cons.mp member with rfl | member
  · exact sound.1.owned (Nat.zero_le _) hOwner
  · obtain ⟨p, hp, rfl⟩ := List.mem_map.mp member
    exact (sound.2 p hp).owned (by omega) (by omega)

theorem newcomers_methodRecords {version : String} {methods : List PendingMethod}
    (sound : ∀ m ∈ methods, m.Sound version) {owner position bound : Nat} (hOwner : owner < bound)
    (hEnd : position + (methodRecords owner position methods).length ≤ bound) :
    ∀ r ∈ methodRecords owner position methods, Newcomer version bound r := by
  induction methods generalizing position with
  | nil => simp [methodRecords]
  | cons m methods ih =>
    simp only [methodRecords, List.length_append] at hEnd ⊢
    have width : (m.records owner position).length = m.parameters.length + 1 := by
      simp [PendingMethod.records]
    intro r member
    rcases List.mem_append.mp member with here | later
    · exact newcomers_records (sound m List.mem_cons_self) hOwner (by omega) r here
    · exact ih (fun m' member => sound m' (List.mem_cons_of_mem _ member)) (by omega) r later

theorem PendingClass.newcomers {version : String} {c : PendingClass} (sound : c.Sound version)
    {owner position bound : Nat} (hOwner : owner < bound)
    (hEnd : position + (c.records owner position).length ≤ bound) :
    ∀ r ∈ c.records owner position, Newcomer version bound r := by
  simp only [records, List.length_append, List.length_map] at hEnd ⊢
  intro r member
  rcases List.mem_append.mp member with field | method
  · obtain ⟨f, hf, rfl⟩ := List.mem_map.mp field
    exact (sound.1 f hf).owned (Nat.zero_le _) hOwner
  · exact newcomers_methodRecords sound.2 hOwner (by omega) r method

theorem parameterRecord_prepared {version : String} {p : Parameter} {r : MemberRecord}
    (made : parameterRecord version p = .ok r) {bound : Nat} (index : p.index < bound) :
    Prepared version bound r := by
  obtain ⟨typeName, _, made⟩ := bind_eq_ok.mp made
  cases made
  refine ⟨rfl, rfl, fun i member => ?_⟩
  cases member
  exact index

namespace Graph

theorem pendingMethod_sound {g : Graph} {version : String} {m : Method} {pending : PendingMethod}
    (made : g.pendingMethod version m = .ok pending) : pending.Sound version := by
  obtain ⟨parameters, spelled, made⟩ := bind_eq_ok.mp made
  cases made
  have pairs := mapM_ok spelled
  refine ⟨⟨rfl, rfl, fun i member => by cases member⟩, fun r member => ?_⟩
  obtain ⟨p, hp, made⟩ := origin_of_forall₂ pairs member
  refine parameterRecord_prepared made ?_
  obtain ⟨i, bound, rfl⟩ := List.mem_mapIdx.mp hp
  have length := pairs.length_eq
  rw [Graph.parameters, List.length_mapIdx] at length
  exact length ▸ bound

theorem pendingClass_sound {g : Graph} {version : String} {c : ClassSymbol}
    {pending : PendingClass} (made : g.pendingClass version c = .ok pending) :
    pending.Sound version := by
  obtain ⟨methods, converted, made⟩ := bind_eq_ok.mp made
  cases made
  constructor
  · intro f member
    obtain ⟨field, _, rfl⟩ := List.mem_map.mp member
    exact ⟨rfl, rfl, fun i member => by cases member⟩
  · intro m member
    obtain ⟨method, _, made⟩ := origin_of_forall₂ (mapM_ok converted) member
    exact pendingMethod_sound made

theorem pendingClasses_sound {g : Graph} {version : String} {pending : List PendingClass}
    (made : g.pendingClasses version = .ok pending) : ∀ c ∈ pending, c.Sound version := by
  intro c member
  obtain ⟨_, _, made⟩ := origin_of_forall₂ (mapM_ok made) member
  exact pendingClass_sound made

end Graph

namespace Store

/-- The ids of all classes and members lie below it. -/
def extent (s : Store) : Nat := max s.classes.length s.members.length

/-- Records of one version have been added to a store, and nothing else has changed in it. -/
structure Grown (version : String) (s t : Store) : Prop where
  classes : s.classes.length ≤ t.classes.length
  members : ∃ added, t.members = s.members ++ added ∧ ∀ m ∈ added, Newcomer version t.extent m
  ledger : t.ledger = s.ledger
  versions : t.versions = s.versions

theorem Grown.refl (version : String) (s : Store) : Grown version s s :=
  ⟨Nat.le_refl _, ⟨[], by simp⟩, rfl, rfl⟩

theorem Grown.extent_le {version : String} {s t : Store} (grown : Grown version s t) :
    s.extent ≤ t.extent := by
  obtain ⟨added, members, _⟩ := grown.members
  have := grown.classes
  simp only [extent, members, List.length_append]
  omega

theorem Grown.trans {version : String} {s t u : Store} (first : Grown version s t)
    (second : Grown version t u) : Grown version s u := by
  obtain ⟨xs, hxs, newXs⟩ := first.members
  obtain ⟨ys, hys, newYs⟩ := second.members
  have members : u.members = s.members ++ (xs ++ ys) := by rw [hys, hxs, List.append_assoc]
  refine ⟨Nat.le_trans first.classes second.classes, ⟨xs ++ ys, members, ?_⟩,
    second.ledger.trans first.ledger, second.versions.trans first.versions⟩
  intro m member
  rcases List.mem_append.mp member with earlier | later
  · exact (newXs m earlier).mono second.extent_le
  · exact newYs m later

theorem grown_insertPending {version : String} {c : PendingClass} (sound : c.Sound version)
    (s : Store) : Grown version s (insertPending version c s) := by
  let opened := (s.insertClass version c.obfuscated c.intermediate).1
  let records := c.records s.classes.length s.members.length
  obtain ⟨classes, ledger, versions⟩ := frame_insertMembers opened records
  have members := members_insertMembers opened records
  have size := length_insertMembers opened records
  have classesLength : opened.classes.length = s.classes.length + 1 := by
    simp [opened, insertClass]
  refine ⟨?_, ⟨_, members, ?_⟩, ledger, versions⟩
  · change _ ≤ (opened.insertMembers records).classes.length
    rw [classes, classesLength]
    omega
  · intro m member
    obtain ⟨i, bound, rfl⟩ := List.mem_mapIdx.mp member
    refine Newcomer.withId (PendingClass.newcomers sound ?_ ?_ _ (List.getElem_mem bound)) _
    · change _ < max (opened.insertMembers records).classes.length _
      rw [classes, classesLength]
      omega
    · change _ ≤ max _ (opened.insertMembers records).members.length
      rw [size]
      exact Nat.le_max_right _ _

theorem grown_insertPendings {version : String} {pending : List PendingClass}
    (sound : ∀ c ∈ pending, c.Sound version) (s : Store) :
    Grown version s (replay (insertPending version) pending s) := by
  induction pending generalizing s with
  | nil => exact Grown.refl version s
  | cons c pending ih =>
    have first := grown_insertPending (sound c List.mem_cons_self) s
    exact first.trans (ih (fun c member => sound c (List.mem_cons_of_mem _ member)) _)

theorem grown_withVersion {version : String} {pending : List PendingClass}
    (sound : ∀ c ∈ pending, c.Sound version) (s : Store) (now : Instant) (digest : String) :
    Grown version { s with versions := s.versions ++ [⟨digest, now, s.latest?.isNone, version⟩] }
      (s.withVersion now version digest pending) :=
  grown_insertPendings sound _

theorem Indexed.withVersion {s : Store} (indexed : s.Indexed) (now : Instant)
    (version digest : String) (pending : List PendingClass) :
    (s.withVersion now version digest pending).Indexed := by
  apply replay_invariant Indexed
  · intro c t indexed
    have opened : (t.insertClass version c.obfuscated c.intermediate).1.Indexed :=
      indexed.congr rfl rfl
    exact opened.insertMembers _
  · exact indexed.congr rfl rfl

theorem placed_classes_withVersion {s : Store} (placed : Placed ClassRecord.id s.classes)
    (now : Instant) (version digest : String) (pending : List PendingClass) :
    Placed ClassRecord.id (s.withVersion now version digest pending).classes := by
  apply replay_invariant (fun s => Placed ClassRecord.id s.classes)
  · intro c t placed
    rw [insertPending, (frame_insertMembers ..).1]
    exact placed.concat rfl
  · exact placed

end Store

end SymbolAtlas
