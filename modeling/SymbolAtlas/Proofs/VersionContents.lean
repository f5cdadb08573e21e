import SymbolAtlas.Proofs.AppendOnly
import SymbolAtlas.Proofs.LedgerCoherence

/-! What a version consists of. Its members come from the graph that it was imported from, one for
each symbol and in the order of the symbols, and nothing that happens later adds, removes or
rearranges any: a version is imported once, and names and locks leave keys alone. -/
namespace SymbolAtlas

/-- What the record of a symbol goes by, in whatever version it is. -/
def MemberSymbol.label : MemberSymbol → MemberKind × String
  | field f => (.field, f.intermediate)
  | method m => (.method, m.intermediate)
  | argument m i _ => (.parameter, m.argumentName m.id.text i)

def MemberRecord.label (m : MemberRecord) : MemberKind × String := (m.key.kind, m.key.name)

theorem MemberSymbol.label_record (x : MemberSymbol) (g : Graph) (version : String)
    (position ofClass : Nat) : (x.record g version position ofClass).label = x.label := by
  cases x <;> rfl

theorem MemberSymbol.version_record (x : MemberSymbol) (g : Graph) (version : String)
    (position ofClass : Nat) : (x.record g version position ofClass).key.version = version := by
  cases x <;> rfl

namespace Graph

def labels (g : Graph) : List (MemberKind × String) :=
  (g.classes.toList.flatMap ClassSymbol.symbols).map MemberSymbol.label

theorem map_snd_symbolsFrom (first : Nat) (classes : List ClassSymbol) :
    (ClassSymbol.symbolsFrom first classes).map Prod.snd =
      classes.flatMap ClassSymbol.symbols := by
  induction classes generalizing first with
  | nil => rfl
  | cons c classes ih =>
    rw [ClassSymbol.symbolsFrom_cons, List.map_append, ih, List.map_map, List.flatMap_cons]
    exact congrArg (· ++ _) (List.map_id _)

theorem labels_memberRecords (g : Graph) (version : String) (position first : Nat) :
    (g.memberRecords version position (g.symbols first)).map MemberRecord.label = g.labels := by
  rw [labels, ← map_snd_symbolsFrom first, List.map_map]
  apply List.ext_getElem?
  intro i
  simp only [memberRecords, symbols, List.getElem?_map, List.getElem?_mapIdx, Option.map_map]
  congr 1
  funext x
  exact x.2.label_record g version _ _

end Graph

namespace Store

/-- The labels of the members of a version, in the order of insertion. -/
def labelsIn (s : Store) (version : String) : List (MemberKind × String) :=
  (s.members.filter (fun m => m.key.version = version)).map MemberRecord.label

/-- A version is there and has these labels. -/
structure Holds (version : String) (labels : List (MemberKind × String)) (s : Store) : Prop where
  known : version ∈ s.versions.map VersionRecord.version
  labels : s.labelsIn version = labels

theorem labelsIn_congr {s t : Store}
    (same : t.members.map MemberRecord.key = s.members.map MemberRecord.key) (version : String) :
    t.labelsIn version = s.labelsIn version := by
  have by_keys (u : Store) : u.labelsIn version =
      ((u.members.map MemberRecord.key).filter (fun k => k.version = version)).map
        (fun k => (k.kind, k.name)) := by
    rw [List.filter_map, List.map_map]
    rfl
  rw [by_keys, by_keys, same]

theorem labelsIn_append (s : Store) (version : String) {members added : List MemberRecord}
    (split : s.members = members ++ added) :
    s.labelsIn version = (members.filter (fun m => m.key.version = version)).map MemberRecord.label
      ++ (added.filter (fun m => m.key.version = version)).map MemberRecord.label := by
  rw [labelsIn, split, List.filter_append, List.map_append]

theorem keys_mapKey (s : Store) (key : NameKey) {f : MemberRecord → MemberRecord}
    (settles : Settles f) :
    (s.mapKey key f).members.map MemberRecord.key = s.members.map MemberRecord.key := by
  rw [mapKey, List.map_map]
  exact List.map_congr_left (fun m _ => (settles_if settles key m).1)

theorem not_mem_of_fresh {s : Store} {version : String} (fresh : s.version? version = none) :
    version ∉ s.versions.map VersionRecord.version := by
  intro known
  obtain ⟨v, listed, name⟩ := List.mem_map.mp known
  exact List.find?_eq_none.mp fresh v listed (decide_eq_true name)

theorem kept_holds (version : String) (labels : List (MemberKind × String)) :
    Kept (Holds version labels) where
  entered s _ change _ holds :=
    ⟨holds.known, (labelsIn_congr (keys_mapKey _ _ (settles_lastChange _)) version).trans
      holds.labels⟩
  relocked s key locked holds :=
    ⟨holds.known, (labelsIn_congr (keys_mapKey _ _ (settles_locked locked)) version).trans
      holds.labels⟩
  promoted s target holds := by
    refine ⟨?_, holds.labels⟩
    have same : (s.promoteTo target).versions.map VersionRecord.version =
        s.versions.map VersionRecord.version := by
      apply List.ext_getElem?
      intro i
      simp [promoteTo, Function.comp_def]
    exact same ▸ holds.known
  imported s now other digest graph pending fresh made holds := by
    have grown := grown_withVersion (Graph.pendingClasses_sound made) s now digest
    obtain ⟨added, members, newcomers⟩ := grown.members
    refine ⟨?_, ?_⟩
    · rw [grown.versions, List.map_append]
      exact List.mem_append_left _ holds.known
    · have apart : other ≠ version := fun same => not_mem_of_fresh fresh (same ▸ holds.known)
      have none : added.filter (fun m => m.key.version = version) = [] :=
        List.filter_eq_nil_iff.mpr (fun m listed => by
          simpa [(newcomers m listed).version] using apart)
      rw [labelsIn_append _ version members, none, List.map_nil, List.append_nil]
      exact holds.labels

theorem Holds.of_document {version : String} {labels : List (MemberKind × String)} {s t : Store}
    (holds : Holds version labels s) (read : parse s.document = .ok t) :
    Holds version labels t := by
  obtain ⟨reread, _⟩ := parse_document_iff.mp read
  refine ⟨reread.versions_eq ▸ holds.known, ?_⟩
  exact (labelsIn_congr (by rw [reread.members.2]) version).trans holds.labels

theorem Holds.replay {version : String} {labels : List (MemberKind × String)} {s : Store}
    (holds : Holds version labels s) (indexed : s.Indexed) (steps : List Step) :
    Holds version labels (replay Step.run steps s) :=
  (kept_holds version labels).replay_of_reread Holds.of_document indexed holds steps

theorem holds_of_takenIn {g : Graph} {version : String} {s t : Store}
    (takenIn : TakenIn g version s t) (known : version ∈ t.versions.map VersionRecord.version)
    (vacant : ∀ m ∈ s.members, m.key.version ≠ version) : Holds version g.labels t := by
  refine ⟨known, ?_⟩
  have none : s.members.filter (fun m => m.key.version = version) = [] :=
    List.filter_eq_nil_iff.mpr (fun m listed => by simpa using vacant m listed)
  have all : (g.memberRecords version s.members.length (g.symbols s.classes.length)).filter
      (fun m => m.key.version = version) =
      g.memberRecords version s.members.length (g.symbols s.classes.length) := by
    refine List.filter_eq_self.mpr (fun r listed => decide_eq_true ?_)
    obtain ⟨i, _, rfl⟩ := List.mem_mapIdx.mp listed
    exact MemberSymbol.version_record ..
  rw [labelsIn_append t version takenIn.members, none, all, g.labels_memberRecords]
  rfl

/-- Among the steps from the empty store is an import of the graph as the version, and it
succeeded. -/
def ImportedFrom (steps : List Step) (version : String) (g : Graph) : Prop :=
  ∃ before after now digest report,
    steps = before ++ .operation (.importGraph now version g digest) :: after ∧
      (Operation.importGraph now version g digest).answer (replay Step.run before .empty) =
        .ok (.imported report)

theorem holds_of_importedFrom {steps : List Step} {version : String} {g : Graph}
    (imported : ImportedFrom steps version g) :
    Holds version g.labels (replay Step.run steps .empty) := by
  obtain ⟨before, after, now, digest, report, rfl, answered⟩ := imported
  let s := replay Step.run before .empty
  have coherent : s.Coherent := coherent_of_replay before
  have sound : s.Sound := sound_of_replay .empty before
  obtain ⟨counts, succeeded, _⟩ := Update.of_answer_map answered
  obtain ⟨fresh, _, pending, made, _, stored⟩ := importGraph_eq_ok_iff.mp (Prod.ext succeeded rfl)
  have ran : (Operation.importGraph now version g digest).run s =
      s.withVersion now version digest pending := by
    rw [Operation.run, Operation.update, Update.applyTo_map]
    exact stored.symm
  have known : version ∈
      (s.withVersion now version digest pending).versions.map VersionRecord.version := by
    rw [(grown_withVersion (Graph.pendingClasses_sound made) s now digest).versions]
    simp
  have vacant : ∀ m ∈ s.members, m.key.version ≠ version := fun m member same =>
    not_mem_of_fresh fresh (same ▸ coherent.versioned m member)
  have holds := holds_of_takenIn (takenIn_withVersion made s now digest) known vacant
  rw [SymbolAtlas.replay, List.foldl_append]
  refine Holds.replay ?_ (sound.toIndexed.run (.importGraph now version g digest)) after
  rw [ran]
  exact holds

end Store

end SymbolAtlas
