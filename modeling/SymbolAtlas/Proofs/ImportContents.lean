import SymbolAtlas.Proofs.GraphTally
import SymbolAtlas.Proofs.SymbolRecords

/-! What an import adds and what it reports. An import that succeeds adds one class record for each
class of the graph and one member record for each of its symbols, in the graph's order, and leaves
all else but the list of versions. The counts it reports are the graph's own. -/
namespace SymbolAtlas

theorem ClassSymbol.symbolsFrom_cons (first : Nat) (c : ClassSymbol) (classes : List ClassSymbol) :
    symbolsFrom first (c :: classes) =
      c.symbols.map (first, ·) ++ symbolsFrom (first + 1) classes := rfl

theorem ClassSymbol.origin_of_argument {first : Nat} {classes : List ClassSymbol} {n : Nat}
    {m : Method} {i : Nat} {type : TypeRef}
    (listed : (n, .argument m i type) ∈ symbolsFrom first classes) :
    ∃ c ∈ classes, m ∈ c.methods.values ∧ type ∈ m.descriptor.arguments := by
  obtain ⟨_, c, there, _, member⟩ := mem_symbolsFrom.mp listed
  obtain ⟨known, place⟩ := argument_mem_symbols.mp member
  exact ⟨c, List.mem_of_getElem? there, known, List.mem_of_getElem? place⟩

namespace Graph

def symbols (g : Graph) (first : Nat) : List (Nat × MemberSymbol) :=
  ClassSymbol.symbolsFrom first g.classes.toList

/-- What a graph comes to as a report of its import. -/
def counts (g : Graph) : ImportReport :=
  ⟨g.classes.size, (g.classes.toList.map (fun c => c.constructors.size)).sum, g.fieldCount,
    g.methodCount, g.parameterCount⟩

end Graph

theorem ImportReport.foldl_add (reports : List ImportReport) (r : ImportReport) :
    reports.foldl .add r =
      ⟨r.classes + (reports.map classes).sum, r.constructors + (reports.map constructors).sum,
        r.fields + (reports.map fields).sum, r.methods + (reports.map methods).sum,
        r.parameters + (reports.map parameters).sum⟩ := by
  induction reports generalizing r with
  | nil => rfl
  | cons first reports ih => simp only [List.foldl_cons, ih, add, List.map_cons, List.sum_cons,
      Nat.add_assoc]

namespace Graph

theorem report_spelledClass (g : Graph) (version : String) (c : ClassSymbol) :
    (g.spelledClass version c).report =
      ⟨1, c.constructors.size, c.fields.size, c.methods.size,
        (c.methods.values.flatMap (fun m => m.descriptor.arguments)).length⟩ := by
  have parameters (m : Method) : (g.spelledMethod version m).parameters.length =
      m.descriptor.arguments.length := by
    simp [spelledMethod, Graph.parameters]
  have fields : (c.fields.toList.map (fieldRecord version)).length = c.fields.size :=
    (List.length_map _).trans c.fields.length_toList
  have methods : (c.methods.values.map (g.spelledMethod version)).length = c.methods.size :=
    (List.length_map _).trans c.methods.size_values
  simp only [PendingClass.report, spelledClass, fields, methods, List.length_flatMap, List.map_map,
    Function.comp_def, parameters]

theorem Tallied.counts {g : Graph} (tallied : g.Tallied) (version : String) :
    ((g.classes.toList.map (g.spelledClass version)).map PendingClass.report).foldl .add .zero =
      g.counts := by
  have ones : (g.classes.toList.map (fun _ => 1)).sum = g.classes.size := by
    simp [Index.length_toList]
  have arguments : (g.classes.toList.map (fun c =>
      (c.methods.values.flatMap (fun m => m.descriptor.arguments)).length)).sum =
      g.parameterCount := by
    rw [parameterCount, List.flatMap_assoc, List.length_flatMap]
  simp only [ImportReport.foldl_add, ImportReport.zero, List.map_map, Function.comp_def,
    report_spelledClass, Nat.zero_add, ones, arguments, Graph.counts, tallied.fieldCount,
    tallied.methodCount]

end Graph

namespace Store

theorem classes_insertPending (version : String) (c : PendingClass) (s : Store) :
    (insertPending version c s).classes =
      s.classes ++ [⟨s.classes.length, c.intermediate, c.obfuscated, version⟩] :=
  (frame_insertMembers ..).1

theorem classes_insertPendings (version : String) (pending : List PendingClass) (s : Store) :
    (replay (insertPending version) pending s).classes =
      s.classes ++ pending.mapIdx
        (fun i c => ⟨s.classes.length + i, c.intermediate, c.obfuscated, version⟩) := by
  induction pending generalizing s with
  | nil => exact (List.append_nil _).symm
  | cons c pending ih =>
    change (replay (insertPending version) pending (insertPending version c s)).classes = _
    rw [ih, classes_insertPending, List.mapIdx_cons, List.append_assoc]
    simp [Nat.add_assoc, Nat.add_comm 1]

theorem classes_withVersion (s : Store) (now : Instant) (version digest : String)
    (pending : List PendingClass) :
    (s.withVersion now version digest pending).classes =
      s.classes ++ pending.mapIdx
        (fun i c => ⟨s.classes.length + i, c.intermediate, c.obfuscated, version⟩) :=
  classes_insertPendings version pending _

theorem members_insertPending (g : Graph) (version : String) (c : ClassSymbol) (s : Store) :
    (insertPending version (g.spelledClass version c) s).members =
      s.members ++ g.memberRecords version s.members.length
        (c.symbols.map (s.classes.length, ·)) := by
  rw [← g.placedFrom_spelledClass]
  exact members_insertMembers _ _

/-- Class after class, the records of its symbols, each at its place and owned from there. -/
theorem members_insertPendings (g : Graph) (version : String) (classes : List ClassSymbol)
    (s : Store) :
    (replay (insertPending version) (classes.map (g.spelledClass version)) s).members =
      s.members ++ g.memberRecords version s.members.length
        (ClassSymbol.symbolsFrom s.classes.length classes) := by
  induction classes generalizing s with
  | nil => exact (List.append_nil _).symm
  | cons c classes ih =>
    let next := insertPending version (g.spelledClass version c) s
    have members := members_insertPending g version c s
    have size : next.members.length =
        s.members.length + (c.symbols.map (s.classes.length, ·)).length := by
      rw [members, List.length_append, Graph.memberRecords, List.length_mapIdx]
    have height : next.classes.length = s.classes.length + 1 := by
      rw [classes_insertPending, List.length_append]
      rfl
    change (replay (insertPending version) (classes.map (g.spelledClass version)) next).members = _
    rw [ih, size, height, members, ClassSymbol.symbolsFrom_cons, Graph.memberRecords_append,
      List.append_assoc]

/-- A store has taken in a graph as a version. Every record is the one that is spelled out for its
class or symbol, at the place of that class or symbol; an argument is owned by the record of its
method and carries the spelling of its type. -/
structure TakenIn (g : Graph) (version : String) (s t : Store) : Prop where
  classes : t.classes = s.classes ++ g.classRecords version s.classes.length
  members : t.members =
    s.members ++ g.memberRecords version s.members.length (g.symbols s.classes.length)
  arguments : ∀ j n m i type, (g.symbols s.classes.length)[j]? = some (n, .argument m i type) →
    ∃ r method name, t.member? (s.members.length + j) = some r ∧
      r.owner = some method ∧ r.typeName = some name ∧
      t.member? method = some (MemberSymbol.record g version method n (.method m)) ∧
      (g.mapType type).dottedSpelling = .ok name
  ledger : t.ledger = s.ledger

theorem member?_of_symbol {g : Graph} {version : String} {s t : Store}
    (members : t.members =
      s.members ++ g.memberRecords version s.members.length (g.symbols s.classes.length))
    {j n : Nat} {x : MemberSymbol} (listed : (g.symbols s.classes.length)[j]? = some (n, x)) :
    t.member? (s.members.length + j) = some (x.record g version (s.members.length + j) n) := by
  rw [member?, members, List.getElem?_append_right (Nat.le_add_right _ _),
    Nat.add_sub_cancel_left, Graph.memberRecords, List.getElem?_mapIdx, listed]
  rfl

theorem takenIn_withVersion {g : Graph} {version : String} {pending : List PendingClass}
    (made : g.pendingClasses version = .ok pending) (s : Store) (now : Instant)
    (digest : String) : TakenIn g version s (s.withVersion now version digest pending) := by
  have grown := grown_withVersion (Graph.pendingClasses_sound made) s now digest
  obtain ⟨rfl, spells⟩ := Graph.of_pendingClasses made
  have members := members_insertPendings g version g.classes.toList
    { s with versions := s.versions ++ [⟨digest, now, s.latest?.isNone, version⟩] }
  refine ⟨?_, members, ?_, grown.ledger⟩
  · rw [classes_withVersion, Graph.classRecords]
    congr 1
    apply List.ext_getElem?
    intro i
    simp only [List.getElem?_mapIdx, List.getElem?_map, Option.map_map]
    rfl
  · intro j n m i type listed
    obtain ⟨k, rfl, method⟩ := ClassSymbol.headed_symbolsFrom _ _ j n m i type listed
    obtain ⟨c, known, ofClass, argument⟩ :=
      ClassSymbol.origin_of_argument (List.mem_of_getElem? listed)
    obtain ⟨name, spelling⟩ := spells c known m ofClass type argument
    refine ⟨_, s.members.length + k, name, member?_of_symbol members listed, ?_, ?_,
      member?_of_symbol members method, spelling⟩
    · rw [MemberSymbol.record, ← Nat.add_assoc, Nat.add_sub_cancel]
    · rw [MemberSymbol.record, spelling]
      rfl

/-- An import that succeeds stores the whole graph and reports the graph's counts. -/
theorem import_takes_in {g : Graph} (built : g.Built) {now : Instant} {version digest : String}
    {s t : Store} {report : ImportReport}
    (succeeded : (importGraph now version g digest).applyTo s = (.ok report, t)) :
    TakenIn g version s t ∧ report = g.counts ∧
      t.versions = s.versions ++ [⟨digest, now, s.latest?.isNone, version⟩] := by
  rw [applyTo_importGraph] at succeeded
  split at succeeded
  · cases succeeded
  cases made : g.pendingClasses version with
  | error fault =>
    rw [made] at succeeded
    cases succeeded
  | ok pending =>
    rw [made] at succeeded
    dsimp only at succeeded
    split at succeeded
    · cases succeeded
    cases succeeded
    refine ⟨takenIn_withVersion made s now digest, ?_, ?_⟩
    · rw [(Graph.of_pendingClasses made).1]
      exact built.tallied.counts version
    · exact (grown_withVersion (Graph.pendingClasses_sound made) s now digest).versions

def sketch : Graph :=
  (Graph.assemble "a net/Base\n\tb field_1_b\n\tc (La;[I)V func_2_c\n\td (J)V draw\n" "draw\n"
    "7 net/Base ()V\n").toOption.getD .empty

theorem built_getD_assemble (joined statics constructors : String) :
    ((Graph.assemble joined statics constructors).toOption.getD .empty).Built := by
  cases made : Graph.assemble joined statics constructors with
  | ok g => exact Graph.built_of_assemble made
  | error _ => exact @Graph.Built.read [] .empty rfl

/-- The sketch after the specimen, whose members come before those of the sketch. -/
theorem import_takes_in_sketch :
    let s := replay Step.run specimen .empty
    let storing := importGraph ⟨90, 0⟩ "2" sketch "1"
    let t := (storing.applyTo s).2
    storing.applyTo s = (.ok ⟨1, 1, 1, 2, 3⟩, t) ∧ TakenIn sketch "2" s t ∧
      sketch.counts = ⟨1, 1, 1, 2, 3⟩ ∧
      (t.members.drop s.members.length).map (fun m => (m.key.name, m.owner, m.locked)) =
        [("field_1_b", some 2, false), ("func_2_c", some 2, false), ("p_2_1_", some 5, false),
          ("p_2_2_", some 5, false), ("draw", some 2, true), ("p_d_0_", some 8, false)] := by
  intro s storing t
  have evaluated : (storing.applyTo s).1 = .ok ⟨1, 1, 1, 2, 3⟩ ∧
      (t.members.drop s.members.length).map (fun m => (m.key.name, m.owner, m.locked)) =
        [("field_1_b", some 2, false), ("func_2_c", some 2, false), ("p_2_1_", some 5, false),
          ("p_2_2_", some 5, false), ("draw", some 2, true), ("p_d_0_", some 8, false)] := by
    decide +kernel
  have succeeded : storing.applyTo s = (.ok ⟨1, 1, 1, 2, 3⟩, t) :=
    (Prod.eta (storing.applyTo s)).symm.trans (congrArg (·, t) evaluated.1)
  obtain ⟨takenIn, counts, _⟩ := import_takes_in (built_getD_assemble ..) succeeded
  exact ⟨succeeded, takenIn, counts.symm, evaluated.2⟩

end Store

end SymbolAtlas
