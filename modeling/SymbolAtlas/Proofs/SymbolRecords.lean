import SymbolAtlas.Proofs.VersionEffect

/-! The records of a graph, told symbol by symbol. A graph lists its symbols class after class: the
fields of a class, then each method followed by its arguments. The record of a symbol is spelled out
here from the symbol, its place in that list and the record of its class; that the conversion in
front of an import makes these very records is what the lemmas below come to. -/
namespace SymbolAtlas

/-- What has a record among the members. -/
inductive MemberSymbol where
  | field (f : Field)
  | method (m : Method)
  | argument (m : Method) (i : Nat) (type : TypeRef)
  deriving DecidableEq, Repr

/-- An argument is named after what its method is called and the slot it is passed in; the receiver,
where there is one, takes slot zero. -/
def Method.argumentName (m : Method) (called : String) (i : Nat) : String :=
  "p_" ++ called ++ "_" ++ ((if m.isStatic then 0 else 1) + i).repr ++ "_"

/-- The record of a symbol of a class, stored at a position. The method of an argument is stored in
front of its arguments. -/
def MemberSymbol.record (g : Graph) (version : String) (position ofClass : Nat) :
    MemberSymbol → MemberRecord
  | field f =>
    { id := position
      key := ⟨version, .field, f.intermediate⟩
      obfuscated := f.obfuscated
      owner := some ofClass
      lastChange := none
      locked := f.id.number?.isNone
      symbolId := some f.id
      descriptor := none
      index := none
      typeName := none }
  | method m =>
    { id := position
      key := ⟨version, .method, m.intermediate⟩
      obfuscated := m.obfuscated
      owner := some ofClass
      lastChange := none
      locked := m.id.number?.isNone
      symbolId := some m.id
      descriptor := some (g.mapDescriptor m.descriptor).encode
      index := none
      typeName := none }
  | argument m i type =>
    { id := position
      key := ⟨version, .parameter, m.argumentName m.id.text i⟩
      obfuscated := m.argumentName m.obfuscated i
      owner := some (position - (i + 1))
      lastChange := none
      locked := false
      symbolId := none
      descriptor := none
      index := some i
      typeName := (g.mapType type).dottedSpelling.toOption }

def Method.symbols (m : Method) : List MemberSymbol :=
  .method m :: m.descriptor.arguments.mapIdx (.argument m)

def ClassSymbol.symbols (c : ClassSymbol) : List MemberSymbol :=
  c.fields.toList.map .field ++ c.methods.values.flatMap Method.symbols

/-- The symbols of classes, each with the position of its class; the first class has the first
position. -/
def ClassSymbol.symbolsFrom (first : Nat) (classes : List ClassSymbol) :
    List (Nat × MemberSymbol) :=
  (classes.zipIdx first).flatMap (fun c => c.1.symbols.map (c.2, ·))

namespace ClassSymbol

variable {c : ClassSymbol} {m : Method}

theorem method_mem_symbols : .method m ∈ c.symbols ↔ m ∈ c.methods.values := by
  simp [symbols, Method.symbols, List.mem_mapIdx]

theorem argument_mem_symbols {i : Nat} {type : TypeRef} :
    .argument m i type ∈ c.symbols ↔
      m ∈ c.methods.values ∧ m.descriptor.arguments[i]? = some type := by
  simp only [symbols, Method.symbols, List.mem_append, List.mem_map, List.mem_flatMap,
    List.mem_cons, List.mem_mapIdx, List.getElem?_eq_some_iff, reduceCtorEq, and_false,
    exists_false, false_or, MemberSymbol.argument.injEq]
  constructor
  · rintro ⟨m, listed, k, bound, rfl, rfl, rfl⟩
    exact ⟨listed, bound, rfl⟩
  · rintro ⟨listed, bound, rfl⟩
    exact ⟨m, listed, i, bound, rfl, rfl, rfl⟩

theorem mem_symbolsFrom {first n : Nat} {classes : List ClassSymbol} {x : MemberSymbol} :
    (n, x) ∈ symbolsFrom first classes ↔
      ∃ i c, classes[i]? = some c ∧ n = first + i ∧ x ∈ c.symbols := by
  rw [symbolsFrom, List.mem_flatMap]
  constructor
  · rintro ⟨⟨c, position⟩, placed, listed⟩
    obtain ⟨x, member, same⟩ := List.mem_map.mp listed
    cases same
    obtain ⟨le, there⟩ := List.mk_mem_zipIdx_iff_le_and_getElem?_sub.mp placed
    exact ⟨_, c, there, (Nat.add_sub_cancel' le).symm, member⟩
  · rintro ⟨i, c, there, rfl, member⟩
    refine ⟨(c, first + i), ?_, List.mem_map_of_mem member⟩
    refine List.mk_mem_zipIdx_iff_le_and_getElem?_sub.mpr ⟨Nat.le_add_right _ _, ?_⟩
    rwa [Nat.add_sub_cancel_left]

end ClassSymbol

namespace Graph

def memberRecords (g : Graph) (version : String) (position : Nat)
    (symbols : List (Nat × MemberSymbol)) : List MemberRecord :=
  symbols.mapIdx (fun i x => x.2.record g version (position + i) x.1)

def classRecords (g : Graph) (version : String) (position : Nat) : List ClassRecord :=
  g.classes.toList.mapIdx
    (fun i c => ⟨position + i, dotted c.intermediate, dotted c.obfuscated, version⟩)

end Graph

/-- Every argument stands behind its method, as many places as it is its argument. -/
def Headed (symbols : List (Nat × MemberSymbol)) : Prop :=
  ∀ j n m i type, symbols[j]? = some (n, .argument m i type) →
    ∃ k, j = k + (i + 1) ∧ symbols[k]? = some (n, .method m)

theorem Headed.append {xs ys : List (Nat × MemberSymbol)} (first : Headed xs) (second : Headed ys) :
    Headed (xs ++ ys) := by
  intro j n m i type found
  rw [List.getElem?_append] at found
  split at found
  case isTrue =>
    obtain ⟨k, rfl, method⟩ := first j n m i type found
    refine ⟨k, rfl, ?_⟩
    rw [List.getElem?_append_left (by omega), method]
  case isFalse beyond =>
    obtain ⟨k, place, method⟩ := second _ n m i type found
    refine ⟨xs.length + k, by omega, ?_⟩
    rw [List.getElem?_append_right (Nat.le_add_right _ _), Nat.add_sub_cancel_left, method]

theorem headed_flatMap {α : Type} {xs : List α} {symbols : α → List (Nat × MemberSymbol)}
    (headed : ∀ x, Headed (symbols x)) : Headed (xs.flatMap symbols) := by
  induction xs with
  | nil => exact fun j n m i type found => by cases found
  | cons x xs ih => exact (headed x).append ih

theorem Method.headed_symbols (m : Method) (n : Nat) : Headed (m.symbols.map (n, ·)) := by
  intro j n' m' i type found
  cases j with
  | zero => cases found
  | succ j =>
    simp only [symbols, List.map_cons, List.getElem?_cons_succ, List.getElem?_map,
      List.getElem?_mapIdx, Option.map_eq_some_iff] at found
    obtain ⟨_, ⟨type', _, rfl⟩, same⟩ := found
    cases same
    exact ⟨0, (Nat.zero_add _).symm, rfl⟩

theorem ClassSymbol.headed_symbolsFrom (first : Nat) (classes : List ClassSymbol) :
    Headed (symbolsFrom first classes) := by
  refine headed_flatMap (fun c => ?_)
  rw [symbols, List.map_append, List.map_flatMap]
  refine Headed.append ?_ (headed_flatMap (fun m => m.headed_symbols c.2))
  intro j n m i type found
  simp only [List.map_map, List.getElem?_map, Option.map_eq_some_iff] at found
  obtain ⟨f, _, same⟩ := found
  cases same

/-- A parameter's record, the spelling of its type taken for granted. -/
def Parameter.spelled (version : String) (p : Parameter) : MemberRecord :=
  { MemberRecord.plain ⟨version, .parameter, p.intermediate⟩ p.obfuscated with
    index := some p.index
    typeName := p.type.dottedSpelling.toOption }

theorem Parameter.eq_spelled {version : String} {p : Parameter} {r : MemberRecord}
    (made : parameterRecord version p = .ok r) : r = p.spelled version := by
  obtain ⟨typeName, spelling, made⟩ := bind_eq_ok.mp made
  cases made
  rw [spelled, spelling]
  rfl

namespace Graph

def spelledMethod (g : Graph) (version : String) (m : Method) : PendingMethod :=
  ⟨g.methodRecord version m, (g.parameters m).map (Parameter.spelled version)⟩

def spelledClass (g : Graph) (version : String) (c : ClassSymbol) : PendingClass :=
  ⟨dotted c.intermediate, dotted c.obfuscated, c.constructors.size,
    c.fields.toList.map (fieldRecord version), c.methods.values.map (g.spelledMethod version)⟩

def Spells (g : Graph) (m : Method) : Prop :=
  ∀ type ∈ m.descriptor.arguments, ∃ name, (g.mapType type).dottedSpelling = .ok name

theorem eq_spelledMethod {g : Graph} {version : String} {m : Method} {pending : PendingMethod}
    (made : g.pendingMethod version m = .ok pending) : pending = g.spelledMethod version m := by
  obtain ⟨parameters, converted, made⟩ := bind_eq_ok.mp made
  cases made
  rw [spelledMethod, eq_map_of_mapM (fun _ _ => Parameter.eq_spelled) converted]

theorem eq_spelledClass {g : Graph} {version : String} {c : ClassSymbol} {pending : PendingClass}
    (made : g.pendingClass version c = .ok pending) : pending = g.spelledClass version c := by
  obtain ⟨methods, converted, made⟩ := bind_eq_ok.mp made
  cases made
  rw [spelledClass, eq_map_of_mapM (fun _ _ => eq_spelledMethod) converted]

theorem pendingMethod_succeeds_iff {g : Graph} {version : String} {m : Method} :
    (∃ pending, g.pendingMethod version m = .ok pending) ↔ g.Spells m := by
  refine bind_pure_succeeds_iff.trans (mapM_succeeds_iff.trans ⟨fun each t listed => ?_, ?_⟩)
  · obtain ⟨i, bound, rfl⟩ := List.getElem_of_mem listed
    exact bind_pure_succeeds_iff.mp (each _ (List.mem_mapIdx.mpr ⟨i, bound, rfl⟩))
  · intro spells p listed
    obtain ⟨i, bound, rfl⟩ := List.mem_mapIdx.mp listed
    exact bind_pure_succeeds_iff.mpr (spells _ (List.getElem_mem bound))

theorem pendingClasses_succeeds_iff {g : Graph} {version : String} :
    (∃ pending, g.pendingClasses version = .ok pending) ↔
      ∀ c ∈ g.classes.toList, ∀ m ∈ c.methods.values, g.Spells m := by
  refine mapM_succeeds_iff.trans (forall₂_congr (fun c _ => ?_))
  refine bind_pure_succeeds_iff.trans (mapM_succeeds_iff.trans (forall₂_congr (fun m _ => ?_)))
  exact pendingMethod_succeeds_iff

theorem of_pendingClasses {g : Graph} {version : String} {pending : List PendingClass}
    (made : g.pendingClasses version = .ok pending) :
    pending = g.classes.toList.map (g.spelledClass version) ∧
      ∀ c ∈ g.classes.toList, ∀ m ∈ c.methods.values, g.Spells m :=
  ⟨eq_map_of_mapM (fun _ _ => eq_spelledClass) made, pendingClasses_succeeds_iff.mp ⟨_, made⟩⟩

end Graph

/-- Records with the ids that they get when they are stored from a position on. -/
def placedFrom (position : Nat) (records : List MemberRecord) : List MemberRecord :=
  records.mapIdx (fun i m => { m with id := position + i })

theorem placedFrom_append (position : Nat) (xs ys : List MemberRecord) :
    placedFrom position (xs ++ ys) =
      placedFrom position xs ++ placedFrom (position + xs.length) ys := by
  simp only [placedFrom, List.mapIdx_append, Nat.add_assoc, Nat.add_comm xs.length]

namespace Graph

variable (g : Graph) (version : String)

theorem memberRecords_append (position : Nat) (xs ys : List (Nat × MemberSymbol)) :
    g.memberRecords version position (xs ++ ys) =
      g.memberRecords version position xs ++
        g.memberRecords version (position + xs.length) ys := by
  simp only [memberRecords, List.mapIdx_append, Nat.add_assoc, Nat.add_comm xs.length]

theorem placedFrom_fields (position owner : Nat) (fields : List Field) :
    placedFrom position ((fields.map (fieldRecord version)).map (·.ownedBy owner)) =
      g.memberRecords version position ((fields.map MemberSymbol.field).map (owner, ·)) := by
  apply List.ext_getElem?
  intro i
  simp only [placedFrom, memberRecords, List.getElem?_mapIdx, List.getElem?_map, Option.map_map]
  rfl

theorem placedFrom_records (position owner : Nat) (m : Method) :
    placedFrom position ((g.spelledMethod version m).records owner position) =
      g.memberRecords version position (m.symbols.map (owner, ·)) := by
  apply List.ext_getElem?
  intro i
  rw [placedFrom, memberRecords, List.getElem?_mapIdx, List.getElem?_mapIdx]
  cases i with
  | zero => rfl
  | succ i =>
    simp only [spelledMethod, PendingMethod.records, parameters, Method.symbols, List.map_cons,
      List.getElem?_cons_succ, List.getElem?_map, List.getElem?_mapIdx, Option.map_map]
    congr 1
    funext type
    -- argument `i` stands `i + 1` places behind its method, whose place owns it
    have method : position = position + (i + 1) - (i + 1) := (Nat.add_sub_cancel ..).symm
    simp only [Function.comp]
    rw [MemberSymbol.record, ← method]
    rfl

theorem placedFrom_methodRecords (position owner : Nat) (methods : List Method) :
    placedFrom position
        (methodRecords owner position (methods.map (g.spelledMethod version))) =
      g.memberRecords version position ((methods.flatMap Method.symbols).map (owner, ·)) := by
  induction methods generalizing position with
  | nil => rfl
  | cons m methods ih =>
    have width : ((g.spelledMethod version m).records owner position).length =
        (g.spelledMethod version m).parameters.length + 1 := by
      simp [PendingMethod.records]
    have same : (m.symbols.map (owner, ·)).length =
        (g.spelledMethod version m).parameters.length + 1 := by
      simp [Method.symbols, spelledMethod, parameters]
    rw [List.map_cons, methodRecords, placedFrom_append, width, ih, g.placedFrom_records,
      List.flatMap_cons, List.map_append, memberRecords_append, same]

/-- What a converted class stores, ids included, is the records of its symbols. -/
theorem placedFrom_spelledClass (position owner : Nat) (c : ClassSymbol) :
    placedFrom position ((g.spelledClass version c).records owner position) =
      g.memberRecords version position (c.symbols.map (owner, ·)) := by
  have fields : (g.spelledClass version c).fields.length = c.fields.toList.length :=
    List.length_map _
  rw [PendingClass.records, placedFrom_append, ClassSymbol.symbols, List.map_append,
    memberRecords_append, List.length_map, List.length_map, List.length_map, fields]
  congr 1
  · exact g.placedFrom_fields version position owner c.fields.toList
  · exact g.placedFrom_methodRecords version _ owner c.methods.values

end Graph

end SymbolAtlas
