import SymbolAtlas.Proofs.GraphTally
import SymbolAtlas.Proofs.PairedIndex

/-! The indexes of a graph. Classes are found by either name, and so are the fields of a class;
beside the classes stand the lists of owners, which tell for every name of a member the classes that
have one. A change of a graph touches now one of these and now another, and drops without a word
what repeats a name. They agree all the same, in every graph that is read and after any changes. -/
namespace SymbolAtlas

namespace ClassSymbol

def fieldNames (c : ClassSymbol) : List String := c.fields.toList.map Field.intermediate

def methodNames (c : ClassSymbol) : List String := c.methods.values.map Method.intermediate

/-- Members stand under their own names and have the class as their owner. -/
structure Ordered (c : ClassSymbol) : Prop where
  fields : c.fields.Paired
  methods : c.methods.NamedBy Method.intermediate
  ownFields : ∀ f ∈ c.fields.toList, f.owner = c.intermediate
  ownMethods : ∀ m ∈ c.methods.values, m.owner = c.intermediate

theorem ordered_bare (obfuscated intermediate : String) : (bare obfuscated intermediate).Ordered where
  fields := Index.paired_empty
  methods := Table.namedBy_empty _
  ownFields _ listed := absurd listed List.not_mem_nil
  ownMethods _ listed := absurd listed List.not_mem_nil

end ClassSymbol

namespace Graph

/-- For every name, the classes that have it among their names are listed, each once. -/
structure Lists (owners : Table String (List String)) (classes : List ClassSymbol)
    (names : ClassSymbol → List String) : Prop where
  nodup : ∀ name, ((owners.get? name).getD []).Nodup
  mem_iff : ∀ name owner, owner ∈ (owners.get? name).getD [] ↔
    ∃ c ∈ classes, c.intermediate = owner ∧ name ∈ names c

section

variable {owners : Table String (List String)} {classes : List ClassSymbol}
  {names : ClassSymbol → List String}

theorem Lists.concat_bare (lists : Lists owners classes names) {c : ClassSymbol}
    (bare : names c = []) : Lists owners (classes ++ [c]) names where
  nodup := lists.nodup
  mem_iff name owner := by simp [lists.mem_iff, or_and_right, exists_or, bare]

theorem Lists.map (lists : Lists owners classes names) {change : ClassSymbol → ClassSymbol}
    (same : ∀ c ∈ classes, (change c).intermediate = c.intermediate ∧ names (change c) = names c) :
    Lists owners (classes.map change) names where
  nodup := lists.nodup
  mem_iff name owner := by
    rw [lists.mem_iff]
    constructor
    · rintro ⟨c, listed, rfl, has⟩
      exact ⟨change c, List.mem_map_of_mem listed, (same c listed).1, (same c listed).2 ▸ has⟩
    · rintro ⟨_, changed, rfl, has⟩
      obtain ⟨c, listed, rfl⟩ := List.mem_map.mp changed
      exact ⟨c, listed, (same c listed).1.symm, (same c listed).2 ▸ has⟩

theorem Lists.push (lists : Lists owners classes names) {owner : ClassSymbol}
    (listed : owner ∈ classes) (alone : ∀ c ∈ classes, c.intermediate = owner.intermediate → c = owner)
    {f : ClassSymbol → ClassSymbol} (same : ∀ c, (f c).intermediate = c.intermediate)
    {name : String} (fresh : name ∉ names owner) (gain : names (f owner) = names owner ++ [name]) :
    Lists (owners.push name owner.intermediate)
      (classes.map (fun c => if c.intermediate = owner.intermediate then f c else c)) names where
  nodup k := by
    rw [Table.getD_push]
    by_cases here : name = k
    · subst here
      have absent : owner.intermediate ∉ (owners.get? name).getD [] := by
        intro known
        obtain ⟨c, there, named, has⟩ := (lists.mem_iff name _).mp known
        exact fresh (alone c there named ▸ has)
      rw [if_pos rfl, List.nodup_append]
      refine ⟨lists.nodup name, List.nodup_singleton _, ?_⟩
      rintro a known b last rfl
      exact absent (List.mem_singleton.mp last ▸ known)
    · rw [if_neg here, List.append_nil]
      exact lists.nodup k
  mem_iff k o := by
    have pushed : o ∈ ((owners.push name owner.intermediate).get? k).getD [] ↔
        o ∈ (owners.get? k).getD [] ∨ (name = k ∧ o = owner.intermediate) := by
      rw [Table.getD_push, List.mem_append]
      by_cases here : name = k <;> simp [here]
    rw [pushed, lists.mem_iff]
    constructor
    · rintro (⟨c, there, rfl, has⟩ | ⟨rfl, rfl⟩)
      · by_cases own : c.intermediate = owner.intermediate
        · refine ⟨f c, List.mem_map.mpr ⟨c, there, if_pos own⟩, same c, ?_⟩
          rw [alone c there own] at has ⊢
          simp [gain, has]
        · exact ⟨c, List.mem_map.mpr ⟨c, there, if_neg own⟩, rfl, has⟩
      · exact ⟨f owner, List.mem_map.mpr ⟨owner, listed, if_pos rfl⟩, same owner, by simp [gain]⟩
    · rintro ⟨_, changed, rfl, has⟩
      obtain ⟨c, there, rfl⟩ := List.mem_map.mp changed
      by_cases own : c.intermediate = owner.intermediate
      · rw [alone c there own] at has ⊢
        simp only [if_pos, gain, List.mem_append, List.mem_singleton] at has
        rcases has with before | rfl
        · exact .inl ⟨owner, listed, (by simp [same]), before⟩
        · exact .inr ⟨rfl, by simp [same]⟩
      · rw [if_neg own] at has ⊢
        exact .inl ⟨c, there, rfl, has⟩

end

/-- Every index is in order by itself, and the lists of owners are those of the classes. -/
structure Wired (g : Graph) : Prop where
  classes : g.classes.Paired
  ordered : ∀ c ∈ g.classes.toList, c.Ordered
  fieldOwners : Lists g.fieldOwners g.classes.toList ClassSymbol.fieldNames
  methodOwners : Lists g.methodOwners g.classes.toList ClassSymbol.methodNames

theorem wired_empty : Wired .empty where
  classes := Index.paired_empty
  ordered c listed := absurd listed List.not_mem_nil
  fieldOwners := ⟨fun _ => .nil, by simp [Graph.empty, Index.empty, Index.toList, Table.values]⟩
  methodOwners := ⟨fun _ => .nil, by simp [Graph.empty, Index.empty, Index.toList, Table.values]⟩

theorem Wired.insertClass {g new : Graph} (wired : g.Wired) {obfuscated intermediate : String}
    (inserted : g.insertClass (.bare obfuscated intermediate) = .ok new) : new.Wired := by
  obtain ⟨classes, made, rfl⟩ := map_eq_ok.mp inserted
  rcases wired.classes.insert_cases (.bare obfuscated intermediate) with
    ⟨_, name, refused⟩ | ⟨_, _, accepted, paired, added⟩
  · cases refused.symm.trans made
  · cases accepted.symm.trans made
    refine ⟨paired, ?_, ?_, ?_⟩
    · rw [added]
      intro c listed
      rcases List.mem_append.mp listed with known | new
      · exact wired.ordered c known
      · rw [List.mem_singleton.mp new]
        exact ClassSymbol.ordered_bare obfuscated intermediate
    · rw [added]
      exact wired.fieldOwners.concat_bare rfl
    · rw [added]
      exact wired.methodOwners.concat_bare rfl

section

variable {g : Graph} {owner : ClassSymbol}

theorem Wired.alone (wired : g.Wired) (listed : owner ∈ g.classes.toList) :
    ∀ c ∈ g.classes.toList, c.intermediate = owner.intermediate → c = owner :=
  fun _ there named => wired.classes.keyed.injective there listed named

theorem Wired.toList_modify (wired : g.Wired) (name : String) (f : ClassSymbol → ClassSymbol) :
    (g.classes.modify name f).toList =
      g.classes.toList.map (fun c => if c.intermediate = name then f c else c) :=
  wired.classes.keyed.values_modify name f

theorem Wired.ordered_modify (wired : g.Wired) {name : String} {f : ClassSymbol → ClassSymbol}
    (kept : ∀ c ∈ g.classes.toList, c.intermediate = name → (f c).Ordered) :
    ∀ c ∈ (g.classes.modify name f).toList, c.Ordered := by
  rw [wired.toList_modify]
  intro c listed
  obtain ⟨old, known, rfl⟩ := List.mem_map.mp listed
  split
  case isTrue here => exact kept old known here
  case isFalse => exact wired.ordered old known

theorem Wired.modifyClass (wired : g.Wired) (name : String) {f : ClassSymbol → ClassSymbol}
    (same : ∀ c, (f c).intermediate = c.intermediate ∧ (f c).obfuscated = c.obfuscated)
    (names : ∀ c ∈ g.classes.toList, (f c).fieldNames = c.fieldNames ∧
      (f c).methodNames = c.methodNames)
    (ordered : ∀ c, c.Ordered → (f c).Ordered) :
    Wired { g with classes := g.classes.modify name f } where
  classes := wired.classes.modify same name
  ordered := wired.ordered_modify (fun c listed _ => ordered c (wired.ordered c listed))
  fieldOwners := by
    rw [wired.toList_modify]
    refine wired.fieldOwners.map (fun c listed => ?_)
    split
    · exact ⟨(same c).1, (names c listed).1⟩
    · exact ⟨rfl, rfl⟩
  methodOwners := by
    rw [wired.toList_modify]
    refine wired.methodOwners.map (fun c listed => ?_)
    split
    · exact ⟨(same c).1, (names c listed).2⟩
    · exact ⟨rfl, rfl⟩

theorem Wired.addField (wired : g.Wired) {name : String} (found : g.classes.get? name = some owner)
    {f : Field} (own : f.owner = name) : (g.addField name owner f).Wired := by
  obtain ⟨listed, rfl⟩ := wired.classes.get?_eq_some_iff.mp found
  have ordered := wired.ordered owner listed
  rcases ordered.fields.insert_cases f with ⟨_, name, refused⟩ |
    ⟨fresh, fields, accepted, paired, added⟩
  · rw [Graph.addField, refused]
    exact wired
  · let grow (c : ClassSymbol) : ClassSymbol := { c with fields }
    have gain : (grow owner).fieldNames = owner.fieldNames ++ [f.intermediate] := by
      simp [grow, ClassSymbol.fieldNames, added]
    have new : f.intermediate ∉ owner.fieldNames := by
      intro known
      obtain ⟨x, there, same⟩ := List.mem_map.mp known
      simpa [Index.sharesName, Named.intermediate, same] using fresh x there
    rw [Graph.addField, accepted]
    refine ⟨wired.classes.modify (f := grow) (fun _ => ⟨rfl, rfl⟩) _, ?_, ?_, ?_⟩
    · refine wired.ordered_modify (fun c there named => ?_)
      cases wired.alone listed c there named
      refine ⟨paired, ordered.methods, fun x member => ?_, ordered.ownMethods⟩
      rw [added] at member
      rcases List.mem_append.mp member with known | last
      · exact ordered.ownFields x known
      · exact List.mem_singleton.mp last ▸ own
    · rw [wired.toList_modify]
      exact wired.fieldOwners.push (f := grow) listed (wired.alone listed) (fun _ => rfl) new gain
    · rw [wired.toList_modify]
      refine wired.methodOwners.map (fun c _ => ?_)
      split <;> exact ⟨rfl, rfl⟩

theorem Wired.addMethod (wired : g.Wired) {name : String} (found : g.classes.get? name = some owner)
    {m : Method} (own : m.owner = name) : (g.addMethod name owner m).Wired := by
  obtain ⟨listed, rfl⟩ := wired.classes.get?_eq_some_iff.mp found
  have ordered := wired.ordered owner listed
  by_cases known : owner.methods.contains m.intermediate = true
  · rw [Graph.addMethod, if_pos known]
    exact wired
  · have absent := Bool.eq_false_iff.mpr known
    have added := Table.values_insert_new absent m
    let grow (c : ClassSymbol) : ClassSymbol :=
      { c with methods := c.methods.insert m.intermediate m }
    have gain : (grow owner).methodNames = owner.methodNames ++ [m.intermediate] := by
      simp [grow, ClassSymbol.methodNames, added]
    have new : m.intermediate ∉ owner.methodNames := by
      intro listed
      exact known (ordered.methods.contains_iff.mpr (List.mem_map.mp listed))
    rw [Graph.addMethod, if_neg known]
    refine ⟨wired.classes.modify (f := grow) (fun _ => ⟨rfl, rfl⟩) _, ?_, ?_, ?_⟩
    · refine wired.ordered_modify (fun c there named => ?_)
      cases wired.alone listed c there named
      refine ⟨ordered.fields, ordered.methods.insert absent, ordered.ownFields, fun x member => ?_⟩
      rw [added] at member
      rcases List.mem_append.mp member with known | last
      · exact ordered.ownMethods x known
      · exact List.mem_singleton.mp last ▸ own
    · rw [wired.toList_modify]
      refine wired.fieldOwners.map (fun c _ => ?_)
      split <;> exact ⟨rfl, rfl⟩
    · rw [wired.toList_modify]
      exact wired.methodOwners.push (f := grow) listed (wired.alone listed) (fun _ => rfl) new gain

end

theorem kept_wired : Kept Wired where
  opened _ inserted wired := wired.insertClass inserted
  field f found own wired := wired.addField found own
  method m found own wired := wired.addMethod found own
  marked name owner wired := by
    refine wired.modifyClass owner (fun _ => ⟨rfl, rfl⟩) (fun c listed => ⟨rfl, ?_⟩) ?_
    · rw [ClassSymbol.methodNames, (wired.ordered c listed).methods.values_modify, List.map_map]
      refine List.map_congr_left (fun m _ => ?_)
      simp only [Function.comp]
      split <;> rfl
    · intro c ordered
      let mark (m : Method) : Method := { m with isStatic := true }
      refine ⟨ordered.fields, ordered.methods.modify (f := mark) (fun _ => rfl) name,
        ordered.ownFields, ?_⟩
      rw [ordered.methods.values_modify]
      intro m listed
      obtain ⟨old, known, rfl⟩ := List.mem_map.mp listed
      split <;> exact ordered.ownMethods old known
  constructed c wired := by
    refine wired.modifyClass c.owner (fun _ => ⟨rfl, rfl⟩) (fun _ _ => ⟨rfl, rfl⟩) ?_
    exact fun _ ordered => ⟨ordered.fields, ordered.methods, ordered.ownFields, ordered.ownMethods⟩

/-- What may be done to a graph after it was read. -/
inductive Edit where
  | statics (lines : List (List Char))
  | constructors (lines : List (List Char))
  | newClass (obfuscated intermediate : String)

/-- Constructors are added up to a line that breaks their list, and a class that is refused leaves
the graph as it was. -/
def Edit.run : Edit → Graph → Graph
  | statics lines, g => (g.applyStatics lines).1
  | constructors lines, g => (g.applyConstructors lines).1
  | newClass obfuscated intermediate, g =>
    (g.insertClass (.bare obfuscated intermediate)).toOption.getD g

def edited (g : Graph) (edits : List Edit) : Graph := edits.foldl (fun g edit => edit.run g) g

theorem Kept.edited {property : Graph → Prop} (kept : Kept property)
    (inserted : ∀ {g new obfuscated intermediate},
      g.insertClass (.bare obfuscated intermediate) = .ok new → property g → property new)
    {g : Graph} (holds : property g) (edits : List Edit) : property (g.edited edits) := by
  refine List.foldlRecOn _ _ holds (fun g holds edit _ => ?_)
  cases edit with
  | statics lines => exact kept.applyStatics holds lines
  | constructors lines => exact kept.applyConstructors holds lines
  | newClass obfuscated intermediate =>
    rw [Edit.run]
    cases made : g.insertClass (.bare obfuscated intermediate) with
    | error fault => exact holds
    | ok new => exact inserted made holds

/-- The indexes of a graph agree with each other: what is looked up is what was asked for, members
stand under their names in the class that owns them, and the lists of owners tell of exactly these
members. -/
structure Agrees (g : Graph) : Prop where
  classes : g.classes.Finds
  fields : ∀ c ∈ g.classes.toList, c.fields.Finds
  fieldKeys : ∀ c ∈ g.classes.toList, ∀ e ∈ c.fields.byIntermediate.entries,
    e.2.intermediate = e.1 ∧ e.2.owner = c.intermediate
  methodKeys : ∀ c ∈ g.classes.toList, ∀ e ∈ c.methods.entries,
    e.2.intermediate = e.1 ∧ e.2.owner = c.intermediate
  fieldOwners : Lists g.fieldOwners g.classes.toList ClassSymbol.fieldNames
  methodOwners : Lists g.methodOwners g.classes.toList ClassSymbol.methodNames
  fieldCount : g.fieldCount = (g.classes.toList.map (fun c => c.fields.size)).sum
  methodCount : g.methodCount = (g.classes.toList.map (fun c => c.methods.size)).sum

theorem Wired.agrees {g : Graph} (wired : g.Wired) (tallied : g.Tallied) : g.Agrees where
  classes := wired.classes.finds
  fields c listed := (wired.ordered c listed).fields.finds
  fieldKeys c listed e member :=
    have ordered := wired.ordered c listed
    ⟨ordered.fields.keyed.named e member, ordered.ownFields e.2 (List.mem_map_of_mem member)⟩
  methodKeys c listed e member :=
    have ordered := wired.ordered c listed
    ⟨ordered.methods.named e member, ordered.ownMethods e.2 (List.mem_map_of_mem member)⟩
  fieldOwners := wired.fieldOwners
  methodOwners := wired.methodOwners
  fieldCount := tallied.fieldCount
  methodCount := tallied.methodCount

/-- Whatever lines a graph was read from and whatever was done to it since, its indexes agree. -/
theorem indexes_agree {lines : List (List Char)} {g : Graph} (read : readLines lines = .ok g)
    (edits : List Edit) : (g.edited edits).Agrees := by
  have wired : g.Wired := kept_wired.readLines wired_empty read
  have tallied : g.Tallied := kept_tallied.readLines tallied_empty read
  exact Wired.agrees
    (kept_wired.edited (fun inserted wired => wired.insertClass inserted) wired edits)
    (kept_tallied.edited (fun inserted tallied => tallied.insertClass inserted) tallied edits)

/-- A method and its override, a field that repeats an obfuscated name and a method that repeats an
intermediate one. -/
def overrides : List (List Char) :=
  ["a net/Base", "\tb field_1_b", "\tb field_2_c", "\td (La;)V func_3_d", "\te (I)V func_3_d",
    "b net/Sub", "\td (La;)V func_3_d"].map String.toList

/-- The second list breaks off, and the second class has a name that is taken. -/
def overrideEdits : List Edit :=
  [.statics ["func_3_d".toList], .constructors ["7 net/Sub ()V".toList, "8 net/Sub".toList],
    .newClass "c" "net/New", .newClass "a" "net/Other"]

theorem indexes_agree_overrides :
    ∃ g, readLines overrides = .ok g ∧ (g.edited overrideEdits).Agrees ∧
      (g.edited overrideEdits).methodOwners.entries = [("func_3_d", ["net/Base", "net/Sub"])] ∧
      (g.edited overrideEdits).classes.byObfuscated.entries =
        [("a", "net/Base"), ("b", "net/Sub"), ("c", "net/New")] := by
  let g := (readLines overrides).toOption.getD .empty
  have read : readLines overrides = .ok g := by decide +kernel
  exact ⟨g, read, indexes_agree read overrideEdits, by decide +kernel, by decide +kernel⟩

end Graph

end SymbolAtlas
