import SymbolAtlas.Proofs.ClassSections
import SymbolAtlas.Proofs.ImportContents
import SymbolAtlas.Proofs.MappedTypes

/-! Descriptors from the lines of a graph to the records of its import. A line is accepted when its
descriptor can be read, whatever names the classes in it are mapped to later on. An import spells
the types of all arguments and so stops at a name that has no spelling; it stores the mapped
descriptor as a text without reading it back, and a name in the result may spoil that text. -/
namespace SymbolAtlas

namespace Graph

def methods (g : Graph) : List Method := g.classes.toList.flatMap (fun c => c.methods.values)

/-- The classes among the arguments of a method are mapped to names that a type can hold. -/
def NamesArguments (g : Graph) (m : Method) : Prop :=
  ∀ t ∈ m.descriptor.arguments, ∀ name ∈ t.className?,
    g.mapClass name ≠ "" ∧ ';' ∉ (g.mapClass name).toList

/-- The class that a method returns is mapped to a name that the end of a descriptor can hold. -/
def NamesResult (g : Graph) (m : Method) : Prop :=
  ∀ name ∈ m.descriptor.result.className?,
    ';' ∉ (g.mapClass name).toList ∧ ')' ∉ (g.mapClass name).toList

instance (g : Graph) (m : Method) : Decidable (g.NamesArguments m) :=
  inferInstanceAs (Decidable (∀ t ∈ m.descriptor.arguments, ∀ name ∈ t.className?, _))

instance (g : Graph) (m : Method) : Decidable (g.NamesResult m) :=
  inferInstanceAs (Decidable (∀ name ∈ m.descriptor.result.className?, _))

theorem newline_not_mem_contentLines {lines : List (List Char)}
    (free : ∀ line ∈ lines, '\n' ∉ line) : ∀ line ∈ contentLines lines, '\n' ∉ line := by
  intro content listed broken
  obtain ⟨line, known, rfl⟩ := List.mem_map.mp (List.mem_filter.mp listed).1
  exact free line known (Text.mem_of_mem_dropEndWhile broken)

theorem newline_not_mem_intermediate {x : Section} {c : ClassSymbol} (described : Describes x c)
    (free : '\n' ∉ x.header) : '\n' ∉ c.intermediate.toList := by
  intro broken
  have header : List.intercalate [' '] (x.header.splitOn ' ') = x.header :=
    List.intercalate_splitOn ' '
  rw [described.names] at header
  refine free (header ▸ ?_)
  simp [List.intercalate, broken]

/-- What the lines of a text make sure of: descriptors that can be read and names without a line
feed. -/
theorem readable_of_read {text : String} {g : Graph} (read : Graph.read text = .ok g) :
    (∀ c ∈ g.classes.toList, '\n' ∉ c.intermediate.toList) ∧
      ∀ m ∈ g.methods, m.descriptor.Readable := by
  constructor
  · intro c listed
    obtain ⟨r, rfl, mirrors⟩ := mirrors_of_readLines read
    obtain ⟨_, sections, content, described⟩ := mirrors.sections
    obtain ⟨x, member, describes⟩ := origin_of_forall₂ described listed
    refine newline_not_mem_intermediate describes ?_
    have known : x.header ∈ contentLines (Text.lines text.toList) :=
      content ▸ List.mem_flatMap.mpr ⟨x, member, List.mem_cons_self⟩
    exact newline_not_mem_contentLines (fun line => Text.newline_not_mem_lines) _ known
  · intro m listed
    obtain ⟨c, listed, member⟩ := List.mem_flatMap.mp listed
    obtain ⟨line, tells⟩ := exists_methodLine read listed member
    obtain ⟨descriptor, reads, _⟩ := tells.words
    exact (Descriptor.read_eq_ok_iff.mp reads).2

theorem spells_iff {g : Graph} {m : Method} (readable : m.descriptor.Readable) :
    g.Spells m ↔ g.NamesArguments m :=
  forall₂_congr (fun t listed => spelled_mapType_iff (readable.arguments t listed))

theorem mem_methods_iff {g : Graph} {first : Nat} {m : Method} :
    m ∈ g.methods ↔ ∃ n, (n, .method m) ∈ g.symbols first := by
  constructor
  · intro listed
    obtain ⟨c, listed, member⟩ := List.mem_flatMap.mp listed
    obtain ⟨i, there⟩ := List.mem_iff_getElem?.mp listed
    have symbol := ClassSymbol.method_mem_symbols.mpr member
    exact ⟨first + i, ClassSymbol.mem_symbolsFrom.mpr ⟨i, c, there, rfl, symbol⟩⟩
  · rintro ⟨n, listed⟩
    obtain ⟨_, c, there, _, symbol⟩ := ClassSymbol.mem_symbolsFrom.mp listed
    have member := ClassSymbol.method_mem_symbols.mp symbol
    exact List.mem_flatMap.mpr ⟨c, List.mem_of_getElem? there, member⟩

end Graph

/-- Every method stands with all its arguments behind it, and neither what precedes nor what follows
them is split. -/
structure LaidOut (symbols : List (Nat × MemberSymbol)) : Prop where
  headed : Headed symbols
  whole : ∀ j n m, symbols[j]? = some (n, .method m) →
    ∃ before after, symbols = before ++ (m.symbols.map (n, ·) ++ after) ∧ before.length = j ∧
      Headed before ∧ Headed after

theorem LaidOut.append {xs ys : List (Nat × MemberSymbol)} (first : LaidOut xs)
    (second : LaidOut ys) : LaidOut (xs ++ ys) where
  headed := first.headed.append second.headed
  whole j n m found := by
    rw [List.getElem?_append] at found
    split at found
    case isTrue =>
      obtain ⟨before, after, rfl, place, front, back⟩ := first.whole j n m found
      exact ⟨before, after ++ ys, by simp, place, front, back.append second.headed⟩
    case isFalse beyond =>
      obtain ⟨before, after, rfl, place, front, back⟩ := second.whole _ n m found
      refine ⟨xs ++ before, after, by simp, ?_, first.headed.append front, back⟩
      rw [List.length_append]
      omega

theorem headed_nil : Headed [] := fun _ _ _ _ _ found => by cases found

theorem laidOut_nil : LaidOut [] := ⟨headed_nil, fun _ _ _ found => by cases found⟩

theorem laidOut_flatMap {α : Type} {xs : List α} {symbols : α → List (Nat × MemberSymbol)}
    (laidOut : ∀ x, LaidOut (symbols x)) : LaidOut (xs.flatMap symbols) := by
  induction xs with
  | nil => exact laidOut_nil
  | cons x xs ih => exact (laidOut x).append ih

theorem Method.laidOut_symbols (m : Method) (n : Nat) : LaidOut (m.symbols.map (n, ·)) where
  headed := m.headed_symbols n
  whole j n' m' found := by
    cases j with
    | zero =>
      cases found
      exact ⟨[], [], (List.append_nil _).symm, rfl, headed_nil, headed_nil⟩
    | succ j =>
      simp only [symbols, List.map_cons, List.getElem?_cons_succ, List.getElem?_map,
        List.getElem?_mapIdx, Option.map_eq_some_iff] at found
      obtain ⟨_, ⟨_, _, rfl⟩, same⟩ := found
      cases same

theorem ClassSymbol.laidOut_symbolsFrom (first : Nat) (classes : List ClassSymbol) :
    LaidOut (symbolsFrom first classes) := by
  refine laidOut_flatMap (fun c => ?_)
  rw [symbols, List.map_append, List.map_flatMap]
  refine LaidOut.append ⟨?_, ?_⟩ (laidOut_flatMap (fun m => m.laidOut_symbols c.2))
  · intro j n m i type found
    simp only [List.map_map, List.getElem?_map, Option.map_eq_some_iff] at found
    obtain ⟨f, _, same⟩ := found
    cases same
  · intro j n m found
    simp only [List.map_map, List.getElem?_map, Option.map_eq_some_iff] at found
    obtain ⟨f, _, same⟩ := found
    cases same

/-- A parameter that a member owns. -/
def MemberRecord.isParameterOf (m : MemberRecord) (owner : Nat) : Bool :=
  m.key.kind = .parameter && m.owner = some owner

theorem MemberSymbol.isParameterOf_record {g : Graph} {version : String}
    {position ofClass owner : Nat} {x : MemberSymbol} :
    (x.record g version position ofClass).isParameterOf owner = true ↔
      ∃ m i type, x = .argument m i type ∧ position - (i + 1) = owner := by
  cases x <;> simp [record, MemberRecord.isParameterOf]

namespace Graph

variable (g : Graph) (version : String)

theorem parameters_elsewhere {xs : List (Nat × MemberSymbol)} (headed : Headed xs)
    {position owner : Nat} (outside : owner < position ∨ position + xs.length ≤ owner) :
    (g.memberRecords version position xs).filter (·.isParameterOf owner) = [] := by
  refine List.filter_eq_nil_iff.mpr (fun r listed owned => ?_)
  obtain ⟨i, bound, rfl⟩ := List.mem_mapIdx.mp listed
  obtain ⟨m, k, type, symbol, place⟩ := MemberSymbol.isParameterOf_record.mp owned
  have found : xs[i]? = some (xs[i].1, .argument m k type) :=
    (List.getElem?_eq_getElem bound).trans (congrArg some (Prod.ext rfl symbol))
  obtain ⟨head, behind, method⟩ := headed i _ m k type found
  have inside : head < xs.length := (List.getElem?_eq_some_iff.mp method).1
  omega

theorem length_parameters_method (position n : Nat) (m : Method) :
    ((g.memberRecords version position (m.symbols.map (n, ·))).filter
      (·.isParameterOf position)).length = m.descriptor.arguments.length := by
  rw [Method.symbols, List.map_cons, memberRecords, List.mapIdx_cons, List.filter_cons_of_neg,
    List.filter_eq_self.mpr]
  · simp
  · intro r listed
    simp only [List.mem_mapIdx, List.getElem_map, List.getElem_mapIdx] at listed
    obtain ⟨i, bound, rfl⟩ := listed
    exact MemberSymbol.isParameterOf_record.mpr ⟨m, i, _, rfl, Nat.add_sub_cancel ..⟩
  · simp [MemberSymbol.isParameterOf_record]

theorem length_parameters {symbols : List (Nat × MemberSymbol)} (laidOut : LaidOut symbols)
    {j n : Nat} {m : Method} (found : symbols[j]? = some (n, .method m)) (position : Nat) :
    ((g.memberRecords version position symbols).filter
      (·.isParameterOf (position + j))).length = m.descriptor.arguments.length := by
  obtain ⟨before, after, rfl, rfl, front, back⟩ := laidOut.whole j n m found
  have width : 0 < (m.symbols.map (n, ·)).length := by simp [Method.symbols]
  rw [memberRecords_append, memberRecords_append, List.filter_append, List.filter_append,
    g.parameters_elsewhere version front (.inr (Nat.le_refl _)),
    g.parameters_elsewhere version back (.inl (by omega)), List.nil_append, List.append_nil,
    length_parameters_method]

end Graph

namespace Store

/-- Every method record that is new in a store has a text that reads as the mapped descriptor of its
method, and as many new parameters as that descriptor has arguments. -/
def KeepsDescriptors (g : Graph) (s t : Store) : Prop :=
  ∀ j r, t.member? (s.members.length + j) = some r → r.key.kind = .method →
    ∃ n m text, (g.symbols s.classes.length)[j]? = some (n, .method m) ∧
      r.descriptor = some text ∧ Descriptor.read text = .ok (g.mapDescriptor m.descriptor) ∧
      ((t.members.drop s.members.length).filter (·.isParameterOf r.id)).length =
        (g.mapDescriptor m.descriptor).arguments.length

theorem TakenIn.symbol_of_member {g : Graph} {version : String} {s t : Store}
    (takenIn : TakenIn g version s t) {j : Nat} {r : MemberRecord}
    (found : t.member? (s.members.length + j) = some r) :
    ∃ n x, (g.symbols s.classes.length)[j]? = some (n, x) ∧
      r = x.record g version (s.members.length + j) n := by
  rw [member?, takenIn.members, List.getElem?_append_right (Nat.le_add_right _ _),
    Nat.add_sub_cancel_left, Graph.memberRecords, List.getElem?_mapIdx,
    Option.map_eq_some_iff] at found
  obtain ⟨⟨n, x⟩, listed, rfl⟩ := found
  exact ⟨n, x, listed, rfl⟩

theorem TakenIn.keepsDescriptors_iff {g : Graph} {version : String} {s t : Store}
    (takenIn : TakenIn g version s t) :
    KeepsDescriptors g s t ↔ ∀ m ∈ g.methods, (g.mapDescriptor m.descriptor).Readable := by
  have readable_iff (m : Method) : Descriptor.read (g.mapDescriptor m.descriptor).encode =
      .ok (g.mapDescriptor m.descriptor) ↔ (g.mapDescriptor m.descriptor).Readable := by
    simp [Descriptor.read_eq_ok_iff]
  constructor
  · intro keeps m listed
    obtain ⟨n, symbol⟩ : ∃ n, (n, MemberSymbol.method m) ∈ g.symbols s.classes.length :=
      Graph.mem_methods_iff.mp listed
    obtain ⟨j, found⟩ := List.mem_iff_getElem?.mp symbol
    obtain ⟨_, m', text, found', stored, reads, _⟩ :=
      keeps j _ (member?_of_symbol takenIn.members found) rfl
    cases found.symm.trans found'
    cases stored
    exact (readable_iff m).mp reads
  · intro readable j r found isMethod
    obtain ⟨n, x, listed, rfl⟩ := takenIn.symbol_of_member found
    cases x with
    | field f => cases isMethod
    | argument m i type => cases isMethod
    | method m =>
      have member : m ∈ g.methods := Graph.mem_methods_iff.mpr ⟨n, List.mem_of_getElem? listed⟩
      refine ⟨n, m, _, listed, rfl, (readable_iff m).mpr (readable m member), ?_⟩
      rw [takenIn.members, List.drop_left]
      refine (g.length_parameters version (ClassSymbol.laidOut_symbolsFrom _ _) listed _).trans ?_
      exact (List.length_map _).symm

/-- The import of a graph that was read succeeds exactly when the class names among the arguments
are mapped to names that a type can hold; and if it does, the descriptors it stores read as the
mapped ones exactly when the class names in the results are mapped to names that the end of a
descriptor can hold. -/
theorem import_keeps_descriptors {text : String} {g : Graph} (read : Graph.read text = .ok g)
    {s : Store} {version : String} (fresh : s.version? version = none)
    (free : version ≠ latestWord) (now : Instant) (digest : String) :
    ((∃ report t, (importGraph now version g digest).applyTo s = (.ok report, t)) ↔
        ∀ m ∈ g.methods, g.NamesArguments m) ∧
      ∀ report t, (importGraph now version g digest).applyTo s = (.ok report, t) →
        (KeepsDescriptors g s t ↔ ∀ m ∈ g.methods, g.NamesResult m) := by
  obtain ⟨oneLine, readable⟩ := Graph.readable_of_read read
  have succeeds_iff : (∃ report t, (importGraph now version g digest).applyTo s = (.ok report, t)) ↔
      ∀ m ∈ g.methods, g.NamesArguments m := by
    have converts_iff : (∃ report t, (importGraph now version g digest).applyTo s =
        (.ok report, t)) ↔ ∃ pending, g.pendingClasses version = .ok pending := by
      simp [importGraph_eq_ok_iff, fresh, free]
    rw [converts_iff, Graph.pendingClasses_succeeds_iff]
    refine List.forall_mem_flatMap.symm.trans (forall₂_congr (fun m listed => ?_))
    exact Graph.spells_iff (readable m listed)
  refine ⟨succeeds_iff, fun report t succeeded => ?_⟩
  have spelled := succeeds_iff.mp ⟨report, t, succeeded⟩
  obtain ⟨_, _, pending, made, _, rfl⟩ := importGraph_eq_ok_iff.mp succeeded
  rw [(takenIn_withVersion made s now digest).keepsDescriptors_iff]
  refine forall₂_congr (fun m listed => ?_)
  rw [Graph.readable_mapDescriptor_iff oneLine (readable m listed)]
  exact and_iff_right (fun t argument name known => (spelled m listed t argument name known).2)

theorem import_keeps_descriptors_mapped :
    let s := replay Step.run specimen .empty
    ∃ g report t, Graph.read "a net/Other\n\tb (La;[I)[La; func_9_b\n" = .ok g ∧
      (importGraph ⟨90, 0⟩ "2" g "1").applyTo s = (.ok report, t) ∧ KeepsDescriptors g s t ∧
      (t.members.drop s.members.length).map MemberRecord.descriptor =
        [some "(Lnet/Other;[I)[Lnet/Other;", none, none] := by
  intro s
  let g := (Graph.read "a net/Other\n\tb (La;[I)[La; func_9_b\n").toOption.getD .empty
  have read : Graph.read "a net/Other\n\tb (La;[I)[La; func_9_b\n" = .ok g := by decide +kernel
  have fresh : s.version? "2" = none := by decide +kernel
  obtain ⟨succeeds_iff, keeps_iff⟩ :=
    import_keeps_descriptors read fresh (by decide) ⟨90, 0⟩ "1"
  obtain ⟨report, t, succeeded⟩ := succeeds_iff.mpr (by decide +kernel)
  refine ⟨g, report, t, read, succeeded, (keeps_iff report t succeeded).mpr (by decide +kernel), ?_⟩
  have stored : t = ((importGraph ⟨90, 0⟩ "2" g "1").applyTo s).2 :=
    (congrArg Prod.snd succeeded).symm
  rw [stored]
  decide +kernel

/-- An empty class name among the arguments is accepted with its line and refused without one when
the graph is imported; a parenthesis in the name of a class is stored in the result of a method,
whose descriptor cannot be read back. -/
theorem accepted_descriptors_lost :
    (∃ g, Graph.read "a net/Foo\n\tb (L;)V func_1_b\n" = .ok g ∧
      (importGraph ⟨0, 0⟩ "1" g "0").applyTo .empty =
        (.error (.malformedDescriptor "L;" "unterminated object type"), .empty)) ∧
    ∃ g report t, Graph.read "a b)c\n\td ()La; func_1_d\n" = .ok g ∧
      (importGraph ⟨0, 0⟩ "1" g "0").applyTo .empty = (.ok report, t) ∧
      t.members.map MemberRecord.descriptor = [some "()Lb)c;"] ∧
      Descriptor.read "()Lb)c;" = .error (.malformedDescriptor "()Lb)c;" "unknown type code") := by
  constructor
  · exact ⟨(Graph.read "a net/Foo\n\tb (L;)V func_1_b\n").toOption.getD .empty,
      by decide +kernel, by decide +kernel⟩
  · let g := (Graph.read "a b)c\n\td ()La; func_1_d\n").toOption.getD .empty
    let stored := ((importGraph ⟨0, 0⟩ "1" g "0").applyTo .empty).2
    exact ⟨g, ⟨1, 0, 0, 1, 0⟩, stored, by decide +kernel, by decide +kernel, by decide +kernel,
      by decide +kernel⟩

end Store

end SymbolAtlas
