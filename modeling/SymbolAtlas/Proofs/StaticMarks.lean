import Mathlib.Data.List.Induction
import SymbolAtlas.Proofs.GraphIndexes

/-! Lists of static methods. A name reaches its methods through the lists of owners, class by class,
and each class of a list is changed in place. All of a list comes to one change of the graph: the
methods with a listed name become static, and nothing else does. So neither the order of the lines
nor their repetition can be told from the graph, and the change commutes with every list of
constructors, also with one that breaks off. -/
namespace SymbolAtlas

namespace Table

variable {κ α : Type}

def mapValues (f : α → α) (t : Table κ α) : Table κ α := ⟨t.entries.map (fun e => (e.1, f e.2))⟩

theorem values_mapValues (f : α → α) (t : Table κ α) :
    (t.mapValues f).values = t.values.map f := by
  simp [values, mapValues, Function.comp_def]

theorem mapValues_mapValues (f g : α → α) (t : Table κ α) :
    (t.mapValues f).mapValues g = t.mapValues (fun a => g (f a)) := by
  simp [mapValues, Function.comp_def]

theorem mapValues_congr {f g : α → α} {t : Table κ α} (same : ∀ e ∈ t.entries, f e.2 = g e.2) :
    t.mapValues f = t.mapValues g := by
  rw [mapValues, mapValues, List.map_congr_left (fun e listed => by rw [same e listed])]

theorem mapValues_of_fixed {f : α → α} {t : Table κ α} (fixed : ∀ e ∈ t.entries, f e.2 = e.2) :
    t.mapValues f = t := by
  obtain ⟨entries⟩ := t
  rw [mapValues_congr (g := id) fixed]
  simp [mapValues]

variable [DecidableEq κ]

theorem get?_mapValues (f : α → α) (t : Table κ α) (key : κ) :
    (t.mapValues f).get? key = (t.get? key).map f := by
  obtain ⟨entries⟩ := t
  simp only [mapValues, get?]
  induction entries with
  | nil => rfl
  | cons e rest ih =>
    rw [List.map_cons, valueAt?, valueAt?, ih]
    split <;> rfl

theorem mapValues_modify {f change : α → α} (commute : ∀ a, f (change a) = change (f a))
    (t : Table κ α) (key : κ) :
    (t.modify key change).mapValues f = (t.mapValues f).modify key change := by
  simp only [mapValues, modify, List.map_map, mk.injEq]
  refine List.map_congr_left (fun e _ => ?_)
  simp only [Function.comp]
  split
  · rw [commute]
  · rfl

/-- Changes at keys of which none is listed twice. -/
theorem foldl_modify {keys : List κ} (nodup : keys.Nodup) (f : α → α) (t : Table κ α) :
    keys.foldl (fun t key => t.modify key f) t =
      ⟨t.entries.map (fun e => if e.1 ∈ keys then (e.1, f e.2) else e)⟩ := by
  induction keys generalizing t with
  | nil => simp
  | cons key keys ih =>
    rw [List.nodup_cons] at nodup
    rw [List.foldl_cons, ih nodup.2, modify, List.map_map]
    congr 1
    refine List.map_congr_left (fun e _ => ?_)
    by_cases here : e.1 = key
    · simp [here, nodup.1]
    · simp [here]

end Table

def Method.marked (names : List String) (m : Method) : Method :=
  { m with isStatic := m.isStatic || names.contains m.intermediate }

def ClassSymbol.marked (names : List String) (c : ClassSymbol) : ClassSymbol :=
  { c with methods := c.methods.mapValues (Method.marked names) }

/-- The methods of all classes that have one of the names become static; all else stays. -/
def Graph.marked (names : List String) (g : Graph) : Graph :=
  { g with
    classes := { g.classes with
      byIntermediate := g.classes.byIntermediate.mapValues (ClassSymbol.marked names) } }

theorem Method.marked_append (names others : List String) :
    Method.marked (names ++ others) = fun m => (m.marked names).marked others := by
  funext m
  simp [Method.marked, Bool.or_assoc]

theorem Method.marked_congr {names others : List String}
    (same : ∀ name, name ∈ names ↔ name ∈ others) : Method.marked names = Method.marked others := by
  funext m
  simp [Method.marked, same]

theorem Method.marked_of_not_mem {names : List String} {m : Method}
    (absent : m.intermediate ∉ names) : m.marked names = m := by
  simp [Method.marked, absent]

namespace ClassSymbol

theorem marked_append (names others : List String) :
    marked (names ++ others) = fun c => (c.marked names).marked others := by
  funext c
  simp only [marked, Table.mapValues_mapValues, Method.marked_append]

theorem methodNames_marked (names : List String) (c : ClassSymbol) :
    (c.marked names).methodNames = c.methodNames := by
  simp [methodNames, marked, Table.values_mapValues, Function.comp_def, Method.marked]

theorem marked_of_not_mem {name : String} {c : ClassSymbol} (absent : name ∉ c.methodNames) :
    c.marked [name] = c := by
  have fixed : c.methods.mapValues (Method.marked [name]) = c.methods := by
    refine Table.mapValues_of_fixed (fun e listed => Method.marked_of_not_mem (fun same => ?_))
    rw [List.mem_singleton] at same
    exact absent (same ▸ List.mem_map_of_mem (List.mem_map_of_mem listed))
  rw [marked, fixed]

/-- The method that stands under a name becomes static where it stands. -/
def mark (name : String) (c : ClassSymbol) : ClassSymbol :=
  { c with methods := c.methods.modify name (fun m => { m with isStatic := true }) }

theorem Ordered.mark_eq {c : ClassSymbol} (ordered : c.Ordered) (name : String) :
    c.mark name = c.marked [name] := by
  have methods : c.methods.modify name (fun m => { m with isStatic := true }) =
      c.methods.mapValues (Method.marked [name]) := by
    rw [Table.modify, Table.mapValues]
    congr 1
    refine List.map_congr_left (fun e listed => ?_)
    have own := ordered.methods.named e listed
    split
    case isTrue here => simp [Method.marked, own, here]
    case isFalse other =>
      rw [Method.marked_of_not_mem (by simpa [own] using other)]
  rw [mark, marked, methods]

end ClassSymbol

namespace Graph

variable {g : Graph}

theorem marked_nil : g.marked [] = g := by
  have fixed : g.classes.byIntermediate.mapValues (ClassSymbol.marked []) =
      g.classes.byIntermediate := by
    refine Table.mapValues_of_fixed (fun e _ => ?_)
    have methods : e.2.methods.mapValues (Method.marked []) = e.2.methods :=
      Table.mapValues_of_fixed (fun _ _ => Method.marked_of_not_mem List.not_mem_nil)
    rw [ClassSymbol.marked, methods]
  rw [marked, fixed]

theorem marked_append (names others : List String) :
    g.marked (names ++ others) = (g.marked names).marked others := by
  simp only [marked, Table.mapValues_mapValues, ClassSymbol.marked_append]

theorem marked_congr {names others : List String} (same : ∀ name, name ∈ names ↔ name ∈ others) :
    g.marked names = g.marked others := by
  have classes : ClassSymbol.marked names = ClassSymbol.marked others := by
    funext c
    rw [ClassSymbol.marked, ClassSymbol.marked, Method.marked_congr same]
  rw [marked, marked, classes]

theorem toList_marked (names : List String) :
    (g.marked names).classes.toList = g.classes.toList.map (ClassSymbol.marked names) :=
  Table.values_mapValues _ _

theorem foldl_markStaticIn (name : String) (owners : List String) :
    owners.foldl (fun g owner => g.markStaticIn name owner) g =
      { g with
        classes := { g.classes with
          byIntermediate := owners.foldl (fun t owner => t.modify owner (ClassSymbol.mark name))
            g.classes.byIntermediate } } := by
  induction owners generalizing g with
  | nil => rfl
  | cons owner owners ih =>
    rw [List.foldl_cons, ih]
    rfl

theorem hasMethod_markStaticIn (name owner other : String) :
    (g.markStaticIn name owner).hasMethod name other = g.hasMethod name other := by
  have methods (c : ClassSymbol) : ((c.mark name).methods.get? name).isSome =
      (c.methods.get? name).isSome := by
    rw [ClassSymbol.mark, Table.get?_modify, if_pos rfl, Option.isSome_map]
  have found : (g.markStaticIn name owner).classes.get? other =
      if other = owner then (g.classes.get? other).map (ClassSymbol.mark name)
      else g.classes.get? other :=
    Table.get?_modify _ _ _ _
  rw [hasMethod, hasMethod, found]
  split
  · cases g.classes.get? other with
    | none => rfl
    | some c => exact methods c
  · rfl

/-- Marks leave in place what is found, so all methods that are found at first are counted. -/
theorem foldl_found {name : String} {owners : List String}
    (found : ∀ owner ∈ owners, g.hasMethod name owner = true) (applied : Nat) :
    owners.foldl (fun (g, applied) owner =>
        if g.hasMethod name owner then (g.markStaticIn name owner, applied + 1) else (g, applied))
      (g, applied) =
      (owners.foldl (fun g owner => g.markStaticIn name owner) g, applied + owners.length) := by
  induction owners generalizing g applied with
  | nil => rfl
  | cons owner owners ih =>
    rw [List.forall_mem_cons] at found
    have later : ∀ other ∈ owners, (g.markStaticIn name owner).hasMethod name other = true :=
      fun other listed => (hasMethod_markStaticIn name owner other).trans (found.2 other listed)
    rw [List.foldl_cons, List.foldl_cons]
    dsimp only
    rw [if_pos found.1, ih later, List.length_cons, Nat.add_assoc, Nat.add_comm 1]

theorem Wired.hasMethod (wired : g.Wired) {name owner : String}
    (listed : owner ∈ (g.methodOwners.get? name).getD []) : g.hasMethod name owner = true := by
  obtain ⟨c, there, rfl, has⟩ := (wired.methodOwners.mem_iff name owner).mp listed
  have found : g.classes.get? c.intermediate = some c :=
    wired.classes.get?_eq_some_iff.mpr ⟨there, rfl⟩
  have known : c.methods.contains name = true :=
    (wired.ordered c there).methods.contains_iff.mpr (List.mem_map.mp has)
  rw [Graph.hasMethod, found]
  exact known

theorem Wired.markStatic_eq (wired : g.Wired) (name : String) :
    g.markStatic name =
      (((g.methodOwners.get? name).getD []).foldl (fun g owner => g.markStaticIn name owner) g,
        ((g.methodOwners.get? name).getD []).length) := by
  rw [markStatic, foldl_found (fun owner listed => wired.hasMethod listed), Nat.zero_add]

/-- The owners of a name are the classes with such a method, so marking it there marks it
everywhere. -/
theorem Wired.markStatic_fst (wired : g.Wired) (name : String) :
    (g.markStatic name).1 = g.marked [name] := by
  have classes : g.classes.byIntermediate.entries.map (fun e =>
      if e.1 ∈ (g.methodOwners.get? name).getD [] then (e.1, e.2.mark name) else e) =
      g.classes.byIntermediate.entries.map (fun e => (e.1, e.2.marked [name])) := by
    refine List.map_congr_left (fun e listed => ?_)
    have own := wired.classes.keyed.named e listed
    have member : e.2 ∈ g.classes.toList := List.mem_map_of_mem listed
    split
    · rw [(wired.ordered e.2 member).mark_eq]
    case isFalse unlisted =>
      have absent : name ∉ e.2.methodNames := fun has =>
        unlisted ((wired.methodOwners.mem_iff name e.1).mpr ⟨e.2, member, own, has⟩)
      rw [ClassSymbol.marked_of_not_mem absent]
  rw [wired.markStatic_eq, foldl_markStaticIn, Table.foldl_modify (wired.methodOwners.nodup name),
    classes]
  rfl

def countNamed (g : Graph) (name : String) : Nat :=
  g.classes.toList.countP (fun c => c.methodNames.contains name)

theorem countNamed_marked (names : List String) (name : String) :
    (g.marked names).countNamed name = g.countNamed name := by
  simp [countNamed, toList_marked, List.countP_map, Function.comp_def,
    ClassSymbol.methodNames_marked]

theorem Wired.markStatic_snd (wired : g.Wired) (name : String) :
    (g.markStatic name).2 = g.countNamed name := by
  let named := g.classes.toList.filter (fun c => c.methodNames.contains name)
  have distinct : (named.map ClassSymbol.intermediate).Nodup := by
    have nodup := wired.classes.keyed.nodup
    rw [wired.classes.keyed.keys] at nodup
    exact nodup.sublist (List.filter_sublist.map _)
  have members : ∀ owner, owner ∈ (g.methodOwners.get? name).getD [] ↔
      owner ∈ named.map ClassSymbol.intermediate := by
    intro owner
    rw [wired.methodOwners.mem_iff]
    simp only [named, List.mem_map, List.mem_filter, List.contains_iff_mem]
    exact exists_congr (fun c => by rw [and_comm (a := c.intermediate = owner), and_assoc])
  have perm := (List.perm_ext_iff_of_nodup (wired.methodOwners.nodup name) distinct).mpr members
  rw [wired.markStatic_eq, perm.length_eq, List.length_map, countNamed,
    List.countP_eq_length_filter]

def nameOn (line : List Char) : String := String.ofList (Text.trim line)

theorem applyStatics_concat (lines : List (List Char)) (line : List Char) :
    g.applyStatics (lines ++ [line]) =
      (((g.applyStatics lines).1.markStatic (nameOn line)).1,
        (g.applyStatics lines).2 + ((g.applyStatics lines).1.markStatic (nameOn line)).2) := by
  rw [applyStatics, List.foldl_append]
  rfl

theorem Wired.applyStatics_eq (wired : g.Wired) (lines : List (List Char)) :
    g.applyStatics lines =
      (g.marked (lines.map nameOn), (lines.map (fun line => g.countNamed (nameOn line))).sum) := by
  induction lines using List.reverseRecOn with
  | nil => exact Prod.ext marked_nil.symm rfl
  | append_singleton lines line ih =>
    have wired' : (g.applyStatics lines).1.Wired := kept_wired.applyStatics wired lines
    rw [applyStatics_concat, wired'.markStatic_fst, wired'.markStatic_snd, ih]
    simp [marked_append, countNamed_marked]

theorem marked_addConstructor (names : List String) (c : Constructor) :
    (g.addConstructor c).marked names = (g.marked names).addConstructor c := by
  simp only [addConstructor, marked, Index.modify]
  rw [Table.mapValues_modify]
  exact fun _ => rfl

theorem applyConstructorLines_marked (names : List String) (applied : Nat)
    (lines : List (Nat × List Char)) :
    (g.marked names).applyConstructorLines applied lines =
      ((g.applyConstructorLines applied lines).1.marked names,
        (g.applyConstructorLines applied lines).2) := by
  induction lines generalizing g applied with
  | nil => rfl
  | cons l lines ih =>
    obtain ⟨number, line⟩ := l
    rw [applyConstructorLines, applyConstructorLines]
    cases readConstructor (Text.trim line) with
    | error fault => rfl
    | ok c =>
      have found : ((g.marked names).classes.get? c.owner).isSome =
          (g.classes.get? c.owner).isSome := by
        rw [Index.get?, marked, Table.get?_mapValues, Option.isSome_map]
        rfl
      dsimp only
      rw [found, ← marked_addConstructor]
      split
      · exact ih ..
      · exact ih ..

/-- All that a list of static methods does to a graph. -/
structure MarksStatics (g : Graph) (lines : List (List Char)) : Prop where
  graph : (g.applyStatics lines).1 = g.marked (lines.map nameOn)
  /-- Lines in another order, or fewer or more times. -/
  reordered : ∀ others, (∀ line, line ∈ others ↔ line ∈ lines) →
    (g.applyStatics others).1 = (g.applyStatics lines).1
  again : ((g.applyStatics lines).1.applyStatics lines).1 = (g.applyStatics lines).1
  constructors : ∀ others, (g.applyStatics lines).1.applyConstructors others =
    (((g.applyConstructors others).1.applyStatics lines).1, (g.applyConstructors others).2)
  count : (g.applyStatics lines).2 = (lines.map (fun line => g.countNamed (nameOn line))).sum

theorem Wired.marksStatics (wired : g.Wired) (lines : List (List Char)) : g.MarksStatics lines where
  graph := by rw [wired.applyStatics_eq]
  reordered others same := by
    rw [wired.applyStatics_eq, wired.applyStatics_eq]
    refine marked_congr (fun name => ?_)
    simp [same]
  again := by
    have marked : (g.applyStatics lines).1.Wired := kept_wired.applyStatics wired lines
    rw [marked.applyStatics_eq, wired.applyStatics_eq]
    dsimp only
    rw [← marked_append]
    exact marked_congr (by simp)
  constructors others := by
    have constructed : (g.applyConstructors others).1.Wired :=
      kept_wired.applyConstructors wired others
    rw [constructed.applyStatics_eq, wired.applyStatics_eq]
    exact applyConstructorLines_marked (lines.map nameOn) 0 (Text.numbered others)
  count := by rw [wired.applyStatics_eq]

/-- In a graph that was read, whatever was done to it since, a list of static methods marks the
methods with its names and does nothing else. -/
theorem statics_marked {text : List (List Char)} {g : Graph} (read : readLines text = .ok g)
    (edits : List Edit) (lines : List (List Char)) : (g.edited edits).MarksStatics lines := by
  have wired : g.Wired := kept_wired.readLines wired_empty read
  have edited : (g.edited edits).Wired :=
    kept_wired.edited (fun inserted wired => wired.insertClass inserted) wired edits
  exact edited.marksStatics lines

/-- A name that comes twice, and one that no method has. -/
def overrideMarks : List (List Char) :=
  [" func_3_d ", "func_9_x", "func_3_d\t"].map String.toList

/-- A method and its override become static together, and each line counts both. -/
theorem statics_marked_overrides :
    ∃ g, readLines overrides = .ok g ∧
      (g.edited [.newClass "c" "net/New"]).MarksStatics overrideMarks ∧
      ((g.edited [.newClass "c" "net/New"]).applyStatics overrideMarks).2 = 4 ∧
      ∀ c ∈ ((g.edited [.newClass "c" "net/New"]).applyStatics overrideMarks).1.classes.toList,
        ∀ m ∈ c.methods.values, m.isStatic = true := by
  let g := (readLines overrides).toOption.getD .empty
  have read : readLines overrides = .ok g := by decide +kernel
  exact ⟨g, read, statics_marked read _ overrideMarks, by decide +kernel, by decide +kernel⟩

end Graph

end SymbolAtlas
