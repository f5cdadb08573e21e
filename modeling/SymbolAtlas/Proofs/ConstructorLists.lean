import SymbolAtlas.Graph.Extras
import SymbolAtlas.Proofs.TextLines

/-! Lists of constructors. A list is applied line by line, each constructor to the class that it
names, and whatever precedes a bad line stays applied. All of it comes to one change of the graph:
each class has the constructors of the lines that name it put over those it had, where an id keeps
its first place and has its last line. Nothing else in the graph is touched. -/
namespace SymbolAtlas

namespace Table

variable {κ α : Type} [DecidableEq κ]

/-- The last value that was given to the key of an entry, or else the one it has. -/
def lastGiven (given : List (κ × α)) (e : κ × α) : κ × α :=
  (e.1, (valueAt? e.1 given.reverse).getD e.2)

/-- Where the keys stand once values were given to some: those that are new come behind the others,
in the order of their first values. -/
def places (t : Table κ α) (given : List (κ × α)) : List (κ × α) :=
  t.entries ++ firsts Prod.fst (given.filter (fun e => e.1 ∉ t.keys))

def overwritten (t : Table κ α) (given : List (κ × α)) : Table κ α :=
  ⟨(t.places given).map (lastGiven given)⟩

variable {t : Table κ α} {given : List (κ × α)}

theorem lastGiven_concat (e x : κ × α) :
    lastGiven (given ++ [e]) x = if x.1 = e.1 then (x.1, e.2) else lastGiven given x := by
  rw [lastGiven, List.reverse_append, List.reverse_singleton, List.singleton_append, valueAt?]
  by_cases same : x.1 = e.1
  · simp [same]
  · simp [same, Ne.symm same, lastGiven]

theorem mem_keys_places {key : κ} :
    key ∈ (t.places given).map Prod.fst ↔ key ∈ t.keys ∨ key ∈ given.map Prod.fst := by
  rw [places, List.map_append, List.mem_append, mem_map_firsts_iff, ← keys]
  by_cases known : key ∈ t.keys
  · simp [known]
  · simp only [known, false_or, List.mem_map, List.mem_filter, decide_not, Bool.not_eq_true',
      decide_eq_false_iff_not]
    constructor
    · rintro ⟨e, ⟨listed, _⟩, rfl⟩
      exact ⟨e, listed, rfl⟩
    · rintro ⟨e, listed, rfl⟩
      exact ⟨e, ⟨listed, known⟩, rfl⟩

theorem places_concat (e : κ × α) :
    t.places (given ++ [e]) =
      if e.1 ∈ (t.places given).map Prod.fst then t.places given else t.places given ++ [e] := by
  simp only [mem_keys_places]
  rw [places, List.filter_append]
  by_cases known : e.1 ∈ t.keys
  · simp [known, places]
  · have stays : [e].filter (fun e => e.1 ∉ t.keys) = [e] := by simp [known]
    have listed : e.1 ∈ (given.filter (fun e => e.1 ∉ t.keys)).map Prod.fst ↔
        e.1 ∈ given.map Prod.fst := by
      simp [known]
    rw [stays, firsts_concat]
    simp only [listed, known, false_or]
    split
    · rfl
    · rw [places, List.append_assoc]

theorem keys_overwritten : (t.overwritten given).keys = (t.places given).map Prod.fst := by
  rw [keys, overwritten, List.map_map]
  rfl

theorem overwritten_concat (e : κ × α) :
    t.overwritten (given ++ [e]) = (t.overwritten given).insert e.1 e.2 := by
  have turned : lastGiven (given ++ [e]) =
      fun x => if x.1 = e.1 then (x.1, e.2) else lastGiven given x :=
    funext (fun x => lastGiven_concat e x)
  have known_iff : (t.overwritten given).contains e.1 = true ↔
      e.1 ∈ (t.places given).map Prod.fst := by
    rw [contains_iff_mem_keys, keys_overwritten]
  rw [insert]
  by_cases known : e.1 ∈ (t.places given).map Prod.fst
  · rw [if_pos (known_iff.mpr known), modify, overwritten, overwritten, places_concat,
      if_pos known, turned, List.map_map]
    rfl
  · have others : (t.places given).map (lastGiven (given ++ [e])) =
        (t.places given).map (lastGiven given) := by
      refine List.map_congr_left (fun x listed => ?_)
      rw [lastGiven_concat, if_neg]
      exact fun same => known (same ▸ List.mem_map_of_mem listed)
    rw [if_neg (mt known_iff.mp known), overwritten, places_concat, if_neg known,
      List.map_append, others, turned]
    simp [overwritten]

theorem overwritten_nil : t.overwritten [] = t := by
  have same : lastGiven ([] : List (κ × α)) = id := rfl
  simp [overwritten, places, firsts, keepFirst, same]

end Table

def ClassSymbol.constructed (cs : List Constructor) (c : ClassSymbol) : ClassSymbol :=
  { c with constructors := c.constructors.overwritten (cs.map (fun k => (k.id, k))) }

namespace Graph

/-- Each class has the constructors that name it put over its own. Those that name no class are in
none. -/
def constructed (g : Graph) (cs : List Constructor) : Graph :=
  { g with
    classes := { g.classes with
      byIntermediate := ⟨g.classes.byIntermediate.entries.map (fun e =>
        (e.1, e.2.constructed (cs.filter (fun k => k.owner = e.1))))⟩ } }

/-- A line of a list: a number, a class and a text that reads as a descriptor, blanks between them
and around. -/
def ConstructorLine (line : List Char) (c : Constructor) : Prop :=
  ∃ id descriptor, Text.words line = [id, c.owner.toList, descriptor.toList] ∧
    Text.readWord? id = some c.id ∧ Descriptor.read descriptor = .ok c.signature

/-- Why a line tells no constructor. Of several reasons the first one counts. -/
inductive NoConstructor (line : List Char) : Fault → Prop where
  | tokens (count : (Text.words line).length ≠ 3) :
      NoConstructor line (.malformedLine (String.ofList (Text.trim line))
        "constructor line needs 3 tokens")
  | number {id owner descriptor : List Char} (words : Text.words line = [id, owner, descriptor])
      (unread : Text.readWord? id = none) :
      NoConstructor line (.malformedLine (String.ofList (Text.trim line))
        "constructor id is not a number")
  | descriptor {id owner : List Char} {descriptor : String}
      (words : Text.words line = [id, owner, descriptor.toList])
      (number : Text.readWord? id ≠ none) {reason : String}
      (unread : Descriptor.read descriptor = .error (.malformedDescriptor descriptor reason)) :
      NoConstructor line (.malformedDescriptor descriptor reason)

section

variable {line : List Char}

theorem readConstructor_of_line {c : Constructor} (told : ConstructorLine line c) :
    readConstructor (Text.trim line) = .ok c := by
  obtain ⟨id, descriptor, words, number, signature⟩ := told
  rw [readConstructor, Text.words_trim, words]
  simp only [number, String.ofList_toList, signature]
  rfl

theorem readConstructor_of_bad {cause : Fault} (bad : NoConstructor line cause) :
    readConstructor (Text.trim line) = .error cause := by
  rw [readConstructor, Text.words_trim]
  cases bad with
  | tokens count =>
    split
    case h_1 words => simp [words] at count
    case h_2 => rfl
  | number words unread => simp only [words, unread]
  | descriptor words number unread =>
    obtain ⟨id, read⟩ := Option.ne_none_iff_exists'.mp number
    simp only [words, read, String.ofList_toList, unread]
    rfl

theorem told_or_bad (line : List Char) :
    (∃ c, ConstructorLine line c) ∨ ∃ cause, NoConstructor line cause := by
  by_cases count : (Text.words line).length = 3
  · obtain ⟨id, owner, descriptor, words⟩ := List.length_eq_three.mp count
    cases number : Text.readWord? id with
    | none => exact .inr ⟨_, .number words number⟩
    | some value =>
      have named : Text.words line = [id, owner, (String.ofList descriptor).toList] := by
        rw [words, String.toList_ofList]
      cases read : Descriptor.read (String.ofList descriptor) with
      | ok signature =>
        refine .inl ⟨⟨value, String.ofList owner, signature⟩, id, String.ofList descriptor, ?_⟩
        exact ⟨by rw [words, String.toList_ofList, String.toList_ofList], number, read⟩
      | error fault =>
        obtain ⟨flaw, _, rfl⟩ := mapError_eq_error.mp read
        exact .inr ⟨_, .descriptor named (by simp [number]) read⟩
  · exact .inr ⟨_, .tokens count⟩

end

def constructs (g : Graph) (c : Constructor) : Bool := (g.classes.get? c.owner).isSome

section

variable {g : Graph}

theorem constructed_nil : g.constructed [] = g := by
  have same (e : String × ClassSymbol) : (e.1, e.2.constructed []) = e := by
    simp [ClassSymbol.constructed, Table.overwritten_nil]
  simp [constructed, same]

theorem constructed_concat (cs : List Constructor) (c : Constructor) :
    g.constructed (cs ++ [c]) = (g.constructed cs).addConstructor c := by
  rw [addConstructor, constructed, constructed]
  simp only [Index.modify, Table.modify, List.map_map, mk.injEq, Index.mk.injEq, Table.mk.injEq,
    and_true]
  refine List.map_congr_left (fun e _ => ?_)
  simp only [Function.comp]
  by_cases named : c.owner = e.1
  · have more : (cs ++ [c]).filter (fun k => k.owner = e.1) =
        cs.filter (fun k => k.owner = e.1) ++ [c] := by
      simp [named]
    rw [more, if_pos named.symm, ClassSymbol.constructed, List.map_append, List.map_singleton,
      Table.overwritten_concat]
    rfl
  · have none : (cs ++ [c]).filter (fun k => k.owner = e.1) =
        cs.filter (fun k => k.owner = e.1) := by
      simp [named]
    rw [none, if_neg (Ne.symm named)]

theorem keys_constructed (cs : List Constructor) :
    (g.constructed cs).classes.byIntermediate.keys = g.classes.byIntermediate.keys := by
  simp [constructed, Table.keys, Function.comp_def]

theorem constructs_constructed (cs : List Constructor) (c : Constructor) :
    (g.constructed cs).constructs c = g.constructs c := by
  have known (h : Graph) : h.constructs c = true ↔ c.owner ∈ h.classes.byIntermediate.keys :=
    Table.contains_iff_mem_keys _ _
  rw [Bool.eq_iff_iff, known, known, keys_constructed]

theorem constructed_concat_of_unknown {cs : List Constructor} {c : Constructor}
    (unknown : g.constructs c = false) : g.constructed (cs ++ [c]) = g.constructed cs := by
  rw [constructed_concat, addConstructor, Index.modify, Table.modify]
  have stays : (g.constructed cs).classes.byIntermediate.entries.map (fun e =>
      if e.1 = c.owner then (e.1, { e.2 with
        constructors := e.2.constructors.insert c.id c }) else e) =
      (g.constructed cs).classes.byIntermediate.entries := by
    refine (List.map_congr_left (fun e listed => if_neg (fun here => ?_))).trans (List.map_id _)
    have known : (g.constructed cs).constructs c = true :=
      (Table.contains_iff_mem_keys _ _).mpr (here ▸ List.mem_map_of_mem listed)
    rw [constructs_constructed, unknown] at known
    cases known
  rw [stays]

theorem applyConstructorLines_told {lines : List (Nat × List Char)} {cs : List Constructor}
    (told : List.Forall₂ (fun l c => ConstructorLine l.2 c) lines cs) (done : List Constructor)
    (applied : Nat) (rest : List (Nat × List Char)) :
    (g.constructed done).applyConstructorLines applied (lines ++ rest) =
      (g.constructed (done ++ cs)).applyConstructorLines (applied + cs.countP g.constructs)
        rest := by
  induction told generalizing done applied with
  | nil => simp
  | @cons l c lines cs here told ih =>
    rw [List.cons_append, applyConstructorLines, readConstructor_of_line here]
    have next := ih (done ++ [c])
    rw [List.append_assoc, List.singleton_append] at next
    have known : ((g.constructed done).classes.get? c.owner).isSome = g.constructs c :=
      constructs_constructed done c
    dsimp only
    rw [known, ← constructed_concat, List.countP_cons]
    cases owned : g.constructs c with
    | true =>
      simp only [if_true]
      rw [next, Nat.add_assoc, Nat.add_comm 1]
    | false =>
      rw [if_neg Bool.false_ne_true, ← constructed_concat_of_unknown owned, next]
      rfl

end

/-- The lines that are not blank tell these constructors, one by one. -/
def ConstructorList (lines : List (List Char)) (cs : List Constructor) : Prop :=
  List.Forall₂ ConstructorLine (lines.filter (fun line => !Text.allBlank line)) cs

theorem exists_constructorList (lines : List (List Char)) :
    (∃ cs, ConstructorList lines cs) ∨
      ∃ before line after cs cause, lines = before ++ line :: after ∧ ConstructorList before cs ∧
        Text.allBlank line = false ∧ NoConstructor line cause := by
  induction lines with
  | nil => exact .inl ⟨[], .nil⟩
  | cons line lines ih =>
    by_cases blank : Text.allBlank line = true
    · have skips : ∀ ls, (line :: ls).filter (fun line => !Text.allBlank line) =
          ls.filter (fun line => !Text.allBlank line) := fun ls => by simp [blank]
      rcases ih with ⟨cs, told⟩ | ⟨before, bad, after, cs, cause, rfl, told, visible, reason⟩
      · exact .inl ⟨cs, by rwa [ConstructorList, skips]⟩
      · exact .inr ⟨line :: before, bad, after, cs, cause, rfl, by rwa [ConstructorList, skips],
          visible, reason⟩
    · have visible := Bool.eq_false_iff.mpr blank
      have counts : ∀ ls, (line :: ls).filter (fun line => !Text.allBlank line) =
          line :: ls.filter (fun line => !Text.allBlank line) := fun ls => by simp [visible]
      rcases told_or_bad line with ⟨c, here⟩ | ⟨cause, reason⟩
      · rcases ih with ⟨cs, told⟩ | ⟨before, bad, after, cs, cause, rfl, told, seen, reason⟩
        · exact .inl ⟨c :: cs, by rw [ConstructorList, counts]; exact .cons here told⟩
        · refine .inr ⟨line :: before, bad, after, c :: cs, cause, rfl, ?_, seen, reason⟩
          rw [ConstructorList, counts]
          exact .cons here told
      · exact .inr ⟨[], line, lines, [], cause, rfl, .nil, visible, reason⟩

section

variable {g : Graph} {lines : List (List Char)} {cs : List Constructor}

theorem ConstructorList.numbered (told : ConstructorList lines cs) :
    List.Forall₂ (fun l c => ConstructorLine l.2 c) (Text.numbered lines) cs := by
  rw [ConstructorList, ← Text.map_snd_numbered] at told
  exact List.forall₂_map_left_iff.mp told

theorem applyConstructors_of_told (told : ConstructorList lines cs) :
    g.applyConstructors lines = (g.constructed cs, .ok (cs.countP g.constructs)) := by
  have all := applyConstructorLines_told (g := g) told.numbered [] 0 []
  rw [constructed_nil, List.append_nil, List.nil_append, Nat.zero_add] at all
  exact all

/-- A bad line ends the work, whatever follows it. -/
theorem applyConstructors_of_bad (told : ConstructorList lines cs) {line : List Char}
    (visible : Text.allBlank line = false) {cause : Fault} (bad : NoConstructor line cause)
    (after : List (List Char)) :
    g.applyConstructors (lines ++ line :: after) =
      (g.constructed cs, .error (.atLine (lines.length + 1) cause)) := by
  have good := applyConstructorLines_told (g := g) told.numbered [] 0
  simp only [constructed_nil, List.nil_append, Nat.zero_add] at good
  rw [applyConstructors, Text.numbered_append_cons, good, visible]
  simp only [Bool.false_eq_true, if_false, List.singleton_append, applyConstructorLines,
    readConstructor_of_bad bad]

end

/-- A list of constructors is entered as far as its lines are good. If all of them are, the answer
counts those that name a class. Otherwise there is a first line that is not: the answer is its
number, blank lines counted, with the reason, and the graph is the one that the lines before it
make. -/
theorem constructors_entered (g : Graph) (lines : List (List Char)) :
    (∃ cs, ConstructorList lines cs ∧
      g.applyConstructors lines = (g.constructed cs, .ok (cs.countP g.constructs))) ∨
    ∃ before line after cs cause, lines = before ++ line :: after ∧ ConstructorList before cs ∧
      Text.allBlank line = false ∧ NoConstructor line cause ∧
      g.applyConstructors lines =
        ((g.applyConstructors before).1, .error (.atLine (before.length + 1) cause)) ∧
      (g.applyConstructors before).1 = g.constructed cs := by
  rcases exists_constructorList lines with ⟨cs, told⟩ |
    ⟨before, line, after, cs, cause, rfl, told, visible, bad⟩
  · exact .inl ⟨cs, told, applyConstructors_of_told told⟩
  · have entered : (g.applyConstructors before).1 = g.constructed cs := by
      rw [applyConstructors_of_told told]
    refine .inr ⟨before, line, after, cs, cause, rfl, told, visible, bad, ?_, entered⟩
    rw [applyConstructors_of_bad told visible bad, entered]

/-- The second line replaces the first where it stands, the third names no class, and the fifth
breaks the list. -/
example :
    let base : ClassSymbol := .bare "a" "net/Base"
    let g : Graph := ⟨⟨⟨[("net/Base", base)]⟩, ⟨[("a", "net/Base")]⟩⟩, .empty, .empty⟩
    let lines := ["7 net/Base (I)V", "\t+7 net/Base ()V ", "8 net/Sub ()V", "", "9 net/Base",
      "9 net/Base ()V"].map String.toList
    let void : Constructor := ⟨7, "net/Base", ⟨[], .void⟩⟩
    g.applyConstructors lines =
      ({ g with classes.byIntermediate := ⟨[("net/Base", { base with
        constructors := ⟨[(7, void)]⟩ })]⟩ },
        .error (.atLine 5 (.malformedLine "9 net/Base" "constructor line needs 3 tokens"))) := by
  decide +kernel

end Graph

end SymbolAtlas
