import SymbolAtlas.Bundle.Basic
import SymbolAtlas.Proofs.StaticMarks
import SymbolAtlas.Proofs.TextLayout

/-! Bundles whose texts are laid out anew. Mappings and constructors are read from the lines that
count, and a list of static methods has no other names than those on such lines. So the graph is the
same in every layout; where there is none, the cause stands on the same line, at its new number. -/
namespace SymbolAtlas

/-- The same cause on the line as it is numbered now. -/
def Fault.moved (place : Nat → Nat) : Fault → Fault
  | .atLine line cause => .atLine (place line) cause
  | fault => fault

theorem Fault.moved_id : Fault.moved id = id := by
  funext fault
  cases fault <;> rfl

namespace Graph

open Text (Relaid visible)

/-- A reader does not look at the numbers, except to tell where it stopped. -/
theorem foldlM_moved (place : Nat → Nat) (ls : List (Nat × List Char)) (r : Reading) :
    (ls.map (fun l => (place l.1, l.2))).foldlM Reading.numberedLine r =
      (ls.foldlM Reading.numberedLine r).mapError (Fault.moved place) := by
  induction ls generalizing r with
  | nil => rfl
  | cons l ls ih =>
    rw [List.map_cons, List.foldlM_cons, List.foldlM_cons, Reading.numberedLine,
      Reading.numberedLine]
    cases r.line l.2 with
    | error cause => rfl
    | ok next => exact ih next

section

variable {place : Nat → Nat}

theorem read_relaid {s t : String} (laid : Relaid s.toList place t.toList) :
    read t = (read s).mapError (Fault.moved place) := by
  have lines := foldlM_moved place (visible s.toList) .start
  rw [← laid.visible] at lines
  rw [read, readLines, ← visible, lines, read, readLines, ← visible]
  cases (visible s.toList).foldlM Reading.numberedLine .start <;> rfl

/-- Constructors are told by the trimmed lines alone. -/
theorem applyConstructorLines_moved {f : List Char → List Char}
    (same : ∀ line, Text.trim (f line) = Text.trim line) (ls : List (Nat × List Char)) (g : Graph)
    (applied : Nat) :
    g.applyConstructorLines applied (ls.map (fun l => (place l.1, f l.2))) =
      ((g.applyConstructorLines applied ls).1,
        (g.applyConstructorLines applied ls).2.mapError (Fault.moved place)) := by
  induction ls generalizing g applied with
  | nil => rfl
  | cons l ls ih =>
    obtain ⟨number, line⟩ := l
    rw [List.map_cons, applyConstructorLines, applyConstructorLines, same]
    cases readConstructor (Text.trim line) with
    | error cause => rfl
    | ok c =>
      dsimp only
      split
      · exact ih ..
      · exact ih ..

theorem applyConstructors_visible (g : Graph) (s : List Char) :
    g.applyConstructors (Text.lines s) = g.applyConstructorLines 0 (visible s) := by
  have shown : visible s =
      (Text.numbered (Text.lines s)).map (fun l => (id l.1, dropLineEnd l.2)) :=
    Text.numberedFrom_map Text.allBlank_dropLineEnd
  rw [shown, applyConstructorLines_moved Text.trim_dropLineEnd, Fault.moved_id, mapError_id]
  rfl

theorem applyConstructors_relaid {s t : List Char} (laid : Relaid s place t) (g : Graph) :
    g.applyConstructors (Text.lines t) = ((g.applyConstructors (Text.lines s)).1,
      (g.applyConstructors (Text.lines s)).2.mapError (Fault.moved place)) := by
  rw [applyConstructors_visible, applyConstructors_visible, laid.visible]
  exact applyConstructorLines_moved (f := id) (fun _ => rfl) (visible s) g 0

end

def Nameless (g : Graph) : Prop :=
  ∃ c ∈ g.classes.toList, ∃ m ∈ c.methods.values, m.intermediate = ""

theorem not_nameless_of_read {text : String} {g : Graph} (read : Graph.read text = .ok g) :
    ¬ g.Nameless := by
  rintro ⟨c, listed, m, member, empty⟩
  obtain ⟨line, tells⟩ := exists_methodLine read listed member
  obtain ⟨descriptor, _, words⟩ := tells.words
  have word : m.intermediate.toList ∈ Text.words line := by simp [words]
  rw [empty] at word
  simpa using (List.mem_filter.mp word).2

section

variable {g : Graph} {names others : List String}

/-- Where all methods have names, a list without one marks nothing. -/
theorem marked_congr_of_named (named : ¬ g.Nameless)
    (same : ∀ name, name ≠ "" → (name ∈ names ↔ name ∈ others)) :
    g.marked names = g.marked others := by
  have classes : g.classes.byIntermediate.mapValues (ClassSymbol.marked names) =
      g.classes.byIntermediate.mapValues (ClassSymbol.marked others) := by
    refine Table.mapValues_congr (fun c listed => ?_)
    have methods : c.2.methods.mapValues (Method.marked names) =
        c.2.methods.mapValues (Method.marked others) := by
      refine Table.mapValues_congr (fun m member => ?_)
      have filled : m.2.intermediate ≠ "" := fun empty =>
        named ⟨c.2, List.mem_map_of_mem listed, m.2, List.mem_map_of_mem member, empty⟩
      simp [Method.marked, same _ filled]
    rw [ClassSymbol.marked, ClassSymbol.marked, methods]
  rw [marked, marked, classes]

theorem mem_names_iff {s : List Char} {name : String} (filled : name ≠ "") :
    name ∈ (Text.lines s).map nameOn ↔ name ∈ (visible s).map (fun l => nameOn l.2) := by
  have shown : (visible s).map (fun l => nameOn l.2) =
      ((Text.lines s).filter (fun line => !Text.allBlank line)).map nameOn := by
    have parts := Text.map_snd_numbered ((Text.lines s).map dropLineEnd)
    have same (line : List Char) : nameOn (dropLineEnd line) = nameOn line := by
      rw [nameOn, Text.trim_dropLineEnd, nameOn]
    have split : (visible s).map (fun l => nameOn l.2) =
        ((visible s).map Prod.snd).map nameOn := by
      rw [List.map_map]
      rfl
    rw [split, visible, parts, List.filter_map, List.map_map]
    simp [Function.comp_def, Text.allBlank_dropLineEnd, same]
  rw [shown, List.mem_map, List.mem_map]
  refine exists_congr (fun line => ?_)
  rw [List.mem_filter, and_assoc, Bool.not_eq_true']
  refine and_congr_right (fun _ => ⟨fun here => ⟨?_, here⟩, And.right⟩)
  refine Bool.eq_false_iff.mpr (fun blank => filled ?_)
  rw [← here, nameOn, Text.trim_of_allBlank blank]

theorem applyStatics_relaid {text : String} (read : Graph.read text = .ok g) {s t : List Char}
    {place : Nat → Nat} (laid : Relaid s place t) :
    (g.applyStatics (Text.lines t)).1 = (g.applyStatics (Text.lines s)).1 := by
  have wired : g.Wired := kept_wired.readLines wired_empty read
  rw [wired.applyStatics_eq, wired.applyStatics_eq]
  refine marked_congr_of_named (not_nameless_of_read read) (fun name filled => ?_)
  rw [mem_names_iff filled, mem_names_iff filled, laid.visible, List.map_map]
  rfl

end

theorem line_of_unread {text : String} {fault : Fault} (unread : read text = .error fault) :
    ∃ n line cause, (n, line) ∈ visible text.toList ∧ fault = .atLine n cause := by
  rw [read, readLines, map_eq_error] at unread
  obtain ⟨⟨n, line⟩, listed, r, refused⟩ := foldlM_error unread
  obtain ⟨cause, _, rfl⟩ := mapError_eq_error.mp refused
  exact ⟨n, line, cause, listed, rfl⟩

theorem line_of_unapplied {g : Graph} {ls : List (Nat × List Char)} {applied : Nat} {fault : Fault}
    (unapplied : (g.applyConstructorLines applied ls).2 = .error fault) :
    ∃ n line cause, (n, line) ∈ ls ∧ fault = .atLine n cause := by
  induction ls generalizing g applied with
  | nil => cases unapplied
  | cons l ls ih =>
    obtain ⟨number, text⟩ := l
    rw [applyConstructorLines] at unapplied
    cases read : readConstructor (Text.trim text) with
    | error cause =>
      rw [read] at unapplied
      cases unapplied
      exact ⟨number, text, cause, List.mem_cons_self, rfl⟩
    | ok c =>
      rw [read] at unapplied
      have later : ∃ n line cause, (n, line) ∈ ls ∧ fault = .atLine n cause := by
        dsimp only at unapplied
        split at unapplied
        · exact ih unapplied
        · exact ih unapplied
      obtain ⟨n, line, cause, listed, rfl⟩ := later
      exact ⟨n, line, cause, List.mem_cons_of_mem _ listed, rfl⟩

theorem assemble_eq (joined statics constructors : String) :
    assemble joined statics constructors = read joined >>= fun g =>
      let g := (g.applyStatics (Text.lines statics.toList)).1
      let applied := g.applyConstructors (Text.lines constructors.toList)
      applied.2.map (fun _ => applied.1) := by
  rw [assemble]
  refine bind_congr (fun g => ?_)
  dsimp only
  split
  case h_1 applied => rw [applied]; rfl
  case h_2 applied => rw [applied]; rfl

end Graph

namespace MappingBundle

/-- One cause on one line, which is counted in both texts. -/
def FollowsLine (place : Nat → Nat) (s t : String) (fault fault' : Fault) : Prop :=
  ∃ n line cause, (n, line) ∈ Text.visible s.toList ∧ (place n, line) ∈ Text.visible t.toList ∧
    fault = .atLine n cause ∧ fault' = .atLine (place n) cause

theorem followsLine_moved {place : Nat → Nat} {s t : String}
    (laid : Text.Relaid s.toList place t.toList) {fault : Fault}
    (here : ∃ n line cause, (n, line) ∈ Text.visible s.toList ∧ fault = .atLine n cause) :
    FollowsLine place s t fault (fault.moved place) := by
  obtain ⟨n, line, cause, listed, rfl⟩ := here
  refine ⟨n, line, cause, listed, ?_, rfl, rfl⟩
  rw [laid.visible]
  exact List.mem_map_of_mem (f := fun l => (place l.1, l.2)) listed

theorem graph_moved {b b' : MappingBundle} {j k l : Nat → Nat}
    (joined : Text.Relaid b.joined.toList j b'.joined.toList)
    (statics : Text.Relaid b.statics.toList k b'.statics.toList)
    (constructors : Text.Relaid b.constructors.toList l b'.constructors.toList) :
    (∃ g, b.graph = .ok g ∧ b'.graph = .ok g) ∨
      ∃ fault, b.graph = .error fault ∧
        ((Graph.read b.joined = .error fault ∧ b'.graph = .error (fault.moved j)) ∨
          ∃ g, Graph.read b.joined = .ok g ∧ b'.graph = .error (fault.moved l) ∧
            ∃ n line cause, (n, line) ∈ Text.visible b.constructors.toList ∧
              fault = .atLine n cause) := by
  rw [graph, graph, Graph.assemble_eq, Graph.assemble_eq, Graph.read_relaid joined]
  cases read : Graph.read b.joined with
  | error fault => exact .inr ⟨fault, rfl, .inl ⟨rfl, rfl⟩⟩
  | ok g =>
    have marked := Graph.applyStatics_relaid read statics
    have applied := Graph.applyConstructors_relaid constructors
    simp only [Except.mapError, bind, Except.bind, marked, applied]
    cases told : ((g.applyStatics (Text.lines b.statics.toList)).1.applyConstructors
        (Text.lines b.constructors.toList)).2 with
    | ok count => exact .inl ⟨_, rfl, rfl⟩
    | error fault =>
      refine .inr ⟨fault, rfl, .inr ⟨g, rfl, rfl, ?_⟩⟩
      rw [Graph.applyConstructors_visible] at told
      exact Graph.line_of_unapplied told

/-- Texts that are laid out anew make the same graph, or fail for the same cause on the same line.
Where no line of the mappings and of the constructors moves, the answers are equal. -/
theorem graph_relaid {b b' : MappingBundle} {j k l : Nat → Nat}
    (joined : Text.Relaid b.joined.toList j b'.joined.toList)
    (statics : Text.Relaid b.statics.toList k b'.statics.toList)
    (constructors : Text.Relaid b.constructors.toList l b'.constructors.toList) :
    (j = id → l = id → b'.graph = b.graph) ∧
    ((∃ g, b.graph = .ok g ∧ b'.graph = .ok g) ∨
      ∃ fault fault', b.graph = .error fault ∧ b'.graph = .error fault' ∧
        ((Graph.read b.joined = .error fault ∧ FollowsLine j b.joined b'.joined fault fault') ∨
          ∃ g, Graph.read b.joined = .ok g ∧
            FollowsLine l b.constructors b'.constructors fault fault')) := by
  rcases graph_moved joined statics constructors with ⟨g, made, made'⟩ |
    ⟨fault, failed, ⟨unread, failed'⟩ | ⟨g, read, failed', here⟩⟩
  · exact ⟨fun _ _ => made'.trans made.symm, .inl ⟨g, made, made'⟩⟩
  · constructor
    · rintro rfl -
      rw [failed', failed, Fault.moved_id]
      rfl
    · have follows := followsLine_moved joined (Graph.line_of_unread unread)
      exact .inr ⟨fault, _, failed, failed', .inl ⟨unread, follows⟩⟩
  · constructor
    · rintro - rfl
      rw [failed', failed, Fault.moved_id]
      rfl
    · have follows := followsLine_moved constructors here
      exact .inr ⟨fault, _, failed, failed', .inr ⟨g, read, follows⟩⟩

/-- A method that is marked, and a constructor whose line is no good. -/
def spoilt : MappingBundle where
  joined := "a Base\n\tb ()V run\n"
  statics := "run"
  constructors := "7 Base ()V\n8 Base"

/-- The same with carriage returns, an empty line in front of the static method, and blank lines
around the constructors. -/
def respaced : MappingBundle where
  joined := "a Base\r\n\tb ()V run\r\n"
  statics := "\nrun"
  constructors := "7 Base ()V\n \t\n\r\n8 Base\r\n\n"

def returned : MappingBundle := ⟨respaced.joined, spoilt.statics, spoilt.constructors⟩

/-- The carriage returns alone change nothing. With the blank lines the bad line, which is the second
of its text, becomes the fourth. -/
theorem graph_relaid_respaced :
    let place := Text.pushed 1 2
    Text.Relaid spoilt.joined.toList id respaced.joined.toList ∧
    Text.Relaid spoilt.statics.toList (Text.pushed 0 1) respaced.statics.toList ∧
    Text.Relaid spoilt.constructors.toList place respaced.constructors.toList ∧
    returned.graph = spoilt.graph ∧
    ∃ fault fault', spoilt.graph = .error fault ∧ respaced.graph = .error fault' ∧
      FollowsLine place spoilt.constructors respaced.constructors fault fault' ∧
      fault' = .atLine 4 (.malformedLine "8 Base" "constructor line needs 3 tokens") := by
  intro place
  have joined : Text.Relaid spoilt.joined.toList id respaced.joined.toList := by
    have same : respaced.joined.toList = Text.withReturns spoilt.joined.toList := by
      decide +kernel
    rw [same]
    exact .returns .same
  have statics : Text.Relaid spoilt.statics.toList (Text.pushed 0 1) respaced.statics.toList :=
    .spaced [] ['\n'] .same (.inl rfl) (by decide) (.inr rfl)
  have constructors : Text.Relaid spoilt.constructors.toList place
      respaced.constructors.toList := by
    let front := "7 Base ()V\n".toList
    let back := "8 Base".toList
    let blanks := " \t\n\r\n".toList
    have whole : spoilt.constructors.toList = front ++ back := by decide +kernel
    have same : respaced.constructors.toList = front ++ blanks ++ back ++ "\r\n\n".toList := by
      decide +kernel
    have spaced : Text.Relaid (front ++ back) place (front ++ blanks ++ back) :=
      .spaced front blanks .same (.inr (by decide)) (by decide) (.inr (by decide))
    rw [whole, same]
    exact .appended _ spaced (by decide) (.inr ⟨['\n'], .inr rfl⟩)
  have equal : returned.graph = spoilt.graph := by
    have first : Text.Relaid spoilt.joined.toList id returned.joined.toList := joined
    have second : Text.Relaid spoilt.statics.toList id returned.statics.toList := .same
    exact (graph_relaid first second .same).1 rfl rfl
  refine ⟨joined, statics, constructors, equal, ?_⟩
  have failed : respaced.graph =
      .error (.atLine 4 (.malformedLine "8 Base" "constructor line needs 3 tokens")) := by
    decide +kernel
  rcases (graph_relaid joined statics constructors).2 with ⟨g, _, made⟩ |
    ⟨fault, fault', unmade, unmade', ⟨unread, _⟩ | ⟨g, _, follows⟩⟩
  · cases failed.symm.trans made
  · have reads : (Graph.read spoilt.joined).toOption.isSome = true := by decide +kernel
    rw [unread] at reads
    cases reads
  · refine ⟨fault, fault', unmade, unmade', follows, ?_⟩
    rw [failed] at unmade'
    exact (Except.error.inj unmade').symm

end MappingBundle

end SymbolAtlas
