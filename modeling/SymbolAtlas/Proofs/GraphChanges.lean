import SymbolAtlas.Graph.Extras
import SymbolAtlas.Proofs.LineReading

/-! How graphs come to be. A graph is read line by line, and lists of static methods and of
constructors are applied to it. All of this is made of five changes, so what each of the five keeps
is true of every graph, whatever the texts hold and even where one of them broke off. -/
namespace SymbolAtlas.Graph

/-- A graph read from lines, with any number of lists of static methods and of constructors applied
to it. A list of constructors counts as applied up to the line that broke it. -/
inductive Built : Graph → Prop where
  | read {lines : List (List Char)} {g : Graph} (read : readLines lines = .ok g) : Built g
  | statics {g : Graph} (built : Built g) (lines : List (List Char)) :
      Built (g.applyStatics lines).1
  | constructors {g : Graph} (built : Built g) (lines : List (List Char)) :
      Built (g.applyConstructors lines).1

/-- A property that every change keeps. A member goes into the class that is found for it and names
that class as its owner. -/
structure Kept (property : Graph → Prop) : Prop where
  opened : ∀ {g new obfuscated intermediate}, obfuscated ≠ "" ∧ intermediate ≠ "" →
    g.insertClass (.bare obfuscated intermediate) = .ok new → property g → property new
  field : ∀ {g name owner} (f : Field), g.classes.get? name = some owner →
    f.owner = name → property g → property (g.addField name owner f)
  method : ∀ {g name owner} (m : Method), g.classes.get? name = some owner →
    m.owner = name → property g → property (g.addMethod name owner m)
  marked : ∀ {g} name owner, property g → property (g.markStaticIn name owner)
  constructed : ∀ {g} c, property g → property (g.addConstructor c)

namespace Kept

variable {property : Graph → Prop}

theorem member (kept : Kept property) {r next : Reading} {name : String} {owner : ClassSymbol}
    (found : r.graph.classes.get? name = some owner) {text : List Char}
    (read : r.member name owner text = .ok next) (holds : property r.graph) :
    property next.graph := by
  unfold Reading.member at read
  split at read
  · obtain ⟨m, told, rfl⟩ := map_eq_ok.mp read
    exact kept.method m found (readMethod_eq_ok_iff.mp told).owner holds
  · obtain ⟨f, told, rfl⟩ := map_eq_ok.mp read
    exact kept.field f found (readField_eq_ok_iff.mp told).owner holds

theorem header (kept : Kept property) {r next : Reading} {line : List Char}
    (read : r.header line = .ok next) (holds : property r.graph) : property next.graph := by
  obtain ⟨c, opened, read⟩ := bind_eq_ok.mp read
  obtain ⟨graph, inserted, read⟩ := bind_eq_ok.mp read
  cases read
  obtain ⟨_, _, _, filled, rfl⟩ := readHeader_eq_ok_iff.mp opened
  exact kept.opened (by simpa using filled) inserted holds

theorem line (kept : Kept property) {r next : Reading} {line : List Char}
    (read : r.line line = .ok next) (holds : property r.graph) : property next.graph := by
  unfold Reading.line at read
  split at read
  case h_1 text =>
    cases current : r.owner? with
    | none =>
      rw [current] at read
      cases read
    | some owner =>
      rw [current] at read
      exact kept.member (Reading.owner?_eq_some_iff.mp current).2 read holds
  case h_2 => exact kept.header read holds

theorem readLines (kept : Kept property) (empty : property .empty) {lines : List (List Char)}
    {g : Graph} (read : Graph.readLines lines = .ok g) : property g := by
  obtain ⟨last, ended, rfl⟩ := map_eq_ok.mp read
  refine invariant_of_foldlM (fun r : Reading => property r.graph) ?_ empty ended
  exact fun r l next holds step => kept.line (mapError_eq_ok.mp step) holds

theorem applyStatics (kept : Kept property) {g : Graph} (holds : property g)
    (lines : List (List Char)) : property (g.applyStatics lines).1 := by
  refine List.foldlRecOn (motive := fun p : Graph × Nat => property p.1) _ _ holds ?_
  intro p holds line _
  refine List.foldlRecOn (motive := fun p : Graph × Nat => property p.1) _ _ holds ?_
  intro marks holds owner _
  dsimp only
  split
  · exact kept.marked _ owner holds
  · exact holds

theorem applyConstructorLines (kept : Kept property) {g : Graph} (holds : property g)
    (applied : Nat) (lines : List (Nat × List Char)) :
    property (g.applyConstructorLines applied lines).1 := by
  induction lines generalizing g applied with
  | nil => exact holds
  | cons l lines ih =>
    obtain ⟨number, line⟩ := l
    unfold Graph.applyConstructorLines
    cases readConstructor (Text.trim line) with
    | error fault => exact holds
    | ok c =>
      dsimp only
      split
      · exact ih (kept.constructed c holds) _
      · exact ih holds _

theorem applyConstructors (kept : Kept property) {g : Graph} (holds : property g)
    (lines : List (List Char)) : property (g.applyConstructors lines).1 :=
  kept.applyConstructorLines holds 0 _

theorem built (kept : Kept property) (empty : property .empty) {g : Graph} (built : g.Built) :
    property g := by
  induction built with
  | read read => exact kept.readLines empty read
  | statics _ lines holds => exact kept.applyStatics holds lines
  | constructors _ lines holds => exact kept.applyConstructors holds lines

end Kept

end SymbolAtlas.Graph
