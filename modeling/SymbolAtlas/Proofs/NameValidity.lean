import SymbolAtlas.Proofs.DocumentRoundTrip
import SymbolAtlas.Proofs.Entered

/-! Names that are no identifiers, and where they come from. A rename checks its name and a
migration hands on what is in the ledger already, so all names of a store are identifiers as long as
those of the lists are that were read into it. The lists are not checked. -/
namespace SymbolAtlas

def Store.WellNamed (s : Store) : Prop :=
  ∀ e ∈ s.ledger.entries, Text.isIdentifier e.change.final.toList = true

/-- The changes that an operation makes out of a list. -/
def Operation.listed : Operation → Store → List NameChange
  | importNames now version names actor, s => (importNames now version names actor).entered s
  | _, _ => []

/-- The changes that lists make in the course of a run. -/
def listedChanges : List Step → Store → List NameChange
  | [], _ => []
  | .operation op :: steps, s => op.listed s ++ listedChanges steps (op.run s)
  | .reload :: steps, s => listedChanges steps s.reload

namespace Store

theorem wellNamed_iff_changes {s : Store} :
    s.WellNamed ↔ ∀ change ∈ s.ledger.entries.map LedgerEntry.change,
      Text.isIdentifier change.final.toList = true := by
  rw [List.forall_mem_map]
  rfl

theorem recorded_of_migration {s : Store} {source target : String} {change : NameChange}
    (carried : change ∈ s.migration source target) :
    ∃ e ∈ s.ledger.entries, e.change.final = change.final := by
  obtain ⟨kind, _, carried⟩ := List.mem_flatMap.mp carried
  obtain ⟨m, _, carried⟩ := List.mem_filterMap.mp carried
  obtain ⟨e, last, rfl⟩ := Option.map_eq_some_iff.mp carried
  obtain ⟨id, _, found⟩ := Option.bind_eq_some_iff.mp last
  exact ⟨e, List.mem_of_getElem? found, rfl⟩

/-- Among identifiers, whatever else an operation enters is an identifier too. -/
theorem WellNamed.entered_iff {s : Store} (wellNamed : s.WellNamed) (op : Operation) :
    (∀ change ∈ op.entered s, Text.isIdentifier change.final.toList = true) ↔
      ∀ change ∈ op.listed s, Text.isIdentifier change.final.toList = true := by
  cases op with
  | importNames now version names actor => exact Iff.rfl
  | migrate now source target =>
    have valid : ∀ change ∈ (Operation.migrate now source target).entered s,
        Text.isIdentifier change.final.toList = true := by
      intro change taken
      have offers := (mem_of_mem_accepted taken).1
      rw [Operation.offered] at offers
      split at offers
      · obtain ⟨e, member, same⟩ := recorded_of_migration offers
        rw [← same]
        exact wellNamed e member
      · cases offers
    exact iff_of_true valid (fun change listed => by cases listed)
  | rename admins now actor request =>
    have valid : ∀ change ∈ (Operation.rename admins now actor request).entered s,
        Text.isIdentifier change.final.toList = true := by
      intro change entered
      obtain ⟨rfl, outcome, judged⟩ := Operation.allowed_of_entered entered
      exact (checks_of_judgeRename judged).1
    exact iff_of_true valid (fun change listed => by cases listed)
  | _ => exact Iff.rfl

theorem Sound.wellNamed_run {s : Store} (sound : s.Sound) (op : Operation) :
    (op.run s).WellNamed ↔ s.WellNamed ∧
      ∀ change ∈ op.listed s, Text.isIdentifier change.final.toList = true := by
  rw [wellNamed_iff_changes, op.changes_run sound, List.forall_mem_append,
    ← wellNamed_iff_changes]
  exact and_congr_right (fun wellNamed => wellNamed.entered_iff op)

theorem wellNamed_reload (s : Store) : s.reload.WellNamed ↔ s.WellNamed := by
  have changes : s.reload.ledger.entries.map LedgerEntry.change =
      s.ledger.entries.map LedgerEntry.change := by
    unfold Store.reload
    split
    case h_1 t read =>
      have same := congrArg (List.map Prod.snd) (parse_document_iff.mp read).1.entries_eq
      simpa [Function.comp_def] using same
    case h_2 => rfl
  rw [wellNamed_iff_changes, wellNamed_iff_changes, changes]

theorem Sound.wellNamed_replay {s : Store} (sound : s.Sound) (steps : List Step) :
    (replay Step.run steps s).WellNamed ↔ s.WellNamed ∧
      ∀ change ∈ listedChanges steps s, Text.isIdentifier change.final.toList = true := by
  induction steps generalizing s with
  | nil => simp [replay, listedChanges]
  | cons step steps ih =>
    change (replay Step.run steps (step.run s)).WellNamed ↔ _
    cases step with
    | operation op =>
      rw [Step.run, ih (sound.run op), sound.wellNamed_run, listedChanges, List.forall_mem_append,
        and_assoc]
    | reload => rw [Step.run, ih sound.reload, wellNamed_reload, listedChanges]

/-- After any run from an empty store, the names in the ledger are identifiers exactly when those
are that lists have put there; and then the current name of every member is one. -/
theorem wellNamed_iff_listed (steps : List Step) :
    let s := replay Step.run steps .empty
    (s.WellNamed ↔ ∀ change ∈ listedChanges steps .empty,
        Text.isIdentifier change.final.toList = true) ∧
      (s.WellNamed → ∀ m ∈ s.members, ∀ name ∈ s.finalName? m,
        Text.isIdentifier name.toList = true) := by
  intro s
  have nothing : Store.WellNamed .empty := by
    intro e member
    cases member
  constructor
  · rw [sound_empty.wellNamed_replay steps]
    exact and_iff_right nothing
  · intro wellNamed m _ name current
    obtain ⟨e, last, rfl⟩ := Option.map_eq_some_iff.mp current
    obtain ⟨id, _, found⟩ := Option.bind_eq_some_iff.mp last
    exact wellNamed e (List.mem_of_getElem? found)

def emptyColumn : List Step :=
  match Graph.read "a net/Base\n\tb field_1_a\n", NameRow.readAll "searge,name\nfield_1_a,\n" with
  | .ok graph, .ok rows =>
    [.operation (.importGraph ⟨0, 0⟩ "1" graph "0"),
      .operation (.importNames ⟨60, 0⟩ "1" ⟨rows, [], []⟩ "bob")]
  | _, _ => []

/-- The list gives the field the empty name, which no rename could give it. -/
theorem empty_column_names_field :
    let s := replay Step.run emptyColumn .empty
    NameRow.readAll "searge,name\nfield_1_a,\n" = .ok [⟨"field_1_a", ""⟩] ∧
      (∃ m ∈ s.members, s.finalName? m = some "") ∧ ¬ s.WellNamed ∧
      (Operation.rename (fun _ => true) ⟨90, 0⟩ "ann"
        ⟨⟨"1", .field, "field_1_a"⟩, "", true⟩).answer s = .error (.invalidName "") := by
  intro s
  have entered : ∃ e ∈ s.ledger.entries, Text.isIdentifier e.change.final.toList = false := by
    decide +kernel
  refine ⟨by decide +kernel, by decide +kernel, fun wellNamed => ?_, by decide +kernel⟩
  obtain ⟨e, member, invalid⟩ := entered
  rw [wellNamed e member] at invalid
  cases invalid

end Store

end SymbolAtlas
