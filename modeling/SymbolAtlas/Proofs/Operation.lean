import SymbolAtlas.Graph.Reader
import SymbolAtlas.Naming.Apply
import SymbolAtlas.Naming.Rename
import SymbolAtlas.Store.Document
import SymbolAtlas.Store.Import

/-! What is done to a store, as data. An operation is one request with all its arguments; a step is
an operation or a reload. Graphs, permissions, actors and times are arbitrary, and a failing
operation is a step like any other. -/
namespace SymbolAtlas

inductive Operation where
  | importGraph (now : Instant) (version : String) (graph : Graph) (digest : String)
  | importNames (now : Instant) (version : String) (names : NameExport) (actor : String)
  | migrate (now : Instant) (source target : String)
  | promote (version : String)
  | rename (admins : Permissions) (now : Instant) (actor : String) (request : RenameRequest)
  | setLocks (admins : Permissions) (actor : String) (key : NameKey) (locked : Bool)

inductive Answer where
  | imported (report : ImportReport)
  | named (report : NamesReport)
  | promoted
  | renamed (outcome : RenameOutcome)
  | relocked (changed : Bool)
  deriving DecidableEq, Repr

namespace Operation

def update : Operation → Update Answer
  | importGraph now version graph digest =>
    .imported <$> Store.importGraph now version graph digest
  | importNames now version names actor => .named <$> Store.importNames now version names actor
  | migrate now source target => .named <$> Store.migrate now source target
  | promote version => (fun _ => .promoted) <$> Store.promote version
  | rename admins now actor request => .renamed <$> Store.rename admins now actor request
  | setLocks admins actor key locked => .relocked <$> Store.setLocks admins actor key locked

def answer (op : Operation) (s : Store) : Except Fault Answer := (op.update.applyTo s).1

def run (op : Operation) (s : Store) : Store := (op.update.applyTo s).2

end Operation

/-- Writing a store and reading it back. A text that is refused leaves the store as it was. -/
def Store.reload (s : Store) : Store :=
  match Store.parse s.document with
  | .ok t => t
  | .error _ => s

inductive Step where
  | operation (op : Operation)
  | reload

def Step.run : Step → Store → Store
  | operation op => op.run
  | reload => Store.reload

/-- A version whose two classes share a method, and a rename of that method. -/
def specimen : List Step :=
  match Graph.read "a net/Base\n\tc (I)V func_2_c\nb net/Sub\n\tc (I)V func_2_c\n" with
  | .error _ => []
  | .ok graph =>
    [.operation (.importGraph ⟨0, 0⟩ "1" graph "0"),
      .operation (.rename (fun _ => false) ⟨60, 5⟩ "ann"
        ⟨⟨"1", .method, "func_2_c"⟩, "open", false⟩)]

/-- Where a run may start: an empty store, or one that was read from some text. -/
inductive Store.Origin : Store → Prop where
  | empty : Origin .empty
  | parsed {text : String} {s : Store} (read : Store.parse text = .ok s) : Origin s

/-- Runs of steps of any kind, first step first. -/
def replay (run : σ → Store → Store) (steps : List σ) (s : Store) : Store :=
  steps.foldl (fun s step => run step s) s

theorem replay_invariant {run : σ → Store → Store} (property : Store → Prop)
    (preserved : ∀ step s, property s → property (run step s)) (steps : List σ) (s : Store)
    (initial : property s) : property (replay run steps s) := by
  induction steps generalizing s with
  | nil => exact initial
  | cons step steps ih => exact ih _ (preserved step s initial)

namespace Update

theorem applyTo_map (f : α → β) (u : Update α) (s : Store) :
    (f <$> u).applyTo s = ((u.applyTo s).1.map f, (u.applyTo s).2) := by
  rw [← bind_pure_comp, applyTo_bind]
  rcases u.applyTo s with ⟨_ | _, _⟩ <;> rfl

theorem applyTo_bind_ok {u : Update α} {next : α → Update β} {s t : Store} {a : α}
    (h : u.applyTo s = (.ok a, t)) : (u >>= next).applyTo s = (next a).applyTo t := by
  rw [applyTo_bind, h]

/-- A loop whose body always succeeds, with an answer that does not depend on the store. -/
theorem applyTo_mapM {u : α → Update β} {answer : α → β} {effect : α → Store → Store}
    (body : ∀ a s, (u a).applyTo s = (.ok (answer a), effect a s)) (xs : List α) (s : Store) :
    (xs.mapM u).applyTo s = (.ok (xs.map answer), replay effect xs s) := by
  induction xs generalizing s with
  | nil => rfl
  | cons a xs ih =>
    rw [List.mapM_cons, applyTo_bind_ok (body a s), applyTo_bind_ok (ih _)]
    rfl

end Update

end SymbolAtlas
