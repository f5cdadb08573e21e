import SymbolAtlas.Proofs.NamingEffect
import SymbolAtlas.Proofs.VersionEffect

/-! Everything that an operation can make of an indexed store. It is refused and leaves the store,
or it succeeds with one of five effects; no other module opens the operations to find out what they
preserve. A refusal never blames the store: an indexed store has no dangling ids to find. -/
namespace SymbolAtlas

/-- Whether a fault says that the store itself is broken. -/
def Fault.blamesStore : Fault → Bool
  | .storeCorrupt _ => true
  | _ => false

namespace Store

structure Unnamed (s : Store) (key : NameKey) : Prop where
  known : ∃ m ∈ s.members, m.key = key
  free : ∀ m ∈ s.members, m.key = key → m.lastChange = none

theorem Indexed.awaitsName_iff {s : Store} (indexed : s.Indexed) (key : NameKey) :
    s.awaitsName key = true ↔ s.Unnamed key := by
  simp only [awaitsName, Bool.and_eq_true, Bool.not_eq_true', List.isEmpty_eq_false_iff_exists_mem,
    List.any_eq_false, indexed.mem_membersNamed, Option.not_isSome_iff_eq_none, and_imp]
  exact ⟨fun h => ⟨h.1, h.2⟩, fun h => ⟨h.known, h.free⟩⟩

/-- Keys without a name have been given one, one after another. -/
inductive Named (s : Store) : Store → Prop where
  | refl : Named s s
  | enter {t : Store} (earlier : Named s t) (now : Instant) (change : NameChange)
      (unnamed : t.Unnamed change.key) : Named s (t.enter now change)

inductive Effect (s : Store) : Store → Prop where
  | named {t : Store} (named : Named s t) : Effect s t
  | renamed (now : Instant) (change : NameChange) (known : ∃ m ∈ s.members, m.key = change.key) :
      Effect s (s.enter now change)
  | relocked (key : NameKey) (locked : Bool) : Effect s (s.relock key locked)
  | promoted (target : Nat) : Effect s (s.promoteTo target)
  | imported (now : Instant) (version digest : String) (graph : Graph) (pending : List PendingClass)
      (fresh : s.version? version = none) (made : graph.pendingClasses version = .ok pending) :
      Effect s (s.withVersion now version digest pending)

inductive Outcome (s : Store) : Except Fault Answer × Store → Prop where
  | refused {fault : Fault} (blameless : fault.blamesStore = false) : Outcome s (.error fault, s)
  | done {t : Store} {answer : Answer} (effect : Effect s t) : Outcome s (.ok answer, t)

theorem Indexed.named_offers {s : Store} (now : Instant) (changes : List NameChange)
    {p : NamesReport × Store} (indexed : p.2.Indexed) (named : Named s p.2) :
    Named s (changes.foldl (offer now) p).2 := by
  induction changes generalizing p with
  | nil => exact named
  | cons change changes ih =>
    refine ih (indexed_offer indexed now change) ?_
    unfold offer
    split
    case isTrue awaits => exact named.enter now change ((indexed.awaitsName_iff _).mp awaits)
    case isFalse => exact named

theorem Indexed.named_carries {s : Store} (now : Instant) (source target : String)
    (kinds : List MemberKind) {p : NamesReport × Store} (indexed : p.2.Indexed)
    (named : Named s p.2) : Named s (kinds.foldl (carry now source target) p).2 := by
  induction kinds generalizing p with
  | nil => exact named
  | cons kind kinds ih =>
    exact ih (indexed_offers indexed now _) (named_offers now _ indexed named)

theorem blameless_of_judgeRename {s : Store} {admins : Permissions} {actor : String}
    {request : RenameRequest} {fault : Fault}
    (refused : s.judgeRename admins actor request = .error fault) : fault.blamesStore = false := by
  unfold judgeRename at refused
  dsimp only at refused
  split at refused
  · cases refused
    rfl
  · split at refused
    · cases refused
      rfl
    split at refused
    · cases refused
      rfl
    split at refused
    · cases refused
      rfl
    · cases refused

end Store

theorem Fault.blamesStore_about (fault : Fault) (text : String) :
    (fault.about text).blamesStore = fault.blamesStore := by
  cases fault <;> rfl

theorem TypeRef.blameless_of_spellCode {code : List Char} {fault : Fault}
    (refused : spellCode code = .error fault) : fault.blamesStore = false := by
  induction code generalizing fault with
  | nil =>
    cases refused
    rfl
  | cons c rest ih =>
    unfold spellCode at refused
    split at refused
    case h_1 same => cases same
    case h_2 same =>
      cases same
      obtain ⟨cause, inner, rfl⟩ := mapError_eq_error.mp refused
      rw [Fault.blamesStore_about]
      exact ih (map_eq_error.mp inner)
    case h_3 =>
      split at refused <;> cases refused
      rfl
    case h_4 =>
      split at refused <;> cases refused
      rfl

theorem Graph.blameless_of_pendingClasses {g : Graph} {version : String} {fault : Fault}
    (refused : g.pendingClasses version = .error fault) : fault.blamesStore = false := by
  obtain ⟨c, _, refused⟩ := mapM_error refused
  obtain ⟨m, _, refused⟩ := mapM_error (error_of_map refused)
  obtain ⟨p, _, refused⟩ := mapM_error (error_of_map refused)
  exact TypeRef.blameless_of_spellCode (map_eq_error.mp (error_of_map refused))

namespace Operation

open Store

theorem outcome {s : Store} (indexed : s.Indexed) (op : Operation) :
    Outcome s (op.update.applyTo s) := by
  cases op with
  | importGraph now version graph digest =>
    rw [update, Update.applyTo_map, applyTo_importGraph]
    split
    · exact .refused rfl
    case isFalse fresh =>
      cases made : graph.pendingClasses version with
      | error fault => exact .refused (graph.blameless_of_pendingClasses made)
      | ok pending =>
        dsimp only
        split
        · exact .refused rfl
        · exact .done (.imported now version digest graph pending
            (Option.not_isSome_iff_eq_none.mp fresh) made)
  | importNames now version names actor =>
    rw [update, Update.applyTo_map, applyTo_importNames indexed]
    split
    · exact .refused rfl
    · exact .done (.named (Indexed.named_offers now _ indexed .refl))
  | migrate now source target =>
    rw [update, Update.applyTo_map, applyTo_migrate indexed]
    split
    · exact .refused rfl
    split
    · exact .refused rfl
    split
    · exact .refused rfl
    · exact .done (.named (Indexed.named_carries now source target _ indexed .refl))
  | promote version =>
    rw [update, Update.applyTo_map, applyTo_promote]
    split
    · exact .refused rfl
    · split
      · exact .refused rfl
      · exact .done (.promoted _)
  | rename admins now actor request =>
    rw [update, Update.applyTo_map, applyTo_rename indexed]
    cases judged : s.judgeRename admins actor request with
    | error fault => exact .refused (blameless_of_judgeRename judged)
    | ok outcome =>
      dsimp only
      split
      · exact .done (.renamed now _ (known_of_judgeRename indexed judged))
      · exact .done (.named .refl)
  | setLocks admins actor key locked =>
    rw [update, Update.applyTo_map, applyTo_setLocks indexed]
    split
    · exact .refused rfl
    split
    · exact .refused rfl
    · exact .done (.relocked key locked)

end Operation

namespace Store

/-- A property that every effect keeps, told by the changes that effects are made of. -/
structure Kept (property : Store → Prop) : Prop where
  entered : ∀ s now change, (∃ m ∈ s.members, m.key = change.key) → property s →
    property (s.enter now change)
  relocked : ∀ s key locked, property s → property (s.relock key locked)
  promoted : ∀ s target, property s → property (s.promoteTo target)
  imported : ∀ s now version digest graph pending, s.version? version = none →
    Graph.pendingClasses graph version = .ok pending → property s →
    property (s.withVersion now version digest pending)

theorem Kept.effect {property : Store → Prop} (kept : Kept property) {s t : Store}
    (effect : Effect s t) (holds : property s) : property t := by
  cases effect with
  | named named =>
    induction named with
    | refl => exact holds
    | enter _ now change unnamed ih => exact kept.entered _ now change unnamed.known ih
  | renamed now change known => exact kept.entered s now change known holds
  | relocked key locked => exact kept.relocked s key locked holds
  | promoted target => exact kept.promoted s target holds
  | imported now version digest graph pending fresh made =>
    exact kept.imported s now version digest graph pending fresh made holds

theorem Kept.run {property : Store → Prop} (kept : Kept property) {s : Store}
    (indexed : s.Indexed) (op : Operation) (holds : property s) : property (op.run s) := by
  have outcome := op.outcome indexed
  unfold Operation.run
  generalize op.update.applyTo s = ending at outcome
  cases outcome with
  | refused => exact holds
  | done effect => exact kept.effect effect holds

theorem kept_indexed : Kept Indexed where
  entered _ now change _ indexed := indexed.enter now change
  relocked _ key locked indexed := indexed.relock key locked
  promoted _ _ indexed := indexed.congr rfl rfl
  imported _ now version digest _ pending _ _ indexed :=
    indexed.withVersion now version digest pending

theorem Indexed.run {s : Store} (indexed : s.Indexed) (op : Operation) : (op.run s).Indexed :=
  kept_indexed.run indexed op indexed

end Store

end SymbolAtlas
