import SymbolAtlas.Proofs.Offers

/-! What every operation enters into the ledger, and what else it does. The names that an operation
gives are read off the operation and the store it finds; the ledger grows by these changes in this
order, and the current name of a member is the last of them that has its key. -/
namespace SymbolAtlas

def NamesReport.ofChanges (changes : List NameChange) : NamesReport :=
  changes.foldl (fun r change => r.count change.key.kind) .zero

theorem NamesReport.total_ofChanges (changes : List NameChange) :
    (ofChanges changes).total = changes.length := by
  rw [ofChanges, Store.total_foldl_count]
  exact Nat.zero_add _

namespace Store

def migration (s : Store) (source target : String) : List NameChange :=
  MemberKind.all.flatMap (s.carriedChanges source target)

theorem Sound.applyTo_importNames {s : Store} (sound : s.Sound) (now : Instant) (version : String)
    (names : NameExport) (actor : String) :
    (importNames now version names actor).applyTo s =
      if (s.version? version).isNone then (.error (.unknownVersion version), s)
      else
        (.ok (.ofChanges (s.accepted (names.changes version actor))),
          s.enterAll now (s.accepted (names.changes version actor))) := by
  rw [Store.applyTo_importNames sound.toIndexed, sound.toIndexed.foldl_offer]
  rfl

theorem Sound.importNames_eq {s : Store} (sound : s.Sound) {version : String}
    (known : (s.version? version).isSome) (now : Instant) (names : NameExport) (actor : String) :
    (importNames now version names actor).applyTo s =
      (.ok (.ofChanges (s.accepted (names.changes version actor))),
        s.enterAll now (s.accepted (names.changes version actor))) := by
  have there : (s.version? version).isNone = false := by simpa using known
  rw [sound.applyTo_importNames, there]
  rfl

theorem Sound.applyTo_migrate {s : Store} (sound : s.Sound) (now : Instant)
    (source target : String) :
    (migrate now source target).applyTo s =
      if (s.version? source).isNone then (.error (.unknownVersion source), s)
      else if (s.version? target).isNone then (.error (.unknownVersion target), s)
      else if source = target then
        (.error (.invalidQuery s!"cannot migrate `{source}` onto itself"), s)
      else
        (.ok (.ofChanges (s.accepted (s.migration source target))),
          s.enterAll now (s.accepted (s.migration source target))) := by
  rw [Store.applyTo_migrate sound.toIndexed]
  split
  · rfl
  split
  · rfl
  split
  · rfl
  case isFalse different =>
    rw [sound.foldl_carry now different, sound.toIndexed.foldl_offer]
    rfl

theorem Sound.migrate_eq {s : Store} (sound : s.Sound) {source target : String}
    (different : source ≠ target) (known : (s.version? source).isSome)
    (known' : (s.version? target).isSome) (now : Instant) :
    (migrate now source target).applyTo s =
      (.ok (.ofChanges (s.accepted (s.migration source target))),
        s.enterAll now (s.accepted (s.migration source target))) := by
  have source_known : (s.version? source).isNone = false := by simpa using known
  have target_known : (s.version? target).isNone = false := by simpa using known'
  rw [sound.applyTo_migrate, source_known, target_known]
  simp [different]

end Store

namespace Operation

open Store

/-- The changes that a name list or another version puts forward, wanted or not. -/
def offered : Operation → Store → List NameChange
  | importNames _ version names actor, s =>
    if (s.version? version).isSome then names.changes version actor else []
  | migrate _ source target, s =>
    if (s.version? source).isSome && (s.version? target).isSome && source != target then
      s.migration source target
    else []
  | _, _ => []

/-- The changes that an operation makes: one for a rename that is not idle, and whatever is taken of
an offer. -/
def entered : Operation → Store → List NameChange
  | rename admins _ actor request, s =>
    match s.judgeRename admins actor request with
    | .ok outcome => if outcome.changed then [⟨request.key, actor, request.final⟩] else []
    | .error _ => []
  | op, s => s.accepted (op.offered s)

end Operation

namespace Store

/-- What an operation makes of a store when it gives no name. -/
inductive Nameless (s : Store) : Operation → Store → Prop where
  | refused (op : Operation) : Nameless s op s
  | imported {now : Instant} {version digest : String} {graph : Graph} (pending : List PendingClass)
      (fresh : s.version? version = none) (made : graph.pendingClasses version = .ok pending) :
      Nameless s (.importGraph now version graph digest) (s.withVersion now version digest pending)
  | promoted {version : String} (target : Nat) : Nameless s (.promote version) (s.promoteTo target)
  | relocked {admins : Permissions} {actor : String} {key : NameKey} {locked : Bool} :
      Nameless s (.setLocks admins actor key locked) (s.relock key locked)

theorem Nameless.ledger {s t : Store} {op : Operation} (nameless : Nameless s op t) :
    t.ledger = s.ledger := by
  cases nameless with
  | imported pending _ made =>
    exact (grown_withVersion (Graph.pendingClasses_sound made) s _ _).ledger
  | _ => rfl

theorem checks_of_judgeRename {s : Store} {admins : Permissions} {actor : String}
    {request : RenameRequest} {outcome : RenameOutcome}
    (allowed : s.judgeRename admins actor request = .ok outcome) :
    Text.isIdentifier request.final.toList = true ∧
      ((s.membersNamed request.key).any MemberRecord.locked = true →
        request.force = true ∧ admins actor = true) := by
  unfold judgeRename at allowed
  dsimp only at allowed
  split at allowed
  · cases allowed
  · split at allowed
    · cases allowed
    case isFalse valid =>
      split at allowed
      · cases allowed
      split at allowed
      · cases allowed
      case isFalse passed =>
        refine ⟨by simpa using valid, fun guarded => ?_⟩
        rw [guarded, Bool.true_and, Bool.not_eq_true', Bool.not_eq_false, Bool.and_eq_true]
          at passed
        exact passed

end Store

namespace Operation

open Store

variable {s : Store}

theorem run_importNames (sound : s.Sound) (now : Instant) (version : String) (names : NameExport)
    (actor : String) :
    (importNames now version names actor).run s =
      s.enterAll now ((importNames now version names actor).entered s) := by
  rw [run, update, Update.applyTo_map, sound.applyTo_importNames]
  change _ = s.enterAll now (s.accepted (if (s.version? version).isSome then _ else []))
  cases s.version? version <;> rfl

theorem run_migrate (sound : s.Sound) (now : Instant) (source target : String) :
    (migrate now source target).run s =
      s.enterAll now ((migrate now source target).entered s) := by
  rw [run, update, Update.applyTo_map, sound.applyTo_migrate]
  change _ = s.enterAll now (s.accepted (if (s.version? source).isSome &&
    (s.version? target).isSome && source != target then _ else []))
  cases s.version? source with
  | none => rfl
  | some _ =>
    cases s.version? target with
    | none => rfl
    | some _ =>
      by_cases same : source = target
      · simp [same, accepted, enterAll]
      · simp [same]

theorem run_rename (indexed : s.Indexed) (admins : Permissions) (now : Instant) (actor : String)
    (request : RenameRequest) :
    (rename admins now actor request).run s =
      s.enterAll now ((rename admins now actor request).entered s) := by
  rw [run, update, Update.applyTo_map, applyTo_rename indexed, entered]
  cases s.judgeRename admins actor request with
  | error fault => rfl
  | ok outcome =>
    dsimp only
    split <;> rfl

theorem nameless_importGraph (now : Instant) (version : String) (graph : Graph)
    (digest : String) :
    Nameless s (importGraph now version graph digest)
      ((importGraph now version graph digest).run s) := by
  rw [run, update, Update.applyTo_map, applyTo_importGraph]
  split
  · exact .refused _
  case isFalse fresh =>
    cases made : graph.pendingClasses version with
    | error fault => exact .refused _
    | ok pending =>
      dsimp only
      split
      · exact .refused _
      · exact .imported pending (Option.not_isSome_iff_eq_none.mp fresh) made

theorem nameless_promote (version : String) :
    Nameless s (promote version) ((promote version).run s) := by
  rw [run, update, Update.applyTo_map, applyTo_promote]
  split
  · exact .refused _
  · split
    · exact .refused _
    · exact .promoted _

theorem nameless_setLocks (indexed : s.Indexed) (admins : Permissions) (actor : String)
    (key : NameKey) (locked : Bool) :
    Nameless s (setLocks admins actor key locked)
      ((setLocks admins actor key locked).run s) := by
  rw [run, update, Update.applyTo_map, applyTo_setLocks indexed]
  split
  · exact .refused _
  split
  · exact .refused _
  · exact .relocked

/-- An operation enters its changes and does nothing else, or it enters none. -/
theorem course (sound : s.Sound) (op : Operation) :
    (∃ now, op.run s = s.enterAll now (op.entered s)) ∨
      (op.entered s = [] ∧ Nameless s op (op.run s)) := by
  cases op with
  | importGraph now version graph digest =>
    exact .inr ⟨rfl, nameless_importGraph now version graph digest⟩
  | importNames now version names actor =>
    exact .inl ⟨now, run_importNames sound now version names actor⟩
  | migrate now source target => exact .inl ⟨now, run_migrate sound now source target⟩
  | promote version => exact .inr ⟨rfl, nameless_promote version⟩
  | rename admins now actor request =>
    exact .inl ⟨now, run_rename sound.toIndexed admins now actor request⟩
  | setLocks admins actor key locked =>
    exact .inr ⟨rfl, nameless_setLocks sound.toIndexed admins actor key locked⟩

theorem allowed_of_entered {admins : Permissions} {now : Instant} {actor : String}
    {request : RenameRequest} {change : NameChange}
    (entered : change ∈ (rename admins now actor request).entered s) :
    change = ⟨request.key, actor, request.final⟩ ∧
      ∃ outcome, s.judgeRename admins actor request = .ok outcome := by
  rw [Operation.entered] at entered
  cases judged : s.judgeRename admins actor request with
  | error fault =>
    rw [judged] at entered
    cases entered
  | ok outcome =>
    rw [judged] at entered
    dsimp only at entered
    split at entered
    · exact ⟨List.mem_singleton.mp entered, outcome, rfl⟩
    · cases entered

theorem known_of_entered (indexed : s.Indexed) (op : Operation) :
    ∀ change ∈ op.entered s, ∃ m ∈ s.members, m.key = change.key := by
  cases op with
  | rename admins now actor request =>
    intro change entered
    obtain ⟨rfl, outcome, judged⟩ := allowed_of_entered entered
    exact known_of_judgeRename indexed judged
  | _ => exact indexed.known_of_accepted

theorem changes_run (sound : s.Sound) (op : Operation) :
    (op.run s).ledger.entries.map LedgerEntry.change =
      s.ledger.entries.map LedgerEntry.change ++ op.entered s := by
  rcases op.course sound with ⟨now, ran⟩ | ⟨none, nameless⟩
  · have appended : ((op.entered s).mapIdx (fun i change =>
        (⟨s.ledger.size + i, change, now⟩ : LedgerEntry))).map LedgerEntry.change =
        op.entered s := by
      apply List.ext_getElem?
      intro i
      simp [Function.comp_def]
    rw [ran, entries_enterAll, List.map_append, appended]
  · rw [nameless.ledger, none, List.append_nil]

/-- A member's name after an operation is the last one entered for its key, if any was. -/
theorem finalNameAt?_run (sound : s.Sound) (op : Operation) {id : Nat} {m : MemberRecord}
    (found : s.member? id = some m) :
    (op.run s).finalNameAt? id =
      (((op.entered s).reverse.find? (fun c => m.key = c.key)).map NameChange.final).or
        (s.finalNameAt? id) := by
  rcases op.course sound with ⟨now, ran⟩ | ⟨none, nameless⟩
  · rw [ran]
    exact sound.finalNameAt?_enterAll found now (op.known_of_entered sound.toIndexed)
  · rw [none]
    have ledger := nameless.ledger
    have kept : ∃ n, (op.run s).member? id = some n ∧ n.lastChange = m.lastChange := by
      generalize op.run s = t at nameless
      cases nameless with
      | refused => exact ⟨m, found, rfl⟩
      | promoted target => exact ⟨m, found, rfl⟩
      | relocked =>
        refine ⟨_, by rw [member?, relock, mapKey, List.getElem?_map, ← member?, found]; rfl, ?_⟩
        dsimp only
        split <;> rfl
      | imported pending fresh made =>
        obtain ⟨added, members, _⟩ :=
          (grown_withVersion (Graph.pendingClasses_sound made) s _ _).members
        have inside : id < s.members.length := (List.getElem?_eq_some_iff.mp found).1
        refine ⟨m, ?_, rfl⟩
        rw [member?, members, List.getElem?_append_left inside]
        exact found
    obtain ⟨n, found', points⟩ := kept
    simp [finalNameAt?, finalName?, lastRecord?, found, found', points, ledger]

end Operation

end SymbolAtlas
