import SymbolAtlas.Proofs.Entered
import SymbolAtlas.Proofs.ImportContents

/-! A store only grows. Whatever an operation does, the old ledger and the old classes come first in
the new store, and so do the old members and versions but for the few details that are there to be
changed. Which operation may add records and which may change a detail is told by its kind alone,
and the answer of an operation tells by how much the ledger has grown. -/
namespace SymbolAtlas

/-- A member without the details that may change. -/
def MemberRecord.fixed (m : MemberRecord) : MemberRecord :=
  { m with lastChange := none, locked := false }

/-- A version without the mark that moves to another. -/
def VersionRecord.fixed (v : VersionRecord) : VersionRecord := { v with latest := false }

def Answer.entries : Answer → Nat
  | named report => report.total
  | renamed outcome => if outcome.changed then 1 else 0
  | _ => 0

namespace Operation

def importsGraph : Operation → Bool
  | importGraph .. => true
  | _ => false

def promotes : Operation → Bool
  | promote .. => true
  | _ => false

def locks : Operation → Bool
  | setLocks .. => true
  | _ => false

/-- What an operation of its kind has to leave alone. -/
structure Confined (op : Operation) (s t : Store) : Prop where
  records : op.importsGraph = false → t.classes.length = s.classes.length ∧
    t.members.length = s.members.length ∧ t.versions.length = s.versions.length
  locked : op.locks = false →
    s.members.map MemberRecord.locked <+: t.members.map MemberRecord.locked
  latest : op.promotes = false → s.versions <+: t.versions

end Operation

namespace Store

/-- Nothing of a store has been lost. -/
structure Continues (s t : Store) : Prop where
  entries : s.ledger.entries <+: t.ledger.entries
  classes : s.classes <+: t.classes
  members : s.members.map MemberRecord.fixed <+: t.members.map MemberRecord.fixed
  versions : s.versions.map VersionRecord.fixed <+: t.versions.map VersionRecord.fixed

theorem Continues.refl (s : Store) : Continues s s :=
  ⟨List.prefix_rfl, List.prefix_rfl, List.prefix_rfl, List.prefix_rfl⟩

theorem Continues.trans {s t u : Store} (first : Continues s t) (second : Continues t u) :
    Continues s u where
  entries := first.entries.trans second.entries
  classes := first.classes.trans second.classes
  members := first.members.trans second.members
  versions := first.versions.trans second.versions

/-- Members may point at other entries; all other records are the same. -/
structure Repointed (s t : Store) : Prop where
  classes : t.classes = s.classes
  versions : t.versions = s.versions
  members : ∃ point : MemberRecord → Option Nat,
    t.members = s.members.map (fun m => { m with lastChange := point m })

theorem repointed_enterAll (s : Store) (now : Instant) (changes : List NameChange) :
    Repointed s (s.enterAll now changes) := by
  induction changes generalizing s with
  | nil => exact ⟨rfl, rfl, MemberRecord.lastChange, (List.map_id _).symm⟩
  | cons change changes ih =>
    obtain ⟨classes, versions, point, members⟩ := ih (s.enter now change)
    refine ⟨classes, versions, ?_⟩
    let entered (m : MemberRecord) : MemberRecord :=
      if m.key = change.key then { m with lastChange := some s.ledger.size } else m
    refine ⟨fun m => point (entered m), ?_⟩
    rw [enterAll_cons, members]
    change (s.members.map entered).map _ = _
    rw [List.map_map]
    refine List.map_congr_left (fun m _ => ?_)
    simp only [Function.comp, entered]
    split <;> rfl

theorem Repointed.map_eq {s t : Store} (repointed : Repointed s t) {β : Type}
    (detail : MemberRecord → β)
    (blind : ∀ m change, detail { m with lastChange := change } = detail m) :
    t.members.map detail = s.members.map detail := by
  obtain ⟨point, members⟩ := repointed.members
  rw [members, List.map_map]
  exact List.map_congr_left (fun m _ => blind m (point m))

theorem continues_enterAll (s : Store) (now : Instant) (changes : List NameChange) :
    Continues s (s.enterAll now changes) := by
  have repointed := repointed_enterAll s now changes
  refine ⟨?_, ?_, ?_, ?_⟩
  · rw [entries_enterAll]
    exact List.prefix_append _ _
  · exact repointed.classes ▸ List.prefix_rfl
  · exact repointed.map_eq MemberRecord.fixed (fun _ _ => rfl) ▸ List.prefix_rfl
  · exact repointed.versions ▸ List.prefix_rfl

theorem fixed_promoteTo (s : Store) (target : Nat) :
    (s.promoteTo target).versions.map VersionRecord.fixed =
      s.versions.map VersionRecord.fixed := by
  apply List.ext_getElem?
  intro i
  simp only [promoteTo, List.getElem?_map, List.getElem?_mapIdx, Option.map_map]
  rfl

theorem fixed_relock (s : Store) (key : NameKey) (locked : Bool) :
    (s.relock key locked).members.map MemberRecord.fixed = s.members.map MemberRecord.fixed := by
  rw [relock, mapKey, List.map_map]
  refine List.map_congr_left (fun m _ => ?_)
  simp only [Function.comp]
  split <;> rfl

theorem Nameless.continues {s t : Store} {op : Operation} (nameless : Nameless s op t) :
    Continues s t := by
  cases nameless with
  | refused => exact .refl s
  | @imported now version digest graph pending fresh made =>
    have grown := grown_withVersion (Graph.pendingClasses_sound made) s now digest
    obtain ⟨added, members, _⟩ := grown.members
    refine ⟨?_, ?_, ?_, ?_⟩
    · exact grown.ledger ▸ List.prefix_rfl
    · rw [classes_withVersion]
      exact List.prefix_append _ _
    · rw [members, List.map_append]
      exact List.prefix_append _ _
    · rw [grown.versions, List.map_append]
      exact List.prefix_append _ _
  | promoted target =>
    exact ⟨List.prefix_rfl, List.prefix_rfl, List.prefix_rfl,
      (fixed_promoteTo s target).symm ▸ List.prefix_rfl⟩
  | relocked =>
    exact ⟨List.prefix_rfl, List.prefix_rfl, (fixed_relock s _ _).symm ▸ List.prefix_rfl,
      List.prefix_rfl⟩

theorem Nameless.confined {s t : Store} {op : Operation} (nameless : Nameless s op t) :
    op.Confined s t := by
  cases nameless with
  | refused => exact ⟨fun _ => ⟨rfl, rfl, rfl⟩, fun _ => List.prefix_rfl, fun _ => List.prefix_rfl⟩
  | @imported now version digest graph pending fresh made =>
    have grown := grown_withVersion (Graph.pendingClasses_sound made) s now digest
    obtain ⟨added, members, _⟩ := grown.members
    refine ⟨fun other => ?_, fun _ => ?_, fun _ => ?_⟩
    · cases other
    · rw [members, List.map_append]
      exact List.prefix_append _ _
    · rw [grown.versions]
      exact List.prefix_append _ _
  | promoted target =>
    refine ⟨fun _ => ⟨rfl, rfl, List.length_mapIdx⟩, fun _ => List.prefix_rfl, fun other => ?_⟩
    cases other
  | relocked =>
    refine ⟨fun _ => ⟨rfl, List.length_map _, rfl⟩, fun other => ?_, fun _ => List.prefix_rfl⟩
    cases other

end Store

theorem Update.of_answer_map {f : α → β} {u : Update α} {s : Store} {b : β}
    (answered : ((f <$> u).applyTo s).1 = .ok b) : ∃ a, (u.applyTo s).1 = .ok a ∧ f a = b := by
  rw [applyTo_map] at answered
  exact map_eq_ok.mp answered

namespace Operation

open Store

variable {s : Store}

theorem continues_run (sound : s.Sound) (op : Operation) : Continues s (op.run s) := by
  rcases op.course sound with ⟨now, ran⟩ | ⟨_, nameless⟩
  · rw [ran]
    exact continues_enterAll s now _
  · exact nameless.continues

theorem confined_run (sound : s.Sound) (op : Operation) : op.Confined s (op.run s) := by
  rcases op.course sound with ⟨now, ran⟩ | ⟨_, nameless⟩
  · have repointed := repointed_enterAll s now (op.entered s)
    obtain ⟨point, members⟩ := repointed.members
    rw [ran]
    refine ⟨fun _ => ⟨?_, ?_, ?_⟩, fun _ => ?_, fun _ => ?_⟩
    · rw [repointed.classes]
    · rw [members, List.length_map]
    · rw [repointed.versions]
    · exact repointed.map_eq MemberRecord.locked (fun _ _ => rfl) ▸ List.prefix_rfl
    · exact repointed.versions ▸ List.prefix_rfl
  · exact nameless.confined

/-- No run of operations takes anything back. -/
theorem continues_replay (sound : s.Sound) (ops : List Operation) :
    Continues s (replay run ops s) :=
  (replay_invariant (fun t => t.Sound ∧ Continues s t)
    (fun op _ kept => ⟨kept.1.run op, kept.2.trans (op.continues_run kept.1)⟩)
    ops s ⟨sound, .refl s⟩).2

theorem size_run (sound : s.Sound) (op : Operation) :
    (op.run s).ledger.size = s.ledger.size + (op.entered s).length := by
  have lengths := congrArg List.length (op.changes_run sound)
  rwa [List.length_append, List.length_map, List.length_map] at lengths

theorem length_entered_importNames (sound : s.Sound) {now : Instant} {version : String}
    {names : NameExport} {actor : String} {report : NamesReport}
    (reported : ((Store.importNames now version names actor).applyTo s).1 = .ok report) :
    ((importNames now version names actor).entered s).length = report.total := by
  rw [sound.applyTo_importNames] at reported
  split at reported
  · cases reported
  case isFalse known =>
    cases reported
    have offered : (importNames now version names actor).offered s =
        names.changes version actor := by
      rw [Option.isNone_iff_eq_none, ← ne_eq, ← Option.isSome_iff_ne_none] at known
      exact if_pos known
    rw [NamesReport.total_ofChanges]
    exact congrArg (fun changes => (s.accepted changes).length) offered

theorem length_entered_migrate (sound : s.Sound) {now : Instant} {source target : String}
    {report : NamesReport}
    (reported : ((Store.migrate now source target).applyTo s).1 = .ok report) :
    ((migrate now source target).entered s).length = report.total := by
  rw [sound.applyTo_migrate] at reported
  split at reported
  · cases reported
  split at reported
  · cases reported
  split at reported
  · cases reported
  case isFalse first second different =>
    cases reported
    have offered : (migrate now source target).offered s = s.migration source target := by
      rw [Option.isNone_iff_eq_none, ← ne_eq, ← Option.isSome_iff_ne_none] at first second
      refine if_pos ?_
      simp [first, second, different]
    rw [NamesReport.total_ofChanges]
    exact congrArg (fun changes => (s.accepted changes).length) offered

theorem length_entered_rename (indexed : s.Indexed) {admins : Permissions} {now : Instant}
    {actor : String} {request : RenameRequest} {outcome : RenameOutcome}
    (allowed : ((Store.rename admins now actor request).applyTo s).1 = .ok outcome) :
    ((rename admins now actor request).entered s).length = if outcome.changed then 1 else 0 := by
  rw [applyTo_rename indexed] at allowed
  rw [entered]
  cases judged : s.judgeRename admins actor request with
  | error fault =>
    rw [judged] at allowed
    cases allowed
  | ok outcome =>
    rw [judged] at allowed
    cases allowed
    dsimp only
    split <;> rfl

theorem length_entered (sound : s.Sound) {op : Operation} {answer : Answer}
    (answered : op.answer s = .ok answer) : (op.entered s).length = answer.entries := by
  cases op with
  | importNames now version names actor =>
    obtain ⟨report, reported, rfl⟩ := Update.of_answer_map answered
    exact length_entered_importNames sound reported
  | migrate now source target =>
    obtain ⟨report, reported, rfl⟩ := Update.of_answer_map answered
    exact length_entered_migrate sound reported
  | rename admins now actor request =>
    obtain ⟨outcome, allowed, rfl⟩ := Update.of_answer_map answered
    exact length_entered_rename sound.toIndexed allowed
  | _ =>
    obtain ⟨_, _, rfl⟩ := Update.of_answer_map answered
    rfl

theorem run_of_refused (indexed : s.Indexed) {op : Operation} {fault : Fault}
    (refused : op.answer s = .error fault) : op.run s = s := by
  have outcome := op.outcome indexed
  unfold answer at refused
  unfold run
  generalize op.update.applyTo s = ending at outcome refused
  cases outcome with
  | refused => rfl
  | done => cases refused

end Operation

namespace Store

/-- After any run an operation loses nothing and keeps to what its kind may do, and the ledger grows
by what the answer tells, or not at all when there is none. -/
theorem only_grows {start : Store} (origin : Origin start) (steps : List Step) (op : Operation) :
    let s := replay Step.run steps start
    Continues s (op.run s) ∧ op.Confined s (op.run s) ∧
      (∀ answer, op.answer s = .ok answer →
        (op.run s).ledger.size = s.ledger.size + answer.entries) ∧
      ∀ fault, op.answer s = .error fault → op.run s = s := by
  intro s
  have sound : s.Sound := sound_of_replay origin steps
  refine ⟨op.continues_run sound, op.confined_run sound, fun answer answered => ?_, fun fault => ?_⟩
  · rw [op.size_run sound, Operation.length_entered sound answered]
  · exact Operation.run_of_refused sound.toIndexed

def twoVersions : List Step :=
  match Graph.read "x net/Other\n\ty (J)V func_2_c\n" with
  | .error _ => []
  | .ok graph => specimen ++ [.operation (.importGraph ⟨90, 0⟩ "2" graph "1")]

theorem only_grows_migrate :
    let s := replay Step.run twoVersions .empty
    let op := Operation.migrate ⟨120, 0⟩ "1" "2"
    op.answer s = .ok (.named ⟨0, 1, 0⟩) ∧ (op.run s).ledger.size = s.ledger.size + 1 ∧
      Continues s (op.run s) ∧ op.Confined s (op.run s) := by
  intro s op
  have answered : op.answer s = .ok (.named ⟨0, 1, 0⟩) := by decide +kernel
  obtain ⟨continues, confined, grows, _⟩ := only_grows .empty twoVersions op
  exact ⟨answered, grows _ answered, continues, confined⟩

end Store

end SymbolAtlas
