import SymbolAtlas.Proofs.LockAuthority
import SymbolAtlas.Proofs.Looking

/-! The operation behind a command. A change looks up versions and names in the store and reads its
sources, and what it asks for then is one operation with all its arguments; its effect is that of
the operation, to be committed unless the answer says that nothing changed. -/
namespace SymbolAtlas

/-- Whether there is something to commit. A rename to the present name and a lock that is set
already change nothing; all other successes count as changes. -/
def Answer.commits : Answer → Bool
  | renamed outcome => outcome.changed
  | relocked changed => changed
  | _ => true

def Operation.remark : Operation → Answer → String
  | importGraph _ version _ _, .imported report => report.line version
  | importNames _ version _ _, .named report => report.line version
  | migrate _ source target, .named report =>
    String.join ["Migrated ", report.total.repr, " names from ", source, " to ", target]
  | promote version, .promoted => version ++ " is now " ++ Store.latestWord
  | rename _ _ _ request, .renamed outcome =>
    if outcome.changed then
      String.join [request.key.name, ": ", outcome.old.getD "-", " -> ", request.final]
    else request.key.name ++ " is already named " ++ request.final
  | setLocks _ _ key locked, .relocked changed =>
    let state := if locked then "locked" else "unlocked"
    if changed then key.name ++ " " ++ state else key.name ++ " is already " ++ state
  | _, _ => ""

namespace Change

/-- The operation that a change asks for on a store. Its sources are read from the disk. -/
def operation (settings : Settings) (now : Instant) (s : Store) : Change → Job Operation
  | importBundle version source => do
    let bundle ← MappingBundle.load source
    let graph ← Job.ofExcept bundle.graph
    return .importGraph now version graph bundle.digest
  | importNames version source actor => do
    let actor ← Job.ofExcept (settings.actorFor actor)
    let version ← Job.ofExcept (s.resolveVersion version)
    let names ← NameExport.load source
    return .importNames now version names actor
  | setLock t locked actor => do
    let actor ← Job.ofExcept (settings.actorFor actor)
    let key ← Job.ofExcept (t.key s)
    return .setLocks settings.isAdmin actor key locked
  | migrate source target => do
    let source ← Job.ofExcept (s.resolveVersion source)
    let target ← Job.ofExcept (s.resolveVersion target)
    return .migrate now source target
  | promote version => return .promote version
  | rename t final force actor => do
    let actor ← Job.ofExcept (settings.actorFor actor)
    let key ← Job.ofExcept (t.key s)
    return .rename settings.isAdmin now actor ⟨key, final, force⟩

theorem looks_operation (settings : Settings) (now : Instant) (s : Store) (c : Change) :
    (c.operation settings now s).Looks := by
  cases c with
  | importBundle version source =>
    refine (MappingBundle.looks_load source).bind (fun bundle => ?_)
    exact (Job.looks_ofExcept _).bind (fun graph => Job.looks_pure _)
  | importNames version source actor =>
    refine (Job.looks_ofExcept _).bind (fun actor => ?_)
    refine (Job.looks_ofExcept _).bind (fun version => ?_)
    exact (NameExport.looks_load source).bind (fun names => Job.looks_pure _)
  | promote version => exact Job.looks_pure _
  | _ => exact (Job.looks_ofExcept _).bind (fun _ => (Job.looks_ofExcept _).bind (fun _ =>
      Job.looks_pure _))

end Change

def Operation.effect (op : Operation) (s : Store) : Job Effect := do
  let answer ← Job.ofExcept (op.answer s)
  return ⟨if answer.commits then some (op.run s) else none, op.remark answer⟩

/-- An update that goes by an operation, and what comes after it, are the operation's effect. -/
theorem Update.job_eq_effect {u : Update α} {wrap : α → Answer} {op : Operation} {s : Store}
    {next : α × Store → Job Effect} (same : op.update = wrap <$> u)
    (ending : ∀ a, next (a, op.run s) =
      pure ⟨if (wrap a).commits then some (op.run s) else none, op.remark (wrap a)⟩) :
    (u.job s >>= next) = op.effect s := by
  have answer : op.answer s = (u.applyTo s).1.map wrap := by
    rw [Operation.answer, same, applyTo_map]
  have run : op.run s = (u.applyTo s).2 := by
    rw [Operation.run, same, applyTo_map]
  rw [run] at ending
  rw [Operation.effect, answer, run, Update.job]
  generalize u.applyTo s = outcome at ending ⊢
  obtain ⟨fault | a, t⟩ := outcome
  · rfl
  · exact ending a

theorem Target.name_of_key {t : Target} {s : Store} {key : NameKey} (found : t.key s = .ok key) :
    key.name = t.name := by
  obtain ⟨kind, _, found⟩ := bind_eq_ok.mp found
  obtain ⟨version, _, found⟩ := bind_eq_ok.mp found
  cases found
  rfl

theorem Change.effect_eq (c : Change) (settings : Settings) (now : Instant) (s : Store) :
    c.effect settings now s = c.operation settings now s >>= fun op => op.effect s := by
  cases c with
  | importBundle version source =>
    simp only [effect, importBundleEffect, operation, bind_assoc, pure_bind]
    refine bind_congr (fun bundle => bind_congr (fun graph => ?_))
    exact Update.job_eq_effect rfl (fun report => rfl)
  | importNames version source actor =>
    simp only [effect, importNamesEffect, operation, bind_assoc, pure_bind]
    refine bind_congr (fun actor => bind_congr (fun version => bind_congr (fun names => ?_)))
    exact Update.job_eq_effect rfl (fun report => rfl)
  | setLock t locked actor =>
    simp only [effect, setLockEffect, operation, bind_assoc, pure_bind]
    refine bind_congr (fun actor => ?_)
    cases found : t.key s with
    | error fault => rfl
    | ok key =>
      rw [← Target.name_of_key found]
      refine Update.job_eq_effect rfl (fun changed => ?_)
      cases changed <;> rfl
  | migrate source target =>
    simp only [effect, migrateEffect, operation, bind_assoc, pure_bind]
    refine bind_congr (fun source => bind_congr (fun target => ?_))
    exact Update.job_eq_effect rfl (fun report => rfl)
  | promote version =>
    simp only [effect, promoteEffect, operation, pure_bind]
    exact Update.job_eq_effect rfl (fun _ => rfl)
  | rename t final force actor =>
    simp only [effect, renameEffect, operation, bind_assoc, pure_bind]
    refine bind_congr (fun actor => ?_)
    cases found : t.key s with
    | error fault => rfl
    | ok key =>
      rw [← Target.name_of_key found]
      refine Update.job_eq_effect rfl (fun outcome => ?_)
      obtain ⟨changed, old⟩ := outcome
      cases changed <;> rfl

theorem Operation.run_of_idle {s : Store} (indexed : s.Indexed) {op : Operation} {answer : Answer}
    (answered : op.answer s = .ok answer) (idle : answer.commits = false) : op.run s = s := by
  cases op with
  | setLocks admins actor key locked =>
    obtain ⟨changed, _, rfl⟩ := Update.of_answer_map answered
    obtain ⟨permitted, known, changes⟩ := indexed.answer_setLocks_eq_ok_iff.mp answered
    rw [indexed.run_setLocks permitted known]
    refine Store.relock_of_not_mislocked (fun mislocked => ?_)
    cases idle.symm.trans (changes.mpr mislocked)
  | rename admins now actor request =>
    obtain ⟨outcome, renamed, rfl⟩ := Update.of_answer_map answered
    have unchanged : outcome.changed = false := idle
    have entered := length_entered_rename indexed renamed
    rw [unchanged, if_neg Bool.false_ne_true, List.length_eq_zero_iff] at entered
    rw [run_rename indexed, entered]
    rfl
  | _ =>
    obtain ⟨_, _, rfl⟩ := Update.of_answer_map answered
    cases idle

end SymbolAtlas
