import SymbolAtlas.Proofs.StoreCommit

/-! What a command leaves of the store's file. A question leaves the whole disk as it was. A change
that fails, and one that finds nothing to do, leaves the file as it found it; one that succeeds
leaves the document of what its operation makes of the store that was in the file. -/
namespace SymbolAtlas

namespace Change

/-- What a change leaves of the store's file that it finds on a disk, where something may hinder
it. -/
inductive Leaves (c : Change) (settings : Settings) (now : Instant) (d : Disk) (hindered : Prop) :
    Except Fault Report → Option ByteArray → Prop
  /-- The lock or the store's place could not be had. -/
  | failed (detail : String) (why : hindered) :
    Leaves c settings now d hindered (.error (.io detail)) (d.content? settings.database)
  /-- The file holds no store. -/
  | unread {fault : Fault} (unread : d.store settings.database = .error fault) :
    Leaves c settings now d hindered (.error fault) (d.content? settings.database)
  /-- There is no operation to try: who acts, what is meant or its source is not known. -/
  | unasked {s : Store} {fault : Fault} (read : d.store settings.database = .ok s)
      (asked : (c.operation settings now s).play d = some (.error fault, d)) :
    Leaves c settings now d hindered (.error fault) (d.content? settings.database)
  | refused {s : Store} {op : Operation} {fault : Fault}
      (read : d.store settings.database = .ok s)
      (asked : (c.operation settings now s).play d = some (.ok op, d))
      (refused : op.answer s = .error fault) :
    Leaves c settings now d hindered (.error fault) (d.content? settings.database)
  | idle {s : Store} {op : Operation} {answer : Answer} (read : d.store settings.database = .ok s)
      (asked : (c.operation settings now s).play d = some (.ok op, d))
      (answered : op.answer s = .ok answer) (idle : answer.commits = false) :
    Leaves c settings now d hindered (.ok (.remark (op.remark answer)))
      (d.content? settings.database)
  | committed {s : Store} {op : Operation} {answer : Answer}
      (read : d.store settings.database = .ok s)
      (asked : (c.operation settings now s).play d = some (.ok op, d))
      (answered : op.answer s = .ok answer) (commits : answer.commits = true) :
    Leaves c settings now d hindered (.ok (.remark (op.remark answer)))
      (some (op.run s).document.toUTF8)

variable {settings : Settings} {d : Disk}

namespace Leaves

variable {c : Change} {now : Instant} {hindered : Prop} {content : Option ByteArray}

theorem mono {outcome : Except Fault Report} {other : Prop}
    (leaves : c.Leaves settings now d hindered outcome content) (weaker : hindered → other) :
    c.Leaves settings now d other outcome content := by
  cases leaves with
  | failed detail why => exact .failed detail (weaker why)
  | unread unread => exact .unread unread
  | unasked read asked => exact .unasked read asked
  | refused read asked refused => exact .refused read asked refused
  | idle read asked answered idle => exact .idle read asked answered idle
  | committed read asked answered commits => exact .committed read asked answered commits

theorem failed_of_refused {outcome : Except Fault Report} {detail : String}
    (leaves : c.Leaves settings now d hindered outcome content)
    (refused : d.store settings.database = .error (.io detail)) :
    ∃ detail, outcome = .error (.io detail) := by
  cases leaves with
  | failed detail why => exact ⟨detail, rfl⟩
  | unread unread =>
    cases refused.symm.trans unread
    exact ⟨detail, rfl⟩
  | unasked read _ => cases refused.symm.trans read
  | refused read _ _ => cases refused.symm.trans read
  | idle read _ _ _ => cases refused.symm.trans read
  | committed read _ _ _ => cases refused.symm.trans read

theorem kept {fault : Fault} (leaves : c.Leaves settings now d hindered (.error fault) content) :
    content = d.content? settings.database := by
  cases leaves <;> rfl

theorem succeeded {report : Report}
    (leaves : c.Leaves settings now d hindered (.ok report) content) :
    ∃ s op answer, d.store settings.database = .ok s ∧
      (c.operation settings now s).play d = some (.ok op, d) ∧ op.answer s = .ok answer ∧
      report = .remark (op.remark answer) ∧
      content = if answer.commits then some (op.run s).document.toUTF8
        else d.content? settings.database := by
  cases leaves with
  | @idle s op answer read asked answered idle =>
    exact ⟨s, op, answer, read, asked, answered, rfl, by rw [idle]; rfl⟩
  | @committed s op answer read asked answered commits =>
    exact ⟨s, op, answer, read, asked, answered, rfl, by rw [commits]; rfl⟩

end Leaves

theorem play_runLocked_of_answer {c : Change} {now : Instant} {s : Store} {op : Operation}
    {answer : Answer} (read : d.store settings.database = .ok s)
    (asked : (c.operation settings now s).play d = some (.ok op, d))
    (answered : op.answer s = .ok answer) : (c.runLocked settings now).play d =
      ((if answer.commits then Workspace.commit settings.database (op.run s) else pure ()) >>=
        fun _ => pure (.remark (op.remark answer))).play d := by
  have opened := d.play_openStore settings.database
  rw [read] at opened
  have effect : (op.effect s).play d =
      some (.ok ⟨if answer.commits then some (op.run s) else none, op.remark answer⟩, d) := by
    rw [Operation.effect, answered]
    rfl
  rw [runLocked, Job.play_bind_ok opened, c.effect_eq, bind_assoc, Job.play_bind_ok asked,
    Job.play_bind_ok effect]
  cases answer.commits <;> rfl

theorem play_runLocked {parent : Location} {last : String} (c : Change) (now : Instant)
    (beside : d.Beside settings.database parent last) :
    ∃ outcome e, (c.runLocked settings now).play d = some (outcome, e) ∧
      c.Leaves settings now d (d.Blocked parent last) outcome (e.content? settings.database) ∧
      Disk.Touched [Disk.further parent last, parent ++ [last ++ ".tmp"]] d e ∧
      e.held = d.held := by
  cases read : d.store settings.database with
  | error fault =>
    have opened := d.play_openStore settings.database
    rw [read] at opened
    exact ⟨_, d, Job.play_bind_error opened, .unread read, .refl _ d, rfl⟩
  | ok s =>
    have opened := d.play_openStore settings.database
    rw [read] at opened
    obtain ⟨result, asked⟩ := (looks_operation settings now s c).play d
    cases result with
    | error fault =>
      refine ⟨_, d, ?_, .unasked read asked, .refl _ d, rfl⟩
      rw [runLocked, Job.play_bind_ok opened, c.effect_eq, bind_assoc]
      exact Job.play_bind_error asked
    | ok op =>
      cases answered : op.answer s with
      | error fault =>
        have refused : (op.effect s).play d = some (.error fault, d) := by
          rw [Operation.effect, answered]
          rfl
        refine ⟨_, d, ?_, .refused read asked answered, .refl _ d, rfl⟩
        rw [runLocked, Job.play_bind_ok opened, c.effect_eq, bind_assoc, Job.play_bind_ok asked]
        exact Job.play_bind_error refused
      | ok answer =>
        rw [play_runLocked_of_answer read asked answered]
        cases commits : answer.commits with
        | false => exact ⟨_, d, rfl, .idle read asked answered commits, .refl _ d, rfl⟩
        | true =>
          obtain ⟨result, e, committed, ending, touched, held⟩ :=
            Workspace.play_commit beside (op.run s)
          rw [if_pos rfl]
          cases ending with
          | failed detail blocked kept =>
            refine ⟨_, e, Job.play_bind_error committed, ?_, touched, held⟩
            rw [kept]
            exact .failed detail blocked
          | done free written =>
            refine ⟨_, e, Job.play_bind_ok committed, ?_, touched, held⟩
            rw [written]
            exact .committed read asked answered commits

end Change

/-! ### Everything else -/

namespace Disk

variable {d e : Disk} {database : String}

/-- Where the store, its lock file and its staging file are, as far as their paths lead anywhere. -/
def storeFiles (d : Disk) (database : String) : List Location :=
  [database, Workspace.lockPath database, Workspace.stagingPath database].filterMap
    (fun path => (d.locate path).toOption)

theorem Beside.storeFiles_eq {parent : Location} {last : String}
    (beside : d.Beside database parent last) : d.storeFiles database =
      [further parent last, parent ++ [last ++ ".lock"], parent ++ [last ++ ".tmp"]] := by
  simp [storeFiles, beside.store, beside.lock, beside.staging, Except.toOption]

/-- What a change leaves of everything else. Locks are held by those who held them; no directory can
be made any more; and besides new directories nothing has been touched but the store and the files
beside it. -/
structure Aftermath (database : String) (d e : Disk) : Prop where
  held : e.held = d.held
  settled : e.prepared database = e
  touched : Touched ((d.prepared database).storeFiles database) (d.prepared database) e

theorem Aftermath.roomy {parent : Location} {last : String} (aftermath : d.Aftermath database e)
    (roomy : Roomy database parent last d) : Roomy database parent last e where
  made := by
    rw [aftermath.settled]
    exact makeDirectories_touched aftermath.touched ((d.makeDirectories_again _).trans roomy.made)
  beside := aftermath.settled.symm ▸ roomy.beside.touched aftermath.touched
  plain := by
    rw [aftermath.settled]
    exact mt (aftermath.touched.directory _).mp roomy.plain
  free := aftermath.held.symm ▸ roomy.free
  unblocked := by
    rw [aftermath.settled]
    exact mt aftermath.touched.blocked_iff.mp roomy.unblocked

theorem Aftermath.accepts (text : database ≠ "") (aftermath : d.Aftermath database e)
    (accepts : d.Accepts database) : e.Accepts database := by
  obtain ⟨parent, last, roomy⟩ := accepts.roomy text
  exact (aftermath.roomy roomy).accepts

theorem database_ne_empty {settings : Settings} (known : d.settings = .ok settings) :
    settings.database ≠ "" := by
  have joined (path : String) : Path.join Workspace.root path ≠ "" := by
    intro empty
    unfold Path.join at empty
    split at empty
    case isTrue absolute =>
      rw [empty] at absolute
      revert absolute
      decide
    · split at empty
      · exact absurd (String.append_eq_empty_iff.mp empty).1 (by decide)
      · exact absurd (String.append_eq_empty_iff.mp empty).1 (by decide)
  obtain ⟨text, _, parsed⟩ := bind_eq_ok.mp known
  cases text with
  | none =>
    cases parsed
    exact joined "srgmap.json"
  | some text =>
    change Settings.parse Workspace.root text = .ok settings at parsed
    unfold Settings.parse at parsed
    split at parsed
    · cases parsed
      exact joined _
    · cases parsed

/-- The lock file does not show in the store, but its directories may. -/
theorem content?_locked (d : Disk) (text : database ≠ "") :
    (d.locked database).content? database = (d.prepared database).content? database := by
  rcases d.answer_lock text with ⟨_, _, nothing⟩ | ⟨parent, last, there, _⟩
  · rw [nothing]
  · exact there.beside.content?_eq (by decide) there.touched

theorem content?_locked_of_onward (text : database ≠ "") (tree : d.IsTree)
    (onward : ".." ∉ Path.names database) :
    (d.locked database).content? database = d.content? database := by
  rw [d.content?_locked text]
  exact (d.furnished_prepared database).content?_eq tree onward

theorem touched_unlock (d : Disk) (path : String) : Touched [] d (d.unlock path) := by
  unfold unlock
  split
  · exact ⟨rfl, fun _ => Iff.rfl, fun _ _ => rfl⟩
  · exact .refl [] d

end Disk

namespace Change

variable {settings : Settings} {d : Disk}

theorem play_holding (c : Change) (now : Instant) (text : settings.database ≠ "") (d : Disk) :
    ((Job.holding (Workspace.lockPath settings.database) (c.runLocked settings now)).play d =
        none ∧ d.Waits settings.database) ∨
      ∃ outcome e, (Job.holding (Workspace.lockPath settings.database)
          (c.runLocked settings now)).play d = some (outcome, e) ∧
        c.Leaves settings now (d.locked settings.database) (¬ d.Accepts settings.database)
          outcome (e.content? settings.database) ∧
        d.Aftermath settings.database e := by
  rcases d.answer_lock text with ⟨fault, refused, nothing⟩ |
    ⟨parent, last, there, ⟨waiting, waits⟩ | ⟨granted, free, held⟩⟩
  · obtain ⟨detail, ended⟩ := Job.play_holding_refused refused (c.runLocked settings now)
    have hindered : ¬ d.Accepts settings.database := fun accepts => by
      cases refused.symm.trans (Disk.answer_lock_of_tryLock accepts.1)
    refine .inr ⟨_, _, ended, .failed detail hindered, ?_⟩
    rw [nothing]
    exact ⟨(d.furnished_prepared _).held, d.prepared_prepared _, .refl _ _⟩
  · exact .inl ⟨Job.play_holding_waits waiting _, waits⟩
  · have beside := there.beside.touched there.touched
    obtain ⟨outcome, e, ended, leaves, touched, kept⟩ := c.play_runLocked now beside
    have all : Disk.Touched ((d.prepared settings.database).storeFiles settings.database)
        (d.prepared settings.database) (e.unlock (Workspace.lockPath settings.database)) := by
      rw [there.beside.storeFiles_eq]
      refine ((there.touched.mono ?_).trans (touched.mono ?_)).trans ((e.touched_unlock _).mono ?_)
      all_goals simp
    refine .inr ⟨outcome, _, Job.play_holding granted ended, ?_, ?_, ?_, all⟩
    · rw [(e.touched_unlock _).content?_eq (by simp)]
      refine leaves.mono (fun blocked accepts => ?_)
      obtain ⟨_, committed⟩ := accepts.2 .empty
      exact Workspace.not_blocked_of_commit beside committed blocked
    · have others : ∀ place ∈ d.held, place ≠ parent ++ [last ++ ".lock"] :=
        fun place member same => free (same ▸ member)
      rw [Disk.unlock, touched.locate beside.lock]
      simpa [kept, held] using others
    · rw [Disk.prepared, Disk.makeDirectories_touched all there.made]

/-- A change fails for want of settings, or it works on the store that the settings name as soon as
nobody else does. -/
theorem play_run (c : Change) (now : Instant) (d : Disk) :
    (∃ fault, d.settings = .error fault ∧ (c.run now).play d = some (.error fault, d)) ∨
      ∃ settings, d.settings = .ok settings ∧
        ((c.run now).play d = none ∧ d.Waits settings.database ∨
          ∃ outcome e, (c.run now).play d = some (outcome, e) ∧
            c.Leaves settings now (d.locked settings.database) (¬ d.Accepts settings.database)
              outcome (e.content? settings.database) ∧
            d.Aftermath settings.database e) := by
  have loaded := d.play_loadSettings
  cases known : d.settings with
  | error fault =>
    rw [known] at loaded
    exact .inl ⟨fault, rfl, Job.play_bind_error loaded⟩
  | ok settings =>
    rw [known] at loaded
    refine .inr ⟨settings, rfl, ?_⟩
    rw [run, Job.play_bind_ok loaded]
    exact c.play_holding now (Disk.database_ne_empty known) d

end Change

end SymbolAtlas
