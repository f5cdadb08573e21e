import SymbolAtlas.Proofs.RecordedTimes
import SymbolAtlas.Proofs.SettingsKept

/-! Commands one after another. Between two commands the store is nowhere but in its file; still the
commands do what their operations do on a store that is kept in memory, because every document that
is committed is read as the store that it was made of. Commands that the disk fails drop out. -/
namespace SymbolAtlas

structure Turn where
  now : Instant
  command : Command
  /-- The disk as the command found it. -/
  disk : Disk
  outcome : Except Fault Report

/-- No file operation of the command has failed. -/
def Turn.smooth (turn : Turn) : Bool :=
  match turn.outcome with
  | .error (.io _) => false
  | _ => true

theorem Turn.eq_io_of_not_smooth {turn : Turn} (rough : turn.smooth = false) :
    ∃ detail, turn.outcome = .error (.io detail) := by
  unfold smooth at rough
  split at rough
  case h_1 detail failed => exact ⟨detail, failed⟩
  case h_2 => cases rough

theorem Turn.ne_io_of_smooth {turn : Turn} (smooth : turn.smooth = true) (detail : String) :
    turn.outcome ≠ .error (.io detail) := by
  intro failed
  rw [Turn.smooth, failed] at smooth
  cases smooth

/-- The turns of commands, each at its time, and the disk that the last one leaves. -/
def playAll : List (Instant × Command) → Disk → Option (List Turn × Disk)
  | [], d => some ([], d)
  | (now, command) :: rest, d => do
    let (outcome, e) ← (command.run now).play d
    let (later, last) ← playAll rest e
    return (⟨now, command, d, outcome⟩ :: later, last)

theorem playAll_cons_eq_some_iff {now : Instant} {command : Command}
    {rest : List (Instant × Command)} {d last : Disk} {turns : List Turn} :
    playAll ((now, command) :: rest) d = some (turns, last) ↔
      ∃ outcome e later, (command.run now).play d = some (outcome, e) ∧
        playAll rest e = some (later, last) ∧ ⟨now, command, d, outcome⟩ :: later = turns := by
  simp [playAll, Option.bind_eq_some_iff]

/-! ### In memory -/

/-- A change of a store in memory. Its sources are read from a disk. -/
def Change.onStore (settings : Settings) (now : Instant) (sources : Disk) (c : Change) (s : Store) :
    Option (Except Fault Report × Store) := do
  match ← (c.operation settings now s).play sources with
  | (.error fault, _) => return (.error fault, s)
  | (.ok op, _) =>
    return ((op.answer s).map (fun answer => .remark (op.remark answer)), op.run s)

/-- What a turn comes to on a store in memory. -/
def Turn.onStore (settings : Settings) (turn : Turn) (s : Store) :
    Option (Except Fault Report × Store) :=
  match turn.command with
  | .ask question json => some (question.answer s json, s)
  | .change c => c.onStore settings turn.now (turn.disk.locked settings.database) s

/-- The outcomes of turns that are taken on one store in memory, and the store they leave. -/
def runInMemory (settings : Settings) :
    List Turn → Store → Option (List (Except Fault Report) × Store)
  | [], s => some ([], s)
  | turn :: rest, s => do
    let (outcome, t) ← turn.onStore settings s
    let (later, last) ← runInMemory settings rest t
    return (outcome :: later, last)

theorem runInMemory_cons_eq_some_iff {settings : Settings} {turn : Turn} {rest : List Turn}
    {s last : Store} {outcomes : List (Except Fault Report)} :
    runInMemory settings (turn :: rest) s = some (outcomes, last) ↔
      ∃ outcome t later, turn.onStore settings s = some (outcome, t) ∧
        runInMemory settings rest t = some (later, last) ∧ outcome :: later = outcomes := by
  simp [runInMemory, Option.bind_eq_some_iff]

theorem Change.exists_onStore (c : Change) (settings : Settings) (now : Instant) (sources : Disk)
    (s : Store) : ∃ outcome t, c.onStore settings now sources s = some (outcome, t) := by
  obtain ⟨result, asked⟩ := (c.looks_operation settings now s).play sources
  rw [onStore, asked]
  cases result with
  | error fault => exact ⟨_, _, rfl⟩
  | ok op => exact ⟨_, _, rfl⟩

theorem Turn.exists_onStore (settings : Settings) (turn : Turn) (s : Store) :
    ∃ outcome t, turn.onStore settings s = some (outcome, t) := by
  unfold onStore
  cases turn.command with
  | ask question json => exact ⟨_, _, rfl⟩
  | change c => exact c.exists_onStore settings _ _ s

theorem Turn.onStore_continues {settings : Settings} {turn : Turn} {s t : Store}
    {outcome : Except Fault Report} (sound : s.Sound)
    (taken : turn.onStore settings s = some (outcome, t)) : t.Sound ∧ Store.Continues s t := by
  unfold onStore at taken
  split at taken
  · cases taken
    exact ⟨sound, .refl s⟩
  · obtain ⟨ending, _, taken⟩ := Option.bind_eq_some_iff.mp taken
    split at taken
    · cases taken
      exact ⟨sound, .refl s⟩
    case h_2 op _ _ =>
      cases taken
      exact ⟨sound.run op, op.continues_run sound⟩

theorem runInMemory_continues {settings : Settings} {turns : List Turn} {s t : Store}
    {outcomes : List (Except Fault Report)} (sound : s.Sound)
    (ran : runInMemory settings turns s = some (outcomes, t)) : Store.Continues s t := by
  induction turns generalizing s outcomes with
  | nil =>
    cases ran
    exact .refl _
  | cons turn rest ih =>
    obtain ⟨_, _, _, taken, ran, _⟩ := runInMemory_cons_eq_some_iff.mp ran
    obtain ⟨sound, continues⟩ := Turn.onStore_continues sound taken
    exact continues.trans (ih sound ran)

theorem exists_runInMemory (settings : Settings) (turns : List Turn) (s : Store) :
    ∃ outcomes t, runInMemory settings turns s = some (outcomes, t) := by
  induction turns generalizing s with
  | nil => exact ⟨_, _, rfl⟩
  | cons turn rest ih =>
    obtain ⟨outcome, t, taken⟩ := turn.exists_onStore settings s
    obtain ⟨later, last, ran⟩ := ih t
    exact ⟨_, last, runInMemory_cons_eq_some_iff.mpr ⟨outcome, t, later, taken, ran, rfl⟩⟩

/-- Where nobody holds a lock every command ends, and leaves no lock behind. -/
theorem Command.exists_play (command : Command) (now : Instant) {d : Disk} (free : d.held = []) :
    ∃ outcome e, (command.run now).play d = some (outcome, e) ∧ e.held = [] := by
  cases command with
  | ask question json => exact ⟨_, d, question.play_run json d, free⟩
  | change c =>
    rcases c.play_run now d with ⟨fault, _, ended⟩ |
      ⟨_, _, ⟨_, place, holds, _⟩ | ⟨outcome, e, ended, _, aftermath⟩⟩
    · exact ⟨_, d, ended, free⟩
    · rw [free] at holds
      cases holds
    · exact ⟨outcome, e, ended, aftermath.held.trans free⟩

theorem exists_playAll (commands : List (Instant × Command)) {d : Disk} (free : d.held = []) :
    ∃ turns last, playAll commands d = some (turns, last) := by
  induction commands generalizing d with
  | nil => exact ⟨_, _, rfl⟩
  | cons first rest ih =>
    obtain ⟨outcome, e, ended, free⟩ := first.2.exists_play first.1 free
    obtain ⟨later, last, played⟩ := ih free
    exact ⟨_, last, playAll_cons_eq_some_iff.mpr ⟨outcome, e, later, ended, played, rfl⟩⟩

/-! ### What a store in a file has -/

namespace Store

variable {content : Option ByteArray} {s : Store}

theorem Filed.origin (filed : Filed content s) : Origin s := by
  cases filed with
  | absent => exact .empty
  | text read => exact .parsed read

theorem Filed.grounded (filed : Filed content s) : s.Grounded := by
  cases filed with
  | absent => exact grounded_empty
  | text read => exact grounded_of_parse read

theorem Filed.timely (filed : Filed content s) : s.Timely := by
  cases filed with
  | absent => exact timely_empty
  | text read => exact timely_of_parse read

theorem Filed.document (filed : Filed content s) {op : Operation}
    (clock : ∀ now ∈ op.now?, now.Valid) (addressable : (op.run s).Addressable) :
    Filed (some (op.run s).document.toUTF8) (op.run s) := by
  have sound := filed.origin.sound
  exact .text (parse_document_of_timely (sound.run op)
    (kept_grounded.run sound.toIndexed op filed.grounded) (filed.timely.run sound clock)
    addressable)

theorem Continues.addressable {s t : Store} (continues : Continues s t)
    (addressable : t.Addressable) : s.Addressable where
  classes := continues.classes.length_le.trans addressable.classes
  entries := continues.entries.length_le.trans addressable.entries
  members := by
    have longer := continues.members.length_le
    rw [List.length_map, List.length_map] at longer
    exact longer.trans addressable.members

end Store

theorem Change.now_of_operation {c : Change} {settings : Settings} {now : Instant} {s : Store}
    {d e : Disk} {op : Operation} (asked : (c.operation settings now s).play d = some (.ok op, e)) :
    op.now? = some now ∨ op.now? = none := by
  cases c with
  | importBundle version source =>
    obtain ⟨_, _, _, asked⟩ := Job.play_bind_eq_ok asked
    obtain ⟨_, _, _, asked⟩ := Job.play_bind_eq_ok asked
    cases asked
    exact .inl rfl
  | importNames version source actor =>
    obtain ⟨_, _, _, asked⟩ := Job.play_bind_eq_ok asked
    obtain ⟨_, _, _, asked⟩ := Job.play_bind_eq_ok asked
    obtain ⟨_, _, _, asked⟩ := Job.play_bind_eq_ok asked
    cases asked
    exact .inl rfl
  | setLock t locked actor =>
    obtain ⟨_, _, _, asked⟩ := Job.play_bind_eq_ok asked
    obtain ⟨_, _, _, asked⟩ := Job.play_bind_eq_ok asked
    cases asked
    exact .inr rfl
  | migrate source target =>
    obtain ⟨_, _, _, asked⟩ := Job.play_bind_eq_ok asked
    obtain ⟨_, _, _, asked⟩ := Job.play_bind_eq_ok asked
    cases asked
    exact .inl rfl
  | promote version =>
    cases asked
    exact .inr rfl
  | rename t final force actor =>
    obtain ⟨_, _, _, asked⟩ := Job.play_bind_eq_ok asked
    obtain ⟨_, _, _, asked⟩ := Job.play_bind_eq_ok asked
    cases asked
    exact .inl rfl

/-- A change that is not hindered comes out as in memory, and leaves the store that it makes
there. -/
theorem Change.Leaves.onStore {c : Change} {settings : Settings} {now : Instant} {d : Disk}
    {hindered : Prop} {outcome answer : Except Fault Report} {content : Option ByteArray}
    {s t : Store} (leaves : c.Leaves settings now d hindered outcome content)
    (read : d.store settings.database = .ok s)
    (taken : c.onStore settings now d s = some (answer, t)) :
    hindered ∧ (∃ detail, outcome = .error (.io detail)) ∨
      outcome = answer ∧ (now.Valid → t.Addressable → Store.Filed content t) := by
  have filed := Disk.filed_of_store read
  have indexed := filed.origin.indexed
  cases leaves with
  | failed detail why => exact .inl ⟨why, detail, rfl⟩
  | unread unread => cases unread.symm.trans read
  | unasked read' asked =>
    cases read.symm.trans read'
    rw [Change.onStore, asked] at taken
    cases taken
    exact .inr ⟨rfl, fun _ _ => filed⟩
  | refused read' asked refused =>
    cases read.symm.trans read'
    rw [Change.onStore, asked] at taken
    cases taken
    rw [refused, Operation.run_of_refused indexed refused]
    exact .inr ⟨rfl, fun _ _ => filed⟩
  | idle read' asked answered idle =>
    cases read.symm.trans read'
    rw [Change.onStore, asked] at taken
    cases taken
    rw [answered, Operation.run_of_idle indexed answered idle]
    exact .inr ⟨rfl, fun _ _ => filed⟩
  | committed read' asked answered commits =>
    cases read.symm.trans read'
    rw [Change.onStore, asked] at taken
    cases taken
    rw [answered]
    refine .inr ⟨rfl, fun valid => filed.document (fun time member => ?_)⟩
    rcases Change.now_of_operation asked with timed | untimed
    · cases (Option.mem_def.mp member).symm.trans timed
      exact valid
    · cases (Option.mem_def.mp member).symm.trans untimed

/-! ### One store behind all commands -/

/-- If every turn that counts comes out as in memory, and what a disk has to do with a store is kept
by all turns, then so it is with a whole session. -/
theorem simulation {related : Disk → Store → Prop} {counts : Turn → Bool} {settings : Settings}
    (sound : ∀ {d s}, related d s → s.Sound)
    (step : ∀ {now command d e outcome answer s t}, related d s → now.Valid →
      (command.run now).play d = some (outcome, e) →
      Turn.onStore settings ⟨now, command, d, outcome⟩ s = some (answer, t) →
      (counts ⟨now, command, d, outcome⟩ = false → related e s) ∧
        (counts ⟨now, command, d, outcome⟩ = true →
          outcome = answer ∧ (t.Addressable → related e t)))
    {commands : List (Instant × Command)} (clock : ∀ command ∈ commands, command.1.Valid)
    {d last : Disk} {s t : Store} {turns : List Turn} {outcomes : List (Except Fault Report)}
    (initial : related d s) (played : playAll commands d = some (turns, last))
    (ran : runInMemory settings (turns.filter counts) s = some (outcomes, t))
    (addressable : t.Addressable) :
    (turns.filter counts).map Turn.outcome = outcomes ∧ related last t := by
  induction commands generalizing d s turns outcomes with
  | nil =>
    cases played
    cases ran
    exact ⟨rfl, initial⟩
  | cons first rest ih =>
    obtain ⟨outcome, e, later, ended, rest, rfl⟩ := playAll_cons_eq_some_iff.mp played
    have clock' := fun command member => clock command (List.mem_cons_of_mem first member)
    have now := clock first List.mem_cons_self
    obtain ⟨answer, u, taken⟩ := Turn.exists_onStore settings ⟨first.1, first.2, d, outcome⟩ s
    obtain ⟨left, counted⟩ := step initial now ended taken
    cases counting : counts ⟨first.1, first.2, d, outcome⟩ with
    | false =>
      rw [List.filter_cons_of_neg (by simp [counting])] at ran ⊢
      exact ih clock' (left counting) rest ran
    | true =>
      rw [List.filter_cons_of_pos counting] at ran ⊢
      obtain ⟨_, _, outcomes, taken', ran, rfl⟩ := runInMemory_cons_eq_some_iff.mp ran
      cases taken.symm.trans taken'
      obtain ⟨same, carried⟩ := counted counting
      -- stores only grow, so this one is no longer than the last
      have sound := (Turn.onStore_continues (sound initial) taken).1
      have grown := runInMemory_continues sound ran
      obtain ⟨outcomes, related⟩ := ih clock' (carried (grown.addressable addressable)) rest ran
      exact ⟨by rw [List.map_cons, outcomes, same], related⟩

/-- The disk carries a store: its settings name a file with the store in it, and to make directories
for the lock brings no other file to light there. -/
structure Carries (settings : Settings) (d : Disk) (s : Store) : Prop where
  directory : d.entryAt? d.here = some .directory
  known : d.settings = .ok settings
  steady : (d.locked settings.database).content? settings.database =
    d.content? settings.database
  filed : Store.Filed (d.content? settings.database) s

/-- No file operation keeps the store from being read and replaced. -/
structure Serves (settings : Settings) (d : Disk) (s : Store) : Prop
    extends Carries settings d s where
  accepts : d.Accepts settings.database
  read : d.store settings.database = .ok s

section Sessions

variable {settings : Settings} {d e : Disk} {s t : Store} {now : Instant}
  {outcome answer : Except Fault Report}

theorem Carries.after (carries : Carries settings d s) (aftermath : d.Aftermath settings.database e)
    (filed : Store.Filed (e.content? settings.database) t) : Carries settings e t where
  directory := aftermath.here_eq ▸ aftermath.directory carries.directory
  known := by
    have before := carries.filed
    rw [← carries.steady, d.content?_locked (Disk.database_ne_empty carries.known)] at before
    rw [aftermath.settings_eq carries.directory carries.known before, carries.known]
  steady := by
    rw [e.content?_locked (Disk.database_ne_empty carries.known), aftermath.settled]
  filed := filed

theorem Serves.after (serves : Serves settings d s) (aftermath : d.Aftermath settings.database e)
    (filed : Store.Filed (e.content? settings.database) t) : Serves settings e t where
  toCarries := serves.toCarries.after aftermath filed
  accepts := aftermath.accepts (Disk.database_ne_empty serves.known) serves.accepts
  read := by
    obtain ⟨_, _, roomy⟩ := serves.accepts.roomy (Disk.database_ne_empty serves.known)
    exact (aftermath.roomy roomy).store_settled aftermath.settled filed

theorem Carries.filed_locked (carries : Carries settings d s) :
    Store.Filed ((d.locked settings.database).content? settings.database) s :=
  carries.steady.symm ▸ carries.filed

theorem Carries.ask (carries : Carries settings d s) {question : Question} {json : Bool}
    (ended : ((Command.ask question json).run now).play d = some (outcome, e)) :
    e = d ∧ outcome = d.store settings.database >>= fun s => question.answer s json := by
  have played : some (outcome, e) = _ := ended.symm.trans (question.play_run json d)
  rw [carries.known] at played
  cases played
  exact ⟨rfl, rfl⟩

theorem Carries.leaves (carries : Carries settings d s) {c : Change}
    (ended : ((Command.change c).run now).play d = some (outcome, e)) :
    c.Leaves settings now (d.locked settings.database) (¬ d.Accepts settings.database) outcome
        (e.content? settings.database) ∧
      d.Aftermath settings.database e := by
  rcases c.play_run now d with ⟨fault, unknown, _⟩ |
    ⟨settings', known, ⟨waits, _⟩ | ⟨_, _, ended', leaves, aftermath⟩⟩
  · cases carries.known.symm.trans unknown
  · cases ended.symm.trans waits
  · obtain rfl := Except.ok.inj (carries.known.symm.trans known)
    cases ended.symm.trans ended'
    exact ⟨leaves, aftermath⟩

/-- A command that the disk fails leaves the store, and another one takes it further as in
memory. -/
theorem Carries.step (carries : Carries settings d s) (clock : now.Valid) {command : Command}
    (ended : (command.run now).play d = some (outcome, e))
    (taken : Turn.onStore settings ⟨now, command, d, outcome⟩ s = some (answer, t)) :
    (Turn.smooth ⟨now, command, d, outcome⟩ = false → Carries settings e s) ∧
      (Turn.smooth ⟨now, command, d, outcome⟩ = true →
        outcome = answer ∧ (t.Addressable → Carries settings e t)) := by
  cases command with
  | ask question json =>
    obtain ⟨rfl, rfl⟩ := carries.ask ended
    refine ⟨fun _ => carries, fun smooth => ?_⟩
    cases taken
    rcases Disk.store_of_filed carries.filed with read | ⟨detail, refused⟩
    · exact ⟨by rw [read]; rfl, fun _ => carries⟩
    · exact absurd (by rw [refused]; rfl) (Turn.ne_io_of_smooth smooth detail)
  | change c =>
    obtain ⟨leaves, aftermath⟩ := carries.leaves ended
    constructor
    · intro rough
      obtain ⟨detail, rfl⟩ := Turn.eq_io_of_not_smooth rough
      exact carries.after aftermath (leaves.kept ▸ carries.filed_locked)
    · intro smooth
      have ne_io := Turn.ne_io_of_smooth smooth
      rcases Disk.store_of_filed carries.filed_locked with read | ⟨detail, refused⟩
      · rcases leaves.onStore read taken with ⟨_, detail, failed⟩ | ⟨same, filed⟩
        · exact absurd failed (ne_io detail)
        · exact ⟨same, fun fits => carries.after aftermath (filed clock fits)⟩
      · obtain ⟨detail, failed⟩ := leaves.failed_of_refused refused
        exact absurd failed (ne_io detail)

/-- A command that the disk cannot fail takes the store further as in memory. -/
theorem Serves.step (serves : Serves settings d s) (clock : now.Valid) {command : Command}
    (ended : (command.run now).play d = some (outcome, e))
    (taken : Turn.onStore settings ⟨now, command, d, outcome⟩ s = some (answer, t)) :
    outcome = answer ∧ (t.Addressable → Serves settings e t) := by
  cases command with
  | ask question json =>
    obtain ⟨rfl, rfl⟩ := serves.ask ended
    cases taken
    exact ⟨by rw [serves.read]; rfl, fun _ => serves⟩
  | change c =>
    obtain ⟨leaves, aftermath⟩ := serves.leaves ended
    obtain ⟨_, _, roomy⟩ := serves.accepts.roomy (Disk.database_ne_empty serves.known)
    rcases leaves.onStore (roomy.store_locked serves.filed_locked) taken with
      ⟨hindered, _⟩ | ⟨same, filed⟩
    · exact absurd serves.accepts hindered
    · exact ⟨same, fun fits => serves.after aftermath (filed clock fits)⟩

end Sessions

end SymbolAtlas
