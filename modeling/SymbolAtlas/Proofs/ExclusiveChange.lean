import SymbolAtlas.Proofs.CommandEffect
import SymbolAtlas.Proofs.Crowd
import SymbolAtlas.Proofs.SettingsKept

/-! A change as others see it. Its first request is for the settings and its next for the lock; from
then on nobody else is given the lock, the settings stay, and the store's file shows what it showed
when the lock was taken until it shows what the change leaves. All this is said of every disk on
which the change makes a request, so it does not matter what others ask in between. -/
namespace SymbolAtlas

/-! ### First requests -/

namespace Job

variable {α β : Type}

theorem readText?_bind (path : String) (judge : Option String → Except Fault α)
    (next : α → Job β) :
    ∃ rest, ExceptT.run ((readText? path >>= fun text => ofExcept (judge text)) >>= next) =
        .ask (.read path) rest ∧
      ∀ d : Disk, rest (d.read path) =
        ExceptT.run (ofExcept (d.text? path >>= judge) >>= next) := by
  rw [bind_assoc]
  refine ⟨_, rfl, fun d => ?_⟩
  rw [Disk.text?]
  cases d.read path with
  | error fault => cases fault <;> rfl
  | ok content =>
    change Script.andThen (Script.andThen (decode content).run _) _ = _
    rw [decode]
    dsimp only
    cases String.fromUTF8? content <;> rfl

/-- What is left of a job when it has to let a lock go at its end. -/
def release (path : String) (result : Except Fault α) : Script (Except Fault α) :=
  .ask (.unlock path) (fun _ => .done result)

theorem holding_eq (path : String) (job : Job α) :
    ∃ rest, ExceptT.run (holding path job) = .ask (.lock path) rest ∧
      rest (.ok ()) = Script.andThen job.run (release path) ∧
      ∀ fault, ∃ detail, rest (.error fault) = .done (.error (.io detail)) := by
  refine ⟨_, rfl, ?_, fun fault => ?_⟩
  · change Script.andThen (Script.andThen job.run _) _ = _
    rw [Script.andThen_assoc]
    rfl
  · cases fault with
    | missing => exact ⟨_, rfl⟩
    | refused detail => exact ⟨_, rfl⟩

end Job

namespace Workspace

theorem loadSettings_bind {α : Type} (next : Settings → Job α) :
    ∃ path rest, ExceptT.run (loadSettings >>= next) = .ask (.read path) rest ∧
      ∀ d : Disk, rest (d.read path) = ExceptT.run (Job.ofExcept d.settings >>= next) := by
  let judge (text : Option String) : Except Fault Settings :=
    text.elim (.ok (.defaults root)) (Settings.parse root)
  have same : loadSettings =
      Job.readText? (Path.join root settingsFile) >>= fun text => Job.ofExcept (judge text) :=
    bind_congr (fun text => by cases text <;> rfl)
  have judged (d : Disk) : d.settings = d.text? (Path.join root settingsFile) >>= judge :=
    bind_congr (fun text => by cases text <;> rfl)
  simp only [same, judged]
  exact ⟨_, Job.readText?_bind _ judge next⟩

theorem openStore_bind {α : Type} (database : String) (next : Store → Job α) :
    ∃ rest, ExceptT.run (openStore database >>= next) = .ask (.read database) rest ∧
      ∀ d : Disk, rest (d.read database) =
        ExceptT.run (Job.ofExcept (d.store database) >>= next) := by
  let judge (text : Option String) : Except Fault Store := text.elim (.ok .empty) Store.parse
  have same : openStore database =
      Job.readText? database >>= fun text => Job.ofExcept (judge text) :=
    bind_congr (fun text => by cases text <;> rfl)
  have judged (d : Disk) : d.store database = d.text? database >>= judge :=
    bind_congr (fun text => by cases text <;> rfl)
  simp only [same, judged]
  exact Job.readText?_bind database judge next

theorem looks_openStore (database : String) : (openStore database).Looks := by
  refine (Job.looks_readText? database).bind (fun text => ?_)
  split
  · exact Job.looks_ofExcept _
  · exact Job.looks_pure _

end Workspace

theorem Change.looks_effect (settings : Settings) (now : Instant) (s : Store) (c : Change) :
    (c.effect settings now s).Looks := by
  rw [c.effect_eq]
  refine (looks_operation settings now s c).bind (fun op => ?_)
  exact (Job.looks_ofExcept _).bind (fun answer => Job.looks_pure _)

/-! ### Behind the lock -/

namespace Disk

variable {settings : Settings} {d e f : Disk} {parent : Location} {last : String}

/-- There is a working directory, and this is known of the settings there. -/
structure SetUp (known : Except Fault Settings) (d : Disk) : Prop where
  directory : d.entryAt? d.here = some .directory
  settings : d.settings = known

/-- Since the directories of the store have been made nothing has changed but its files, and not the
settings. -/
structure Confined (settings : Settings) (d e : Disk) : Prop where
  touched : Touched ((d.prepared settings.database).storeFiles settings.database)
    (d.prepared settings.database) e
  kept : e.entryAt? d.settingsPlace = d.entryAt? d.settingsPlace

theorem confined_prepared (setUp : d.SetUp (.ok settings)) :
    Confined settings d (d.prepared settings.database) :=
  ⟨.refl _ _, settings_prepared setUp.directory setUp.settings⟩

theorem Confined.trans (confined : Confined settings d e) {places : List Location}
    (touched : Touched places e f)
    (within : places ⊆ (d.prepared settings.database).storeFiles settings.database)
    (apart : d.settingsPlace ∉ places) : Confined settings d f :=
  ⟨confined.touched.trans (touched.mono within), (touched.others _ apart).trans confined.kept⟩

theorem Confined.unlock (confined : Confined settings d e) (path : String) :
    Confined settings d (e.unlock path) :=
  confined.trans (e.touched_unlock path) (List.nil_subset _) List.not_mem_nil

theorem Confined.setUp (confined : Confined settings d e) (setUp : d.SetUp (.ok settings)) :
    e.SetUp (.ok settings) := by
  have furnished := d.furnished_prepared settings.database
  have here : e.here = d.here := confined.touched.here.trans furnished.here
  have directory : e.entryAt? e.here = some .directory := by
    rw [here, confined.touched.directory]
    exact furnished.stays setUp.directory
  exact ⟨directory,
    (settings_congr setUp.directory here directory confined.kept).trans setUp.settings⟩

theorem settingsPlace_ne {path ending : String} {place : Location}
    (led : (d.prepared settings.database).locate (path ++ ending) = .ok place)
    (single : '/' ∉ ending.toList) (long : 2 < ending.length)
    (other : ¬ ending.toList <:+ settingsFile.toList) : d.settingsPlace ≠ place := by
  rintro rfl
  have same : (d.prepared settings.database).settingsPlace = d.settingsPlace := by
    rw [settingsPlace, (d.furnished_prepared settings.database).here, settingsPlace]
  exact locate_ending_ne_settings single long other (same.symm ▸ led)

/-- What the store's path shows is what stands at its place. -/
theorem Beside.read_congr {database : String} (beside : d.Beside database parent last)
    (beside' : e.Beside database parent last)
    (same : e.entryAt? (further parent last) = d.entryAt? (further parent last)) :
    e.read database = d.read database := by
  rw [read, read, beside.store, beside'.store]
  simp only [bind, Except.bind, same]

/-- A disk on which the change at work holds the lock that it took on another. -/
structure Exclusive (settings : Settings) (parent : Location) (last : String) (d e : Disk) : Prop
    extends Confined settings d e where
  held : e.held = (parent ++ [last ++ ".lock"]) :: d.held

/-- It is also as it was made ready for the lock, but for the files beside the store, and nobody is
asked to wait. -/
structure Undecided (settings : Settings) (parent : Location) (last : String) (d e : Disk)
    (request : Request) : Prop extends Exclusive settings parent last d e where
  shows : e.entryAt? (further parent last) =
    (d.prepared settings.database).entryAt? (further parent last)
  plain : request.locks = false

section

variable (there : LockedBeside settings.database parent last d (d.locked settings.database))
include there

theorem Confined.beside (confined : Confined settings d e) :
    e.Beside settings.database parent last := there.beside.touched confined.touched

theorem Exclusive.answer_lock (exclusive : Exclusive settings parent last d e) :
    e.answer (.lock (Workspace.lockPath settings.database)) = none := by
  have again := makeDirectories_touched exclusive.touched there.made
  have settled : e.prepared settings.database = e := by rw [prepared, again]
  have beside := exclusive.toConfined.beside there
  have plain := mt (exclusive.touched.directory _).mp there.plain
  obtain ⟨f, opened, _, held⟩ := openLock_of_beside (d := e) (by rw [settled, again])
    (settled.symm ▸ beside) (settled.symm ▸ plain)
  have waits : e.tryLock (Workspace.lockPath settings.database) = (.ok false, f) := by
    simp [tryLock, opened, held, exclusive.held]
  rw [answer, waits]

theorem confined_locked (setUp : d.SetUp (.ok settings)) :
    Confined settings d (d.locked settings.database) := by
  refine (confined_prepared setUp).trans there.touched ?_ ?_
  · rw [there.beside.storeFiles_eq]
    simp
  · rw [List.mem_singleton]
    exact settingsPlace_ne there.beside.lock (by decide) (by decide) (by decide)

theorem entryAt?_locked : (d.locked settings.database).entryAt? (further parent last) =
    (d.prepared settings.database).entryAt? (further parent last) := by
  refine there.touched.others _ ?_
  rw [List.mem_singleton]
  exact further_ne parent last (by decide)

theorem undecided_locked (setUp : d.SetUp (.ok settings))
    (held : (d.locked settings.database).held = (parent ++ [last ++ ".lock"]) :: d.held)
    {request : Request} (plain : request.locks = false) :
    Undecided settings parent last d (d.locked settings.database) request where
  toConfined := confined_locked there setUp
  held := held
  shows := entryAt?_locked there
  plain := plain

theorem Undecided.staged {request later : Request}
    (undecided : Undecided settings parent last d e request) {content : ByteArray}
    (filled : Filled [parent ++ [last ++ ".tmp"]] (parent ++ [last ++ ".tmp"]) content e f)
    (plain : later.locks = false) : Undecided settings parent last d f later where
  toConfined := by
    refine undecided.toConfined.trans filled.toTouched ?_ ?_
    · rw [there.beside.storeFiles_eq]
      simp
    · rw [List.mem_singleton]
      exact settingsPlace_ne there.beside.staging (by decide) (by decide) (by decide)
  held := filled.held.trans undecided.held
  shows := by
    rw [filled.others _ (by
      rw [List.mem_singleton]
      exact further_ne parent last (by decide)), undecided.shows]
  plain := plain

end

theorem SetUp.locked (setUp : d.SetUp (.ok settings)) :
    (d.locked settings.database).SetUp (.ok settings) := by
  rcases d.answer_lock (database_ne_empty setUp.settings) with ⟨_, _, nothing⟩ | ⟨_, _, there, _⟩
  · rw [nothing]
    exact (confined_prepared setUp).setUp setUp
  · exact (confined_locked there setUp).setUp setUp

/-- What the store shows then is what it shows as soon as its directories are there. -/
theorem SetUp.read_locked (setUp : d.SetUp (.ok settings)) :
    (d.locked settings.database).read settings.database =
      (d.prepared settings.database).read settings.database := by
  rcases d.answer_lock (database_ne_empty setUp.settings) with ⟨_, _, nothing⟩ | ⟨_, _, there, _⟩
  · rw [nothing]
  · exact there.beside.read_congr (there.beside.touched there.touched) (entryAt?_locked there)

end Disk

theorem Job.during_demand {α : Type} {holds : Disk → Request → Prop}
    (result : Except DiskFault α) (d : Disk) : (demand result).During holds d := by
  unfold demand
  split <;> trivial

namespace Change

open Disk

variable {settings : Settings} {d e : Disk} {parent : Location} {last : String}
  (there : LockedBeside settings.database parent last d (d.locked settings.database))
include there

theorem during_commit (free : ∀ request : Request, request.locks = false →
      Undecided settings parent last d e request) (s : Store) :
    (Workspace.commit settings.database s).During (Undecided settings parent last d) e := by
  have beside := (free (.read "") rfl).toConfined.beside there
  have writing : (Job.write (Workspace.stagingPath settings.database) s.document.toUTF8).During
      (Undecided settings parent last d) e :=
    Job.During.bind ⟨free _ rfl, fun _ _ _ => trivial⟩
      (fun result f _ => Job.during_demand result f)
  refine writing.bind (fun _ f written => ?_)
  have filled : Filled [parent ++ [last ++ ".tmp"]] (parent ++ [last ++ ".tmp"]) s.document.toUTF8
      e f := by
    by_cases aside : e.entryAt? (parent ++ [last ++ ".tmp"]) = some .directory
    · obtain ⟨detail, refused⟩ := Job.play_write_error
        (write_eq_error beside.staging aside s.document.toUTF8)
      cases written.symm.trans refused
    · cases written.symm.trans (Job.play_write (write_eq_ok beside.staging aside _))
      exact filled_insert _ aside
  exact Job.During.bind ⟨(free (.read "") rfl).staged there filled rfl, fun _ _ _ => trivial⟩
    (fun result f _ => Job.during_demand result f)

/-- No request of a change finds the store's file changed before its last one. -/
theorem during_runLocked (c : Change) (now : Instant) (free : ∀ request : Request,
      request.locks = false → Undecided settings parent last d e request) :
    (c.runLocked settings now).During (Undecided settings parent last d) e := by
  have looking : ∀ request : Request, request.looks = true →
      Undecided settings parent last d e request :=
    fun request looks => free request (Request.locks_of_looks looks)
  have opening := Workspace.looks_openStore settings.database
  refine (opening.during looking).bind (fun s f opened => ?_)
  obtain rfl := opening.stays opened
  have working := looks_effect settings now s c
  refine (working.during looking).bind (fun effect f made => ?_)
  obtain rfl := working.stays made
  dsimp only
  split
  · exact (during_commit there free _).bind (fun _ _ _ => trivial)
  · trivial

/-- At the end the lock is still held, and the settings are as before even if the store was
replaced. -/
theorem exists_play_exclusive (c : Change) (now : Instant) (setUp : d.SetUp (.ok settings))
    (held : (d.locked settings.database).held = (parent ++ [last ++ ".lock"]) :: d.held) :
    ∃ outcome left, (c.runLocked settings now).play (d.locked settings.database) =
      some (outcome, left) ∧ Exclusive settings parent last d left := by
  have taken : Exclusive settings parent last d (d.locked settings.database) :=
    ⟨confined_locked there setUp, held⟩
  cases read : (d.locked settings.database).store settings.database with
  | error fault =>
    have opened := (d.locked settings.database).play_openStore settings.database
    rw [read] at opened
    exact ⟨_, _, Job.play_bind_error opened, taken⟩
  | ok s =>
    obtain ⟨outcome, left, ended, _, touched, kept⟩ :=
      c.play_runLocked now (taken.toConfined.beside there)
    -- what is read as a store is no settings file
    have filed := filed_of_store read
    rw [d.content?_locked (database_ne_empty setUp.settings)] at filed
    have apart := (settings_apart setUp.directory setUp.settings filed).2
    refine ⟨outcome, left, ended, taken.toConfined.trans touched ?_ ?_, kept.trans taken.held⟩
    · rw [there.beside.storeFiles_eq]
      simp
    · simp only [List.mem_cons, List.not_mem_nil, or_false, not_or]
      refine ⟨fun same => apart (same ▸ there.beside.store), ?_⟩
      exact settingsPlace_ne there.beside.staging (by decide) (by decide) (by decide)

end Change

/-- A change at work. It took the lock on one disk and is to leave another; in between it has a
script to play, and then the lock to let go. -/
inductive Works (settings : Settings) (d : Disk) (outcome : Except Fault Report) :
    Disk → Script (Except Fault Report) → Disk → Prop
  | intro {parent : Location} {last : String} {left e : Disk}
      {script : Script (Except Fault Report)}
      (there : d.LockedBeside settings.database parent last (d.locked settings.database))
      (closed : Disk.Exclusive settings parent last d left)
      (ends : script.play e = some (outcome, left))
      (during : script.During (Disk.Undecided settings parent last d) e) :
      Works settings d outcome (left.unlock (Workspace.lockPath settings.database)) script e

namespace Works

variable {settings : Settings} {d last e f : Disk} {outcome result : Except Fault Report}
  {script : Script (Except Fault Report)} {request : Request} {answer : request.Answer}
  {next : request.Answer → Script (Except Fault Report)}

theorem answered (works : Works settings d outcome last (.ask request next) e)
    (known : e.answer request = some (answer, f)) :
    Works settings d outcome last (next answer) f := by
  cases works with
  | intro there closed ends during =>
    rw [Script.play, known] at ends
    exact .intro there closed ends (during.2 answer f known)

theorem not_grants (works : Works settings d outcome last (.ask request next) e) :
    request.grants answer = false := by
  cases works with
  | intro there closed ends during => exact Request.grants_of_locks during.1.plain answer

theorem play (works : Works settings d outcome last script e) :
    (script.andThen (Job.release (Workspace.lockPath settings.database))).play e =
      some (outcome, last) := by
  cases works with
  | intro there closed ends during =>
    rw [Script.play_andThen, ends]
    rfl

theorem released (works : Works settings d outcome last (.done result) e) :
    result = outcome ∧ e.unlock (Workspace.lockPath settings.database) = last := by
  cases works with
  | intro there closed ends during =>
    cases ends
    exact ⟨rfl, rfl⟩

theorem seen (works : Works settings d outcome last script e) (setUp : d.SetUp (.ok settings)) :
    e.SetUp (.ok settings) ∧ e.answer (.lock (Workspace.lockPath settings.database)) = none ∧
      (e.read settings.database = (d.locked settings.database).read settings.database ∨
        e.read settings.database = last.read settings.database) := by
  cases works with
  | @intro parent name left _ _ there closed ends during =>
    cases script with
    | done result =>
      cases ends
      refine ⟨closed.setUp setUp, closed.answer_lock there, .inr ?_⟩
      refine ((closed.unlock _).beside there).read_congr (closed.beside there) ?_
      exact ((e.touched_unlock _).others _ List.not_mem_nil).symm
    | ask request next =>
      have undecided := during.1
      refine ⟨undecided.setUp setUp, undecided.answer_lock there, .inl ?_⟩
      refine (there.beside.touched there.touched).read_congr (undecided.beside there) ?_
      rw [undecided.shows, Disk.entryAt?_locked there]

end Works

namespace Change

variable {settings : Settings} {d e : Disk} {outcome : Except Fault Report}

theorem play_run_setUp (c : Change) (now : Instant) (setUp : d.SetUp (.ok settings)) :
    (c.run now).play d = Script.play (ExceptT.run (Job.holding
      (Workspace.lockPath settings.database) (c.runLocked settings now))) d := by
  have loaded := d.play_loadSettings
  rw [setUp.settings] at loaded
  rw [run, Job.play_bind_ok loaded]
  rfl

/-- With known settings a change asks for the lock. Refused it has failed; otherwise it is at work
until it leaves what it leaves when it is alone. -/
theorem exists_course (c : Change) (now : Instant) (settings : Settings) :
    ∃ rest, ExceptT.run (Job.holding (Workspace.lockPath settings.database)
        (c.runLocked settings now)) = .ask (.lock (Workspace.lockPath settings.database)) rest ∧
      ∀ d e answer, d.SetUp (.ok settings) →
        d.answer (.lock (Workspace.lockPath settings.database)) = some (answer, e) →
        ∃ outcome last, (c.run now).play d = some (outcome, last) ∧ last.SetUp (.ok settings) ∧
          ((∃ fault failed, answer = .error fault ∧ outcome = .error failed ∧
            rest answer = .done outcome ∧ e = last) ∨
            answer = .ok () ∧ ∃ script, Works settings d outcome last script e ∧ rest answer =
              script.andThen (Job.release (Workspace.lockPath settings.database))) := by
  obtain ⟨rest, asks, granted, refused⟩ :=
    Job.holding_eq (Workspace.lockPath settings.database) (c.runLocked settings now)
  refine ⟨rest, asks, fun d e answer setUp answered => ?_⟩
  have played : (c.run now).play d = (rest answer).play e := by
    rw [c.play_run_setUp now setUp, asks, Script.play, answered]
  rcases d.answer_lock (Disk.database_ne_empty setUp.settings) with ⟨fault, failed, _⟩ |
    ⟨parent, last, there, ⟨waits, _⟩ | ⟨given, free, held⟩⟩
  · cases answered.symm.trans failed
    obtain ⟨detail, ended⟩ := refused fault
    exact ⟨_, _, played.trans (by rw [ended]; rfl), setUp.locked,
      .inl ⟨fault, _, rfl, rfl, ended, rfl⟩⟩
  · cases answered.symm.trans waits
  · cases answered.symm.trans given
    obtain ⟨outcome, left, ends, closed⟩ := exists_play_exclusive there c now setUp held
    have works : Works settings d outcome _ (c.runLocked settings now).run _ :=
      .intro there closed ends (during_runLocked there c now
        (fun request plain => Disk.undecided_locked there setUp held plain))
    exact ⟨outcome, _, played.trans (granted ▸ works.play), (closed.unlock _).setUp setUp,
      .inr ⟨rfl, _, works, granted⟩⟩

theorem after (c : Change) {now : Instant} {known : Except Fault Settings} (setUp : d.SetUp known)
    (ended : (c.run now).play d = some (outcome, e)) :
    e.SetUp known ∧
      ∀ settings, known = .ok settings → e.prepared settings.database = e := by
  rcases c.play_run now d with ⟨fault, unknown, ended'⟩ |
    ⟨settings, known', ⟨waits, _⟩ | ⟨_, _, ended', _, aftermath⟩⟩
  · cases ended.symm.trans ended'
    refine ⟨setUp, fun settings ok => ?_⟩
    cases unknown.symm.trans (setUp.settings.trans ok)
  · cases ended.symm.trans waits
  · cases ended.symm.trans ended'
    obtain rfl := setUp.settings.symm.trans known'
    refine ⟨?_, fun settings ok => ?_⟩
    · obtain ⟨rest, asks, courses⟩ := c.exists_course now settings
      rw [c.play_run_setUp now setUp, asks, Script.play] at ended'
      split at ended'
      case h_1 answer f answered =>
        obtain ⟨_, _, played, left, _⟩ := courses d f answer setUp answered
        cases ended.symm.trans played
        exact left
      case h_2 => cases ended'
    · cases ok
      exact aftermath.settled

end Change

end SymbolAtlas
