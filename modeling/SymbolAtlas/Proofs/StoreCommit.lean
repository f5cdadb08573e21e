import SymbolAtlas.Proofs.CommandOperation
import SymbolAtlas.Proofs.DirectoryTree

/-! What a change leaves on the disk. It makes the directories for its lock file and the lock file
itself, and commits by a file beside the store that takes the store's place. Whatever fails on the
way, the store's file has its old content until the last moment, and the new document after it. -/
namespace SymbolAtlas

theorem Path.isAbsolute_append {path : String} (text : path ≠ "") (ending : String) :
    isAbsolute (path ++ ending) = isAbsolute path := by
  unfold isAbsolute
  rw [String.toList_append, List.head?_append_of_ne_nil]
  simpa using text

namespace Disk

variable {d e : Disk} {database : String}

/-- The disk with the directories that the store's lock file needs, as far as they can be made. -/
def prepared (d : Disk) (database : String) : Disk :=
  (d.makeDirectories (Path.parent (Workspace.lockPath database))).2

/-- The disk as a change finds it that has asked for the lock. -/
def locked (d : Disk) (database : String) : Disk := (d.tryLock (Workspace.lockPath database)).2

theorem furnished_prepared (d : Disk) (database : String) : Furnished d (d.prepared database) :=
  furnished_makeDirectories d _

theorem prepared_prepared (d : Disk) (database : String) :
    (d.prepared database).prepared database = d.prepared database := by
  rw [prepared, prepared, makeDirectories_again]

/-! ### The files beside a store -/

/-- The store goes by the last name in a directory; its lock and its staging file stand there. -/
structure Beside (database : String) (parent : Location) (last : String) (d : Disk) : Prop where
  directory : d.entryAt? parent = some .directory
  store : d.locate database = .ok (further parent last)
  lock : d.locate (Workspace.lockPath database) = .ok (parent ++ [last ++ ".lock"])
  staging : d.locate (Workspace.stagingPath database) = .ok (parent ++ [last ++ ".tmp"])

theorem further_ending (parent : Location) (last ending : String)
    (long : 2 < ending.length) : further parent (last ++ ending) = parent ++ [last ++ ending] := by
  have other (special : String) (short : special.length ≤ 2) : last ++ ending ≠ special := by
    intro same
    have lengths := congrArg String.length same
    rw [String.length_append] at lengths
    omega
  unfold further
  simp only [other "" (by decide), other "." (by decide), other ".." (by decide), decide_false,
    Bool.or_self, Bool.false_eq_true, if_false]

theorem further_ne (parent : Location) (last : String) {ending : String}
    (long : 2 < ending.length) : further parent last ≠ parent ++ [last ++ ending] := by
  intro same
  have lengths := congrArg List.length same
  unfold further at same lengths
  split at same
  case isTrue special =>
    rw [if_pos special, List.length_append, List.length_singleton] at lengths
    omega
  case isFalse plain =>
    rw [if_neg plain] at lengths
    split at same
    case isTrue back =>
      rw [if_pos back, List.length_dropLast, List.length_append, List.length_singleton] at lengths
      omega
    · have names := congrArg String.length (List.singleton_inj.mp (List.append_cancel_left same))
      rw [String.length_append] at names
      omega

theorem isPath_of_lockPath (fits : isPath (Workspace.lockPath database) = true) :
    isPath database = true ∧ isPath (Workspace.stagingPath database) = true := by
  have lock : (".lock" : String).utf8ByteSize = 5 := by decide
  have staging : (".tmp" : String).utf8ByteSize = 4 := by decide
  simp only [isPath, Workspace.lockPath, Workspace.stagingPath, String.utf8ByteSize_append,
    String.toList_append, lock, staging, Bool.and_eq_true, decide_eq_true_eq] at fits ⊢
  obtain ⟨short, plain⟩ := fits
  have plain' : (!database.toList.contains '\x00') = true := by simpa using plain
  exact ⟨⟨by omega, plain'⟩, by omega, by simpa using plain'⟩

theorem isTooLong_of_lock {last : String} (short : isTooLong (last ++ ".lock") = false) :
    isTooLong last = false ∧ isTooLong (last ++ ".tmp") = false := by
  have lock : (".lock" : String).utf8ByteSize = 5 := by decide
  have staging : (".tmp" : String).utf8ByteSize = 4 := by decide
  simp only [isTooLong, String.utf8ByteSize_append, lock, staging, decide_eq_false_iff_not]
    at short ⊢
  omega

theorem locate_ending {path ending : String} {place : Location} (single : '/' ∉ ending.toList)
    (long : 2 < ending.length) (led : d.locate (path ++ ending) = .ok place) :
    ∃ parent last, place = parent ++ [last ++ ending] := by
  obtain ⟨first, last, _, names⟩ := Path.names_append path single
  obtain ⟨_, _, arrives⟩ := locate_eq_ok_iff.mp led
  rw [names, walk_append] at arrives
  obtain ⟨parent, _, arrives⟩ := arrives
  obtain ⟨_, _, rfl⟩ := walk_single.mp arrives
  exact ⟨parent, last, further_ending parent last ending long⟩

theorem beside_of_lock {place : Location} (text : database ≠ "")
    (led : d.locate (Workspace.lockPath database) = .ok place) :
    ∃ parent last, Beside database parent last d ∧ place = parent ++ [last ++ ".lock"] := by
  obtain ⟨first, last, plain, locked⟩ :=
    Path.names_append database (show '/' ∉ (".lock" : String).toList by decide)
  obtain ⟨first', last', plain', staged⟩ :=
    Path.names_append database (show '/' ∉ (".tmp" : String).toList by decide)
  obtain ⟨rfl, same⟩ := List.append_inj' (plain.symm.trans plain') rfl
  cases same
  have start (ending : String) : d.origin (database ++ ending) = d.origin database := by
    rw [origin, origin, Path.isAbsolute_append text]
  obtain ⟨_, fits, arrives⟩ := locate_eq_ok_iff.mp led
  obtain ⟨fits', fits''⟩ := isPath_of_lockPath fits
  rw [Workspace.lockPath, start, locked, walk_append] at arrives
  obtain ⟨parent, between, arrives⟩ := arrives
  obtain ⟨directory, short, rfl⟩ := walk_single.mp arrives
  obtain ⟨short', short''⟩ := isTooLong_of_lock short
  have lock := further_ending parent last ".lock" (by decide)
  have staging := further_ending parent last ".tmp" (by decide)
  refine ⟨parent, last, ⟨directory, ?_, lock ▸ led, ?_⟩, lock⟩
  · rw [locate_eq_ok_iff, plain, walk_append]
    exact ⟨text, fits', parent, between, walk_single.mpr ⟨directory, short', rfl⟩⟩
  · have text' : database ++ ".tmp" ≠ "" := fun none => text (String.append_eq_empty_iff.mp none).1
    rw [locate_eq_ok_iff, Workspace.stagingPath, start, staged, walk_append]
    exact ⟨text', fits'', parent, between, walk_single.mpr ⟨directory, short'', staging⟩⟩

namespace Beside

variable {parent : Location} {last : String} {places : List Location}

theorem touched (beside : Beside database parent last d) (touched : Touched places d e) :
    Beside database parent last e where
  directory := (touched.directory parent).mpr beside.directory
  store := touched.locate beside.store
  lock := touched.locate beside.lock
  staging := touched.locate beside.staging

theorem content?_eq (beside : Beside database parent last d) {ending : String}
    (long : 2 < ending.length) (touched : Touched [parent ++ [last ++ ending]] d e) :
    e.content? database = d.content? database := by
  refine touched.content?_eq (fun place member led => ?_)
  rw [List.mem_singleton.mp member, beside.store] at led
  exact further_ne parent last long (Except.ok.inj led)

end Beside

/-! ### Locking -/

/-- The lock file is there, and nothing else has changed since its directories were made. -/
structure LockedBeside (database : String) (parent : Location) (last : String) (d e : Disk) :
    Prop where
  beside : Beside database parent last (d.prepared database)
  plain : (d.prepared database).entryAt? (parent ++ [last ++ ".lock"]) ≠ some .directory
  touched : Touched [parent ++ [last ++ ".lock"]] (d.prepared database) e
  made : (d.prepared database).makeDirectories (Path.parent (Workspace.lockPath database)) =
    (.ok (), d.prepared database)

theorem openLock_of_beside {parent : Location} {last : String}
    (made : d.makeDirectories (Path.parent (Workspace.lockPath database)) =
      (.ok (), d.prepared database)) (beside : Beside database parent last (d.prepared database))
    (plain : (d.prepared database).entryAt? (parent ++ [last ++ ".lock"]) ≠ some .directory) :
    ∃ e, d.openLock (Workspace.lockPath database) = (.ok (parent ++ [last ++ ".lock"]), e) ∧
      Touched [parent ++ [last ++ ".lock"]] (d.prepared database) e ∧ e.held = d.held := by
  have held := (d.furnished_prepared database).held
  cases stands : (d.prepared database).entryAt? (parent ++ [last ++ ".lock"]) with
  | none =>
    exact ⟨_, by simp only [openLock, made, beside.lock, stands], touched_insert .empty plain, held⟩
  | some entry =>
    cases entry with
    | directory => exact absurd stands plain
    | file content =>
      exact ⟨_, by simp only [openLock, made, beside.lock, stands], .refl _ _, held⟩

theorem openLock_course (d : Disk) (text : database ≠ "") :
    (∃ fault, d.openLock (Workspace.lockPath database) = (.error fault, d.prepared database)) ∨
      ∃ parent last e, d.openLock (Workspace.lockPath database) =
          (.ok (parent ++ [last ++ ".lock"]), e) ∧
        LockedBeside database parent last d e ∧ e.held = d.held := by
  have again := d.makeDirectories_again (Path.parent (Workspace.lockPath database))
  cases made : d.makeDirectories (Path.parent (Workspace.lockPath database)) with
  | mk result e =>
    obtain rfl : d.prepared database = e := by rw [prepared, made]
    rw [made] at again
    cases result with
    | error fault => exact .inl ⟨fault, by rw [openLock, made]⟩
    | ok =>
      cases led : (d.prepared database).locate (Workspace.lockPath database) with
      | error fault => exact .inl ⟨fault, by simp only [openLock, made, led]⟩
      | ok place =>
        obtain ⟨parent, last, beside, rfl⟩ := beside_of_lock text led
        by_cases stands : (d.prepared database).entryAt? (parent ++ [last ++ ".lock"]) =
          some .directory
        · exact .inl ⟨.refused "is a directory", by simp only [openLock, made, led, stands]⟩
        · obtain ⟨e, opened, touched, held⟩ := openLock_of_beside made beside stands
          exact .inr ⟨parent, last, e, opened, ⟨beside, stands, touched, again⟩, held⟩

theorem answer_lock_of_tryLock {path : String} (taken : (d.tryLock path).1 = .ok true) :
    d.answer (.lock path) = some (.ok (), (d.tryLock path).2) := by
  rw [answer]
  cases tried : d.tryLock path with
  | mk result e =>
    rw [tried] at taken
    cases taken
    rfl

/-- Somebody holds the store's lock, so a change waits. -/
def Waits (d : Disk) (database : String) : Prop :=
  ∃ place ∈ d.held, (d.locked database).locate (Workspace.lockPath database) = .ok place

theorem answer_lock (d : Disk) (text : database ≠ "") :
    (∃ fault, d.answer (.lock (Workspace.lockPath database)) =
          some (.error fault, d.locked database) ∧ d.locked database = d.prepared database) ∨
      ∃ parent last, LockedBeside database parent last d (d.locked database) ∧
        (d.answer (.lock (Workspace.lockPath database)) = none ∧ d.Waits database ∨
          d.answer (.lock (Workspace.lockPath database)) = some (.ok (), d.locked database) ∧
            parent ++ [last ++ ".lock"] ∉ d.held ∧
            (d.locked database).held = (parent ++ [last ++ ".lock"]) :: d.held) := by
  rcases d.openLock_course text with ⟨fault, opened⟩ | ⟨parent, last, e, opened, there, held⟩
  · have refused : d.tryLock (Workspace.lockPath database) =
        (.error fault, d.prepared database) := by rw [tryLock, opened]
    exact .inl ⟨fault, by rw [answer, locked, refused], by rw [locked, refused]⟩
  · by_cases taken : parent ++ [last ++ ".lock"] ∈ d.held
    · have waits : d.tryLock (Workspace.lockPath database) = (.ok false, e) := by
        simp [tryLock, opened, held, taken]
      have same : d.locked database = e := by rw [locked, waits]
      refine .inr ⟨parent, last, same ▸ there, .inl ⟨by rw [answer, waits], _, taken, ?_⟩⟩
      rw [same]
      exact there.touched.locate there.beside.lock
    · have granted : d.tryLock (Workspace.lockPath database) =
          (.ok true, { e with held := (parent ++ [last ++ ".lock"]) :: d.held }) := by
        simp [tryLock, opened, held, taken]
      have same : d.locked database =
          { e with held := (parent ++ [last ++ ".lock"]) :: d.held } := by rw [locked, granted]
      refine .inr ⟨parent, last, ?_, .inr ⟨answer_lock_of_tryLock (by rw [granted]), taken, ?_⟩⟩
      · rw [same]
        exact ⟨there.beside, there.plain,
          ⟨there.touched.here, there.touched.directory, there.touched.others⟩, there.made⟩
      · rw [same]

end Disk

/-! ### Committing -/

namespace Job

variable {α : Type} {d e : Disk}

theorem play_demand_error {asked : Job (Except DiskFault α)} {fault : DiskFault}
    (played : asked.play d = some (.ok (.error fault), e)) :
    ∃ detail, (asked >>= demand).play d = some (.error (.io detail), e) := by
  rw [play_bind_ok played]
  cases fault with
  | missing => exact ⟨_, rfl⟩
  | refused detail => exact ⟨_, rfl⟩

section Changes

variable {path target : String} {content : ByteArray} {fault : DiskFault}

theorem play_write (written : d.write path content = .ok e) :
    (write path content).play d = some (.ok (), e) := by
  have asked : (request (.write path content)).play d = some (.ok (.ok ()), e) :=
    play_request (congrArg (fun changed => some (d.settle changed)) written)
  exact play_bind_ok asked

theorem play_write_error (refused : d.write path content = .error fault) :
    ∃ detail, (write path content).play d = some (.error (.io detail), d) := by
  have asked : (request (.write path content)).play d = some (.ok (.error fault), d) :=
    play_request (congrArg (fun changed => some (d.settle changed)) refused)
  exact play_demand_error asked

theorem play_rename (moved : d.rename path target = .ok e) :
    (rename path target).play d = some (.ok (), e) := by
  have asked : (request (.rename path target)).play d = some (.ok (.ok ()), e) :=
    play_request (congrArg (fun changed => some (d.settle changed)) moved)
  exact play_bind_ok asked

theorem play_rename_error (refused : d.rename path target = .error fault) :
    ∃ detail, (rename path target).play d = some (.error (.io detail), d) := by
  have asked : (request (.rename path target)).play d = some (.ok (.error fault), d) :=
    play_request (congrArg (fun changed => some (d.settle changed)) refused)
  exact play_demand_error asked

end Changes

end Job

/-- A directory is in the way of a commit. -/
def Disk.Blocked (d : Disk) (parent : Location) (last : String) : Prop :=
  d.entryAt? (parent ++ [last ++ ".tmp"]) = some .directory ∨
    d.entryAt? (Disk.further parent last) = some .directory

theorem Disk.Touched.blocked_iff {places : List Location} {d e : Disk}
    (touched : Touched places d e) {parent : Location} {last : String} :
    e.Blocked parent last ↔ d.Blocked parent last :=
  or_congr (touched.directory _) (touched.directory _)

/-- What committing comes to: a fault of the disk with the old content, or the new document. -/
inductive Workspace.Commit (database : String) (s : Store) (parent : Location) (last : String)
    (d : Disk) : Except Fault Unit → Disk → Prop
  | failed {e : Disk} (detail : String) (blocked : d.Blocked parent last)
      (kept : e.content? database = d.content? database) :
      Commit database s parent last d (.error (.io detail)) e
  | done {e : Disk} (free : ¬ d.Blocked parent last)
      (written : e.content? database = some s.document.toUTF8) :
      Commit database s parent last d (.ok ()) e

theorem Workspace.play_commit {database : String} {d : Disk} {parent : Location} {last : String}
    (beside : d.Beside database parent last) (s : Store) :
    ∃ result e, (commit database s).play d = some (result, e) ∧
      Commit database s parent last d result e ∧
      Disk.Touched [Disk.further parent last, parent ++ [last ++ ".tmp"]] d e ∧
      e.held = d.held := by
  by_cases aside : d.entryAt? (parent ++ [last ++ ".tmp"]) = some .directory
  · obtain ⟨detail, refused⟩ := Job.play_write_error
      (Disk.write_eq_error beside.staging aside s.document.toUTF8)
    exact ⟨_, d, Job.play_bind_error refused, .failed detail (.inl aside) rfl, .refl _ d, rfl⟩
  have filled := Disk.filled_insert s.document.toUTF8 aside
  have written := Job.play_write (Disk.write_eq_ok beside.staging aside s.document.toUTF8)
  have beside' := beside.touched filled.toTouched
  have staged := filled.toTouched.mono
    (show [parent ++ [last ++ ".tmp"]] ⊆ [Disk.further parent last, parent ++ [last ++ ".tmp"]] by
      simp)
  by_cases taken : d.entryAt? (Disk.further parent last) = some .directory
  · have taken' := (filled.directory _).mpr taken
    obtain ⟨detail, refused⟩ := Job.play_rename_error
      (Disk.rename_eq_error beside'.staging beside'.store filled.file taken')
    have kept := beside.content?_eq (by decide) filled.toTouched
    exact ⟨_, _, (Job.play_bind_ok written).trans refused, .failed detail (.inr taken) kept, staged,
      filled.held⟩
  · have taken' := mt (filled.directory _).mp taken
    have moved := Job.play_rename
      (Disk.rename_eq_ok beside'.staging beside'.store filled.file taken')
    have landed := Disk.filled_rename filled.file taken'
    have document := Disk.content?_eq_some_iff.mpr
      ⟨_, landed.toTouched.locate beside'.store, landed.file⟩
    refine ⟨_, _, (Job.play_bind_ok written).trans moved,
      .done (not_or.mpr ⟨aside, taken⟩) document, ?_, ?_⟩
    · exact staged.trans (landed.toTouched.mono (by simp))
    · rw [landed.held, filled.held]

theorem Workspace.not_blocked_of_commit {database : String} {d e : Disk} {parent : Location}
    {last : String} (beside : d.Beside database parent last) {s : Store}
    (committed : (commit database s).play d = some (.ok (), e)) : ¬ d.Blocked parent last := by
  obtain ⟨_, _, committed', ending, _⟩ := play_commit beside s
  cases committed.symm.trans committed'
  cases ending with
  | done free => exact free

/-! ### Disks that accept changes -/

namespace Disk

/-- No file operation on the store fails: its lock can be taken, and any document can take its
place then. -/
def Accepts (d : Disk) (database : String) : Prop :=
  (d.tryLock (Workspace.lockPath database)).1 = .ok true ∧
    ∀ s, ∃ e, (Workspace.commit database s).play (d.locked database) = some (.ok (), e)

/-- What that takes of the disk: nothing is in the way of the directories, and no directory in the
way of the three files. -/
structure Roomy (database : String) (parent : Location) (last : String) (d : Disk) : Prop where
  made : d.makeDirectories (Path.parent (Workspace.lockPath database)) =
    (.ok (), d.prepared database)
  beside : Beside database parent last (d.prepared database)
  plain : (d.prepared database).entryAt? (parent ++ [last ++ ".lock"]) ≠ some .directory
  free : parent ++ [last ++ ".lock"] ∉ d.held
  unblocked : ¬ (d.prepared database).Blocked parent last

variable {d : Disk} {database : String} {parent : Location} {last : String}

theorem Roomy.tryLock_eq (roomy : Roomy database parent last d) :
    ∃ e, d.tryLock (Workspace.lockPath database) = (.ok true, e) ∧
      Touched [parent ++ [last ++ ".lock"]] (d.prepared database) e := by
  obtain ⟨e, opened, touched, held⟩ := openLock_of_beside roomy.made roomy.beside roomy.plain
  refine ⟨{ e with held := (parent ++ [last ++ ".lock"]) :: e.held }, ?_,
    ⟨touched.here, touched.directory, touched.others⟩⟩
  simp [tryLock, opened, held, roomy.free]

theorem Roomy.touched_locked (roomy : Roomy database parent last d) :
    Touched [parent ++ [last ++ ".lock"]] (d.prepared database) (d.locked database) := by
  obtain ⟨e, granted, touched⟩ := roomy.tryLock_eq
  rwa [Disk.locked, granted]

theorem Roomy.accepts (roomy : Roomy database parent last d) : d.Accepts database := by
  obtain ⟨_, granted, _⟩ := roomy.tryLock_eq
  refine ⟨by rw [granted], fun s => ?_⟩
  obtain ⟨_, e, committed, ending, _⟩ :=
    Workspace.play_commit (roomy.beside.touched roomy.touched_locked) s
  cases ending with
  | failed _ blocked =>
    exact absurd (roomy.touched_locked.blocked_iff.mp blocked) roomy.unblocked
  | done => exact ⟨e, committed⟩

/-- One commit that succeeds shows that there is room. -/
theorem roomy_of_commit (text : database ≠ "")
    (taken : (d.tryLock (Workspace.lockPath database)).1 = .ok true) {s : Store} {e : Disk}
    (committed : (Workspace.commit database s).play (d.locked database) = some (.ok (), e)) :
    ∃ parent last, Roomy database parent last d := by
  have granted := answer_lock_of_tryLock taken
  rcases d.answer_lock text with ⟨_, refused, _⟩ | ⟨parent, last, there, ⟨waits, _⟩ | ⟨_, free, _⟩⟩
  · cases granted.symm.trans refused
  · cases granted.symm.trans waits
  · have unblocked := Workspace.not_blocked_of_commit (there.beside.touched there.touched) committed
    exact ⟨parent, last, (d.makeDirectories_again _).symm.trans there.made, there.beside,
      there.plain, free, mt there.touched.blocked_iff.mpr unblocked⟩

theorem Accepts.roomy (text : database ≠ "") (accepts : d.Accepts database) :
    ∃ parent last, Roomy database parent last d := by
  obtain ⟨_, committed⟩ := accepts.2 .empty
  exact roomy_of_commit text accepts.1 committed

theorem Roomy.store_locked (roomy : Roomy database parent last d) {s : Store}
    (filed : Store.Filed ((d.locked database).content? database) s) :
    (d.locked database).store database = .ok s := by
  have touched := roomy.touched_locked
  refine store_of_filed_at (touched.locate roomy.beside.store) ?_ filed
  exact mt (touched.directory _).mp (not_or.mp roomy.unblocked).2

theorem Roomy.store_settled (roomy : Roomy database parent last d)
    (settled : d.prepared database = d) {s : Store}
    (filed : Store.Filed (d.content? database) s) : d.store database = .ok s := by
  have led := roomy.beside.store
  have unblocked := roomy.unblocked
  rw [settled] at led unblocked
  exact store_of_filed_at led (not_or.mp unblocked).2 filed

end Disk

/-! ### Holding the lock -/

namespace Job

variable {α : Type} {d e : Disk} {path : String}

theorem play_holding_refused {fault : DiskFault}
    (asked : d.answer (.lock path) = some (.error fault, e)) (job : Job α) :
    ∃ detail, (holding path job).play d = some (.error (.io detail), e) := by
  obtain ⟨detail, refused⟩ := play_demand_error (play_request asked)
  refine ⟨detail, ?_⟩
  rw [holding, ← bind_assoc]
  exact play_bind_error refused

theorem play_holding_waits (asked : d.answer (.lock path) = none) (job : Job α) :
    (holding path job).play d = none := by
  have waits : (request (.lock path)).play d = none := by
    change (Script.ask (.lock path) (fun answer => .done (Except.ok answer))).play d = none
    rw [Script.play, asked]
  rw [holding, play_bind, waits]

theorem play_holding {job : Job α} {result : Except Fault α} {f : Disk}
    (asked : d.answer (.lock path) = some (.ok (), e)) (ended : job.play e = some (result, f)) :
    (holding path job).play d = some (result, f.unlock path) := by
  have attempted := play_attempt job e
  rw [ended] at attempted
  rw [holding, play_bind_ok (play_request asked), demand, pure_bind, play_bind_ok attempted]
  rfl

end Job

end SymbolAtlas
