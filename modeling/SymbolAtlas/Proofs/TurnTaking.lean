import SymbolAtlas.Proofs.CommandSession
import SymbolAtlas.Proofs.ExclusiveChange

/-! Taking turns. At each moment of commands at the same time all changes that have been given their
turn have been played to their ends, one after another, but for at most one, which is at work behind
its lock; and all others have done nothing but load their settings. This is how they begin, and any
request of any of them leaves it so. -/
namespace SymbolAtlas

theorem playAll_concat {commands : List (Instant × Command)} {d e last : Disk} {turns : List Turn}
    {now : Instant} {command : Command} {outcome : Except Fault Report}
    (played : playAll commands d = some (turns, e))
    (ended : (command.run now).play e = some (outcome, last)) :
    playAll (commands ++ [(now, command)]) d =
      some (turns ++ [⟨now, command, e, outcome⟩], last) := by
  induction commands generalizing d turns with
  | nil =>
    cases played
    exact playAll_cons_eq_some_iff.mpr ⟨_, _, [], ended, rfl, rfl⟩
  | cons first rest ih =>
    obtain ⟨_, _, later, begun, rest, rfl⟩ := playAll_cons_eq_some_iff.mp played
    exact playAll_cons_eq_some_iff.mpr ⟨_, _, _, begun, ih rest, rfl⟩

/-- Changes leave the settings, and find the directories of the store made, but for the first. -/
theorem setUp_of_playAll {known : Except Fault Settings} {commands : List (Instant × Command)}
    {d last : Disk} {turns : List Turn} (begun : d.SetUp known)
    (changes : ∀ command ∈ commands, ∃ c, command.2 = .change c)
    (played : playAll commands d = some (turns, last)) :
    last.SetUp known ∧ ∀ turn ∈ turns, turn.disk.SetUp known ∧ (turn.disk = d ∨
      ∀ settings, known = .ok settings → turn.disk.prepared settings.database = turn.disk) := by
  induction commands generalizing d turns with
  | nil =>
    cases played
    exact ⟨begun, by simp⟩
  | cons first rest ih =>
    obtain ⟨now, command⟩ := first
    obtain ⟨⟨c, rfl⟩, further⟩ := List.forall_mem_cons.mp changes
    obtain ⟨outcome, e, later, ended, remain, rfl⟩ := playAll_cons_eq_some_iff.mp played
    obtain ⟨setUp, settled⟩ := c.after begun ended
    obtain ⟨whole, turns⟩ := ih setUp further remain
    refine ⟨whole, List.forall_mem_cons.mpr ⟨⟨begun, .inl rfl⟩, fun turn listed => ?_⟩⟩
    obtain ⟨there, rfl | made⟩ := turns turn listed
    · exact ⟨there, .inr settled⟩
    · exact ⟨there, .inr made⟩

/-- The disks at which the store can be looked at in a session: before a turn, at the end, and when
the directories for the store have been made and nothing else. -/
def Shown (known : Except Fault Settings) (d : Disk) (turns : List Turn) (last e : Disk) : Prop :=
  e = last ∨ (∃ turn ∈ turns, e = turn.disk) ∨
    ∃ settings, known = .ok settings ∧ e = d.prepared settings.database

theorem Shown.concat {known : Except Fault Settings} {turns : List Turn} {d last next e : Disk}
    (shown : Shown known d turns last e) {turn : Turn} (disk : turn.disk = last) :
    Shown known d (turns ++ [turn]) next e := by
  rcases shown with rfl | ⟨earlier, listed, same⟩ | made
  · exact .inr (.inl ⟨turn, by simp, disk.symm⟩)
  · exact .inr (.inl ⟨earlier, List.mem_append_left _ listed, same⟩)
  · exact .inr (.inr made)

/-- A command that has not been given a turn: it has not begun, or it has loaded its settings, or it
is a question that has been answered. -/
inductive Standing (known : Except Fault Settings) (shown : Disk → Prop) :
    Instant × Command → Script (Except Fault Report) → Prop
  | fresh (now : Instant) (command : Command) :
      Standing known shown (now, command) (ExceptT.run (command.run now))
  | queued {settings : Settings} (ok : known = .ok settings) (now : Instant) (c : Change) :
      Standing known shown (now, .change c) (ExceptT.run
        (Job.holding (Workspace.lockPath settings.database) (c.runLocked settings now)))
  | reading {settings : Settings} (ok : known = .ok settings) (now : Instant) (question : Question)
      (json : Bool) : Standing known shown (now, .ask question json) (ExceptT.run
        (Workspace.openStore settings.database >>= fun s =>
          Job.ofExcept (question.answer s json)))
  | answered {now : Instant} {question : Question} {json : Bool} {outcome : Except Fault Report}
      {e : Disk} (seen : shown e) (ended : (question.run json).play e = some (outcome, e)) :
      Standing known shown (now, .ask question json) (.done outcome)

theorem Standing.mono {known : Except Fault Settings} {shown shown' : Disk → Prop}
    {command : Instant × Command} {script : Script (Except Fault Report)}
    (standing : Standing known shown command script) (more : ∀ e, shown e → shown' e) :
    Standing known shown' command script := by
  cases standing with
  | fresh now command => exact .fresh now command
  | queued ok now c => exact .queued ok now c
  | reading ok now question json => exact .reading ok now question json
  | answered seen ended => exact .answered (more _ seen) ended

/-- Changes with their numbers, played one after another. -/
structure Session (commands : List (Instant × Command)) (d : Disk) (taken : List (Nat × Turn))
    (last : Disk) : Prop where
  nodup : (taken.map Prod.fst).Nodup
  listed : ∀ t ∈ taken, commands[t.1]? = some (t.2.now, t.2.command) ∧
    ∃ c, t.2.command = .change c
  played : playAll (taken.map (fun t => (t.2.now, t.2.command))) d =
    some (taken.map Prod.snd, last)

theorem Session.concat {commands : List (Instant × Command)} {d last next : Disk}
    {taken : List (Nat × Turn)} (session : Session commands d taken last) {i : Nat} {now : Instant}
    {c : Change} {outcome : Except Fault Report} (listed : commands[i]? = some (now, .change c))
    (free : i ∉ taken.map Prod.fst) (ended : (c.run now).play last = some (outcome, next)) :
    Session commands d (taken ++ [(i, ⟨now, .change c, last, outcome⟩)]) next where
  nodup := by
    rw [List.map_append]
    simpa using session.nodup.concat free
  listed := by
    refine List.forall_mem_append.mpr ⟨session.listed, fun t new => ?_⟩
    rw [List.mem_singleton.mp new]
    exact ⟨listed, c, rfl⟩
  played := by
    rw [List.map_append, List.map_append]
    have ended : ((Command.change c).run now).play last = some (outcome, next) := ended
    exact playAll_concat session.played ended

theorem Session.setUp {commands : List (Instant × Command)} {d last : Disk}
    {taken : List (Nat × Turn)} {known : Except Fault Settings}
    (session : Session commands d taken last) (begun : d.SetUp known) :
    last.SetUp known ∧ ∀ t ∈ taken, t.2.disk.SetUp known ∧ (t.2.disk = d ∨
      ∀ settings, known = .ok settings → t.2.disk.prepared settings.database = t.2.disk) := by
  obtain ⟨whole, turns⟩ := setUp_of_playAll begun (List.forall_mem_map.mpr
    (fun t listed => (session.listed t listed).2)) session.played
  exact ⟨whole, List.forall_mem_map.mp turns⟩

/-- Where the changes are that have been given their turn. -/
inductive Phase (known : Except Fault Settings) (taken : List (Nat × Turn)) (last : Disk)
    (crowd : Crowd) : Prop
  | idle (disk : crowd.disk = last)
      (ended : ∀ t ∈ taken, crowd.scripts[t.1]? = some (.done t.2.outcome))
  | busy {settings : Settings} {earlier : List (Nat × Turn)} {i : Nat} {turn : Turn}
      {script : Script (Except Fault Report)} (ok : known = .ok settings)
      (split : taken = earlier ++ [(i, turn)]) (setUp : turn.disk.SetUp known)
      (works : Works settings turn.disk turn.outcome last script crowd.disk)
      (asks : crowd.scripts[i]? =
        some (script.andThen (Job.release (Workspace.lockPath settings.database))))
      (ended : ∀ t ∈ earlier, crowd.scripts[t.1]? = some (.done t.2.outcome))

/-- What is so at every moment. -/
structure Serial (commands : List (Instant × Command)) (d : Disk) (known : Except Fault Settings)
    (crowd : Crowd) (taken : List (Nat × Turn)) (last : Disk) : Prop where
  begun : d.SetUp known
  session : Session commands d taken last
  granted : crowd.granted.Sublist (taken.map Prod.fst)
  refused : ∀ t ∈ taken, t.1 ∈ crowd.granted ∨ ∃ fault, t.2.outcome = .error fault
  length : crowd.scripts.length = commands.length
  standing : ∀ i command, commands[i]? = some command → i ∉ taken.map Prod.fst →
    ∃ script, crowd.scripts[i]? = some script ∧
      Standing known (Shown known d (taken.map Prod.snd) last) command script
  phase : Phase known taken last crowd

section

variable {commands : List (Instant × Command)} {d last : Disk} {known : Except Fault Settings}
  {crowd later : Crowd} {taken : List (Nat × Turn)}

theorem serial_start (begun : d.SetUp known) :
    Serial commands d known (.start commands d) [] d where
  begun := begun
  session := ⟨List.nodup_nil, by simp, rfl⟩
  granted := List.nil_sublist _
  refused := by simp
  length := List.length_map ..
  standing i command listed _ := by
    refine ⟨_, ?_, .fresh command.1 command.2⟩
    change (commands.map _)[i]? = _
    rw [List.getElem?_map, listed]
    rfl
  phase := .idle rfl (by simp)

theorem Serial.setUp (serial : Serial commands d known crowd taken last) : last.SetUp known :=
  (serial.session.setUp serial.begun).1

theorem Serial.shown (serial : Serial commands d known crowd taken last) {e : Disk}
    (shown : Shown known d (taken.map Prod.snd) last e) : e.settings = known := by
  rcases shown with rfl | ⟨turn, listed, rfl⟩ | ⟨settings, rfl, rfl⟩
  · exact serial.setUp.settings
  · obtain ⟨t, given, rfl⟩ := List.mem_map.mp listed
    exact ((serial.session.setUp serial.begun).2 t given).1.settings
  · exact ((Disk.confined_prepared serial.begun).setUp serial.begun).settings

theorem Serial.visible (serial : Serial commands d known crowd taken last) :
    crowd.disk.settings = known ∧ ∀ settings, known = .ok settings →
      ∃ e, Shown known d (taken.map Prod.snd) last e ∧
        crowd.disk.read settings.database = e.read settings.database := by
  cases serial.phase with
  | idle disk ended =>
    exact ⟨disk ▸ serial.setUp.settings, fun settings _ => ⟨last, .inl rfl, by rw [disk]⟩⟩
  | @busy settings earlier i turn script ok split setUp works asks ended =>
    have setUp : turn.disk.SetUp (.ok settings) := ok ▸ setUp
    obtain ⟨here, _, read⟩ := works.seen setUp
    refine ⟨here.settings.trans ok.symm, fun settings' ok' => ?_⟩
    cases ok.symm.trans ok'
    have listed : (i, turn) ∈ taken := by simp [split]
    rcases read with same | same
    · rw [setUp.read_locked] at same
      rcases ((serial.session.setUp serial.begun).2 _ listed).2 with first | settled
      · exact ⟨_, .inr (.inr ⟨settings, ok, rfl⟩), first ▸ same⟩
      · exact ⟨_, .inr (.inl ⟨turn, List.mem_map_of_mem listed, rfl⟩), settled _ ok ▸ same⟩
    · exact ⟨last, .inl rfl, same⟩

/-! ### One request -/

theorem ended_set {scripts : List (Script (Except Fault Report))} {i : Nat}
    {script : Script (Except Fault Report)} (free : i ∉ taken.map Prod.fst)
    (ended : ∀ t ∈ taken, scripts[t.1]? = some (.done t.2.outcome)) :
    ∀ t ∈ taken, (scripts.set i script)[t.1]? = some (.done t.2.outcome) := by
  intro t listed
  have apart : i ≠ t.1 := fun same => free (same ▸ List.mem_map_of_mem listed)
  rw [List.getElem?_set_ne apart, ended t listed]

theorem free_of_ended {scripts : List (Script (Except Fault Report))} {i : Nat}
    {script : Script (Except Fault Report)} (here : scripts[i]? = some script)
    (unfinished : script.isDone = false)
    (ended : ∀ t ∈ taken, scripts[t.1]? = some (.done t.2.outcome)) : i ∉ taken.map Prod.fst := by
  intro given
  obtain ⟨t, listed, rfl⟩ := List.mem_map.mp given
  cases here.symm.trans (ended t listed)
  cases unfinished

/-- What a request leads to: all as before but for this, or one more turn has been given. -/
def Advances (commands : List (Instant × Command)) (d : Disk) (known : Except Fault Settings)
    (taken : List (Nat × Turn)) (last : Disk) (later : Crowd) : Prop :=
  ∃ taken' last', Serial commands d known later taken' last' ∧
    ∀ e, Shown known d (taken.map Prod.snd) last e → Shown known d (taken'.map Prod.snd) last' e

theorem Serial.set_self (serial : Serial commands d known crowd taken last) {i : Nat}
    {command : Instant × Command} {script : Script (Except Fault Report)}
    (listed : commands[i]? = some command) :
    (crowd.scripts.set i script)[i]? = some script :=
  List.getElem?_set_self (serial.length ▸ (List.getElem?_eq_some_iff.mp listed).1)

theorem Serial.move (serial : Serial commands d known crowd taken last) {i : Nat}
    {command : Instant × Command} {script : Script (Except Fault Report)}
    (listed : commands[i]? = some command) (free : i ∉ taken.map Prod.fst)
    (standing : Standing known (Shown known d (taken.map Prod.snd) last) command script) :
    Advances commands d known taken last
      ⟨crowd.disk, crowd.scripts.set i script, crowd.granted⟩ := by
  refine ⟨taken, last, ?_, fun _ => id⟩
  exact {
    begun := serial.begun
    session := serial.session
    granted := serial.granted
    refused := serial.refused
    length := List.length_set.trans serial.length
    standing := by
      intro j other listed' free'
      by_cases same : i = j
      · subst same
        cases listed.symm.trans listed'
        exact ⟨script, serial.set_self listed, standing⟩
      · obtain ⟨script', there, standing'⟩ := serial.standing j other listed' free'
        exact ⟨script', (List.getElem?_set_ne same).trans there, standing'⟩
    phase := by
      cases serial.phase with
      | idle disk ended => exact .idle disk (ended_set free ended)
      | @busy settings earlier j turn script' ok split setUp works asks ended =>
        rw [split, List.map_append, List.mem_append, not_or] at free
        have apart : i ≠ j := fun same => free.2 (by simp [same])
        exact .busy ok split setUp works ((List.getElem?_set_ne apart).trans asks)
          (ended_set free.1 ended) }

/-- A change is given its turn on the disk that the turns before it have left. -/
theorem Serial.take (serial : Serial commands d known crowd taken last) {i : Nat} {now : Instant}
    {c : Change} {outcome : Except Fault Report} {e next : Disk} {granted : List Nat}
    {script : Script (Except Fault Report)} (listed : commands[i]? = some (now, .change c))
    (free : i ∉ taken.map Prod.fst) (played : (c.run now).play last = some (outcome, next))
    (order : granted.Sublist (taken.map Prod.fst ++ [i])) (kept : crowd.granted ⊆ granted)
    (refused : i ∈ granted ∨ ∃ fault, outcome = .error fault)
    (phase : Phase known (taken ++ [(i, ⟨now, .change c, last, outcome⟩)]) next
      ⟨e, crowd.scripts.set i script, granted⟩) :
    Advances commands d known taken last ⟨e, crowd.scripts.set i script, granted⟩ := by
  let turn : Turn := ⟨now, .change c, last, outcome⟩
  have shown : ∀ f, Shown known d (taken.map Prod.snd) last f →
      Shown known d ((taken ++ [(i, turn)]).map Prod.snd) next f := by
    intro f seen
    rw [List.map_append]
    exact seen.concat rfl
  refine ⟨_, next, ?_, shown⟩
  exact {
    begun := serial.begun
    session := serial.session.concat listed free played
    granted := by
      rw [List.map_append]
      exact order
    refused := by
      refine List.forall_mem_append.mpr ⟨fun t listed => ?_, fun t new => ?_⟩
      · exact (serial.refused t listed).imp_left (fun there => kept there)
      · rw [List.mem_singleton.mp new]
        exact refused
    length := List.length_set.trans serial.length
    standing := by
      intro j other listed' free'
      rw [List.map_append, List.mem_append, not_or] at free'
      have apart : i ≠ j := fun same => free'.2 (by simp [same])
      obtain ⟨script', there, standing⟩ := serial.standing j other listed' free'.1
      exact ⟨script', (List.getElem?_set_ne apart).trans there, standing.mono shown⟩
    phase := phase }

theorem Serial.replace (serial : Serial commands d known crowd taken last) {i : Nat} {e : Disk}
    {script : Script (Except Fault Report)} (given : i ∈ taken.map Prod.fst)
    (phase : Phase known taken last ⟨e, crowd.scripts.set i script, crowd.granted⟩) :
    Serial commands d known ⟨e, crowd.scripts.set i script, crowd.granted⟩ taken last where
  begun := serial.begun
  session := serial.session
  granted := serial.granted
  refused := serial.refused
  length := List.length_set.trans serial.length
  standing j command listed free := by
    have apart : i ≠ j := fun same => free (same ▸ given)
    obtain ⟨script', there, standing⟩ := serial.standing j command listed free
    exact ⟨script', (List.getElem?_set_ne apart).trans there, standing⟩
  phase := phase

theorem Serial.work (serial : Serial commands d known crowd taken last) {i : Nat}
    {request : Request} {next : request.Answer → Script (Except Fault Report)}
    {answer : request.Answer} {e : Disk} (given : i ∈ taken.map Prod.fst)
    (asks : crowd.scripts[i]? = some (.ask request next))
    (answered : crowd.disk.answer request = some (answer, e)) :
    Serial commands d known ⟨e, crowd.scripts.set i (next answer),
      if request.grants answer then crowd.granted ++ [i] else crowd.granted⟩ taken last := by
  have here : (crowd.scripts.set i (next answer))[i]? = some (next answer) :=
    List.getElem?_set_self (List.getElem?_eq_some_iff.mp asks).1
  cases serial.phase with
  | idle disk ended => exact absurd given (free_of_ended asks rfl ended)
  | @busy settings earlier j turn script ok split setUp works left ended =>
    have free := free_of_ended asks rfl ended
    have kept : ∀ t ∈ earlier,
        (crowd.scripts.set i (next answer))[t.1]? = some (.done t.2.outcome) :=
      ended_set free ended
    obtain rfl : i = j := by
      rw [split, List.map_append, List.mem_append] at given
      simpa using given.resolve_left free
    have same := Option.some.inj (asks.symm.trans left)
    cases script with
    | done result =>
      obtain ⟨rfl, unlocked⟩ := works.released
      cases same
      cases answered
      refine serial.replace given (.idle unlocked ?_)
      rw [split]
      refine List.forall_mem_append.mpr ⟨kept, fun t latest => ?_⟩
      rw [List.mem_singleton.mp latest]
      exact here
    | ask request' rest =>
      cases same
      have grants : request.grants answer = false := works.not_grants
      rw [grants]
      exact serial.replace given (.busy ok split setUp (works.answered answered) here kept)

theorem Serial.fail (serial : Serial commands d known crowd taken last) {i : Nat}
    {now : Instant} {c : Change} {fault : Fault} {next : Disk}
    (listed : commands[i]? = some (now, .change c)) (free : i ∉ taken.map Prod.fst)
    (ended : ∀ t ∈ taken, crowd.scripts[t.1]? = some (.done t.2.outcome))
    (played : (c.run now).play last = some (.error fault, next)) :
    Advances commands d known taken last
      ⟨next, crowd.scripts.set i (.done (.error fault)), crowd.granted⟩ := by
  refine serial.take listed free played (serial.granted.trans (List.sublist_append_left _ _))
    (List.Subset.refl _) (.inr ⟨fault, rfl⟩) (.idle rfl ?_)
  refine List.forall_mem_append.mpr ⟨ended_set free ended, fun t new => ?_⟩
  rw [List.mem_singleton.mp new]
  exact serial.set_self listed

theorem Serial.begin (serial : Serial commands d known crowd taken last) {i : Nat} {now : Instant}
    {command : Command} {request : Request} {next : request.Answer → Script (Except Fault Report)}
    {answer : request.Answer} {e : Disk} (listed : commands[i]? = some (now, command))
    (free : i ∉ taken.map Prod.fst) (same : .ask request next = ExceptT.run (command.run now))
    (answered : crowd.disk.answer request = some (answer, e)) :
    Advances commands d known taken last ⟨e, crowd.scripts.set i (next answer),
      if request.grants answer then crowd.granted ++ [i] else crowd.granted⟩ := by
  have settings : crowd.disk.settings = known := serial.visible.1
  cases command with
  | ask question json =>
    obtain ⟨path, rest, begins, goes⟩ := Workspace.loadSettings_bind (fun settings =>
      Workspace.openStore settings.database >>= fun s => Job.ofExcept (question.answer s json))
    cases same.trans begins
    cases answered
    rw [goes, settings]
    refine serial.move listed free ?_
    cases known with
    | ok settings => exact .reading rfl now question json
    | error fault =>
      refine .answered (.inl rfl) ((question.play_run json last).trans ?_)
      rw [serial.setUp.settings]
      rfl
  | change c =>
    obtain ⟨path, rest, begins, goes⟩ := Workspace.loadSettings_bind (fun settings =>
      Job.holding (Workspace.lockPath settings.database) (c.runLocked settings now))
    cases same.trans begins
    cases answered
    rw [goes, settings]
    cases known with
    | ok settings => exact serial.move listed free (.queued rfl now c)
    | error fault =>
      cases serial.phase with
      | busy ok => cases ok
      | idle disk ended =>
        have loaded := last.play_loadSettings
        rw [serial.setUp.settings] at loaded
        rw [disk]
        exact serial.fail listed free ended (Job.play_bind_error loaded)

theorem Serial.enter {settings : Settings}
    (serial : Serial commands d (.ok settings) crowd taken last) {i : Nat} {now : Instant}
    {c : Change} {request : Request} {next : request.Answer → Script (Except Fault Report)}
    {answer : request.Answer} {e : Disk} (listed : commands[i]? = some (now, .change c))
    (free : i ∉ taken.map Prod.fst)
    (same : .ask request next = ExceptT.run
      (Job.holding (Workspace.lockPath settings.database) (c.runLocked settings now)))
    (answered : crowd.disk.answer request = some (answer, e)) :
    Advances commands d (.ok settings) taken last ⟨e, crowd.scripts.set i (next answer),
      if request.grants answer then crowd.granted ++ [i] else crowd.granted⟩ := by
  obtain ⟨rest, asks, courses⟩ := c.exists_course now settings
  cases same.trans asks
  cases serial.phase with
  | busy ok split setUp works =>
    cases ok
    cases answered.symm.trans (works.seen setUp).2.1
  | idle disk ended =>
    rw [disk] at answered
    obtain ⟨outcome, left, played, _, ⟨_, fault, rfl, rfl, done, rfl⟩ | ⟨rfl, script, works, goes⟩⟩
      := courses last e answer serial.setUp answered
    · rw [done]
      exact serial.fail listed free ended played
    · rw [goes]
      exact serial.take listed free played (serial.granted.append_right [i])
        (List.subset_append_left _ _) (.inl (List.mem_append_right _ (List.mem_singleton_self i)))
        (.busy rfl rfl serial.setUp works (serial.set_self listed) (ended_set free ended))

theorem Serial.look {settings : Settings}
    (serial : Serial commands d (.ok settings) crowd taken last) {i : Nat} {now : Instant}
    {question : Question} {json : Bool} {request : Request}
    {next : request.Answer → Script (Except Fault Report)} {answer : request.Answer} {e : Disk}
    (listed : commands[i]? = some (now, .ask question json)) (free : i ∉ taken.map Prod.fst)
    (same : .ask request next = ExceptT.run (Workspace.openStore settings.database >>= fun s =>
      Job.ofExcept (question.answer s json)))
    (answered : crowd.disk.answer request = some (answer, e)) :
    Advances commands d (.ok settings) taken last ⟨e, crowd.scripts.set i (next answer),
      if request.grants answer then crowd.granted ++ [i] else crowd.granted⟩ := by
  obtain ⟨rest, asks, goes⟩ := Workspace.openStore_bind settings.database (fun s =>
    Job.ofExcept (question.answer s json))
  obtain ⟨shown, seen, read⟩ := serial.visible.2 settings rfl
  have played : (question.run json).play shown =
      some (shown.store settings.database >>= fun s => question.answer s json, shown) := by
    rw [question.play_run, serial.shown seen]
    rfl
  have store : crowd.disk.store settings.database = shown.store settings.database := by
    rw [Disk.store, Disk.store, Disk.text?, Disk.text?, read]
  cases same.trans asks
  cases answered
  rw [goes, store]
  refine serial.move listed free ?_
  cases found : shown.store settings.database with
  | ok s =>
    rw [found] at played
    exact .answered seen played
  | error fault =>
    rw [found] at played
    exact .answered seen played

theorem Serial.step (serial : Serial commands d known crowd taken last) {i : Nat}
    (stepped : crowd.step i = some later) : Advances commands d known taken last later := by
  obtain ⟨request, next, answer, e, asks, answered, rfl⟩ := Crowd.step_eq_some_iff.mp stepped
  by_cases given : i ∈ taken.map Prod.fst
  · exact ⟨taken, last, serial.work given asks answered, fun _ => id⟩
  · have inside : i < commands.length :=
      serial.length ▸ (List.getElem?_eq_some_iff.mp asks).1
    have listed := List.getElem?_eq_getElem inside
    obtain ⟨script, here, standing⟩ := serial.standing i _ listed given
    have same := Option.some.inj (asks.symm.trans here)
    generalize commands[i] = command at listed standing
    cases standing with
    | fresh now command => exact serial.begin listed given same answered
    | queued ok now c =>
      subst ok
      exact serial.enter listed given same answered
    | reading ok now question json =>
      subst ok
      exact serial.look listed given same answered
    | answered seen ended => cases same

end

end SymbolAtlas
