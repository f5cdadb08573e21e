import SymbolAtlas.Proofs.CommandSession

/-! One store behind all commands. What a command leaves of the store's file is what it found, or
the document of what its operation made of it; so a session of commands is a run of operations on
one store. A change makes the directories for its lock before it looks for the store, and where the
store's path steps back out of one of them it finds a store that was not to be seen before. -/
namespace SymbolAtlas

/-- What commands do. A question leaves the whole disk as it is, and so does a change without
settings. Any other change waits for whoever holds the store's lock, and finds the disk with the
lock file and the directories for it; if it fails, the store's file has the content that it found,
and if it succeeds without anything to commit, too; else the file has the document of what the
operation made of the store that was read. It has the outcome of the operation in memory if the disk
accepts it. What it found is what was there before if the store's path never steps back; and then
commands that the disk does not fail have the outcomes of their operations on one store in memory,
which is the store in the file at the end. A disk that accepts one change fails none. -/
theorem commands_share_one_store (d : Disk) :
    (∀ question json now, ((Command.ask question json).run now).play d =
      some (d.settings >>= fun settings => d.store settings.database >>= fun s =>
        question.answer s json, d)) ∧
    (∀ c now fault, d.settings = .error fault →
      ((Command.change c).run now).play d = some (.error fault, d)) ∧
    ∀ settings, d.settings = .ok settings →
      let database := settings.database
      let found := d.locked database
      (∀ c now, (((Command.change c).run now).play d = none ∧ d.Waits database) ∨
        ∃ outcome e, ((Command.change c).run now).play d = some (outcome, e) ∧
          (∀ fault, outcome = .error fault → e.content? database = found.content? database) ∧
          (∀ report, outcome = .ok report → ∃ s op answer, found.store database = .ok s ∧
            (c.operation settings now s).play found = some (.ok op, found) ∧
            op.answer s = .ok answer ∧ report = .remark (op.remark answer) ∧
            e.content? database =
              if answer.commits then some (op.run s).document.toUTF8
              else found.content? database) ∧
          (d.Accepts database → ∀ s, found.store database = .ok s →
            ∃ t, c.onStore settings now found s = some (outcome, t))) ∧
      (d.IsTree → ".." ∉ Path.names database →
        found.content? database = d.content? database) ∧
      (d.entryAt? d.here = some .directory → found.content? database = d.content? database →
        ∀ s, d.store database = .ok s → ∀ commands, (∀ command ∈ commands, command.1.Valid) →
          (d.held = [] → ∃ turns last, playAll commands d = some (turns, last)) ∧
          ∀ turns last, playAll commands d = some (turns, last) →
            (∃ outcomes t,
              runInMemory settings (turns.filter Turn.smooth) s = some (outcomes, t) ∧
              (t.Addressable → (turns.filter Turn.smooth).map Turn.outcome = outcomes ∧
                Store.Filed (last.content? database) t)) ∧
            (d.Accepts database → ∃ outcomes t,
              runInMemory settings turns s = some (outcomes, t) ∧
              (t.Addressable → turns.map Turn.outcome = outcomes ∧
                Store.Filed (last.content? database) t))) := by
  refine ⟨fun question json now => question.play_run json d, fun c now fault unknown => ?_,
    fun settings known => ⟨fun c now => ?_, fun tree onward => ?_,
      fun directory steady s read commands clock =>
        ⟨exists_playAll commands, fun turns last played => ⟨?_, fun accepts => ?_⟩⟩⟩⟩
  · rcases c.play_run now d with ⟨fault', unknown', ended⟩ | ⟨_, known, _⟩
    · cases unknown.symm.trans unknown'
      exact ended
    · cases unknown.symm.trans known
  · rcases c.play_run now d with ⟨_, unknown, _⟩ | ⟨_, known', waits | course⟩
    · cases known.symm.trans unknown
    · cases known.symm.trans known'
      exact .inl waits
    · cases known.symm.trans known'
      obtain ⟨outcome, e, ended, leaves, _⟩ := course
      refine .inr ⟨outcome, e, ended, fun fault failed => (failed ▸ leaves).kept,
        fun report succeeded => (succeeded ▸ leaves).succeeded, fun accepts s read => ?_⟩
      obtain ⟨answer, t, taken⟩ := c.exists_onStore settings now (d.locked settings.database) s
      rcases leaves.onStore read taken with ⟨hindered, _⟩ | ⟨rfl, _⟩
      · exact absurd accepts hindered
      · exact ⟨t, taken⟩
  · exact Disk.content?_locked_of_onward (Disk.database_ne_empty known) tree onward
  · have carries : Carries settings d s := ⟨directory, known, steady, Disk.filed_of_store read⟩
    obtain ⟨outcomes, t, ran⟩ := exists_runInMemory settings (turns.filter Turn.smooth) s
    refine ⟨outcomes, t, ran, fun addressable => ?_⟩
    obtain ⟨same, carries⟩ := simulation (fun carries => carries.filed.origin.sound)
      (fun carries valid ended taken => carries.step valid ended taken)
      clock carries played ran addressable
    exact ⟨same, carries.filed⟩
  · have serves : Serves settings d s :=
      ⟨⟨directory, known, steady, Disk.filed_of_store read⟩, accepts, read⟩
    obtain ⟨outcomes, t, ran⟩ := exists_runInMemory settings turns s
    refine ⟨outcomes, t, ran, fun addressable => ?_⟩
    have all : turns.filter (fun _ => true) = turns := List.filter_true turns
    rw [← all] at ran ⊢
    obtain ⟨same, serves⟩ := simulation (fun serves => serves.filed.origin.sound)
      (fun serves valid ended taken => ⟨nofun, fun _ => serves.step valid ended taken⟩)
      clock serves played ran addressable
    exact ⟨same, serves.filed⟩

/-! ### A desk with a store -/

/-- Two versions, of which the first is the latest. -/
def shelf : Store :=
  { Store.empty with versions := [⟨"a", ⟨0, 0⟩, true, "1"⟩, ⟨"b", ⟨60, 0⟩, false, "2"⟩] }

theorem parse_shelf : Store.parse shelf.document = .ok shelf := by
  have sound : shelf.Sound :=
    { toIndexed := Store.indexed_empty.congr rfl rfl
      classes := .nil
      entries := .nil
      recorded := Store.sound_empty.recorded }
  have timely : shelf.Timely := by
    intro t member
    have times : shelf.instants = [⟨0, 0⟩, ⟨60, 0⟩] := rfl
    rw [times, List.mem_cons, List.mem_singleton] at member
    rcases member with rfl | rfl <;> exact ⟨by decide, by decide⟩
  exact Store.parse_document_of_timely sound Store.grounded_empty timely
    ⟨by decide, by decide, by decide⟩

theorem store_of_content? {d : Disk} {path : String}
    (content : d.content? path = some shelf.document.toUTF8) : d.store path = .ok shelf :=
  bind_eq_ok.mpr ⟨_, Disk.text?_of_content? content, parse_shelf⟩

/-- The store is in a file, and the settings give a path for it. -/
def desk (database : String) : Disk :=
  ⟨⟨[(["work"], .directory),
    (["work", settingsFile], .file ("database = \"" ++ database ++ "\"\n").toUTF8),
    (["work", "srgmap.json"], .file shelf.document.toUTF8)]⟩, ["work"], []⟩

theorem desk_isTree (database : String) : (desk database).IsTree := by
  intro place stands
  have inside : place = [] ∨ place ∈ (desk database).entries.keys := by
    unfold Disk.entryAt? at stands
    split at stands
    case isTrue top => exact .inl top
    case isFalse =>
      exact .inr ((Table.contains_iff_mem_keys _ _).mp (Option.isSome_iff_ne_none.mpr stands))
  have keys : (desk database).entries.keys =
      [["work"], ["work", settingsFile], ["work", "srgmap.json"]] := rfl
  rw [keys] at inside
  simp only [List.mem_cons, List.not_mem_nil, or_false] at inside
  rcases inside with rfl | rfl | rfl | rfl <;> rfl

/-- The path at the desk leads to the store once the lock has been taken. -/
structure Leads (database path : String) : Prop where
  known : (desk database).settings = .ok ⟨none, [], path, "warn"⟩
  granted : ((desk database).tryLock (Workspace.lockPath path)).1 = .ok true
  led : ((desk database).prepared path).locate path = .ok ["work", "srgmap.json"]
  committed : ((Workspace.commit path ((Operation.promote "2").run shelf)).play
    ((desk database).locked path)).map Prod.fst = some (.ok ())

theorem leads_onward : Leads "srgmap.json" "./srgmap.json" :=
  ⟨by decide +kernel, by decide +kernel, by decide +kernel, by decide +kernel⟩

theorem leads_back : Leads "new/../srgmap.json" "./new/../srgmap.json" :=
  ⟨by decide +kernel, by decide +kernel, by decide +kernel, by decide +kernel⟩

namespace Leads

variable {database path : String}

theorem content?_locked (leads : Leads database path) :
    ((desk database).locked path).content? path = some shelf.document.toUTF8 := by
  rw [Disk.content?_locked _ (Disk.database_ne_empty leads.known), Disk.content?_eq_some_iff]
  exact ⟨_, leads.led, ((desk database).furnished_prepared path).stays rfl⟩

theorem accepts (leads : Leads database path) : (desk database).Accepts path := by
  obtain ⟨⟨_, _⟩, committed, rfl⟩ := Option.map_eq_some_iff.mp leads.committed
  obtain ⟨_, _, roomy⟩ :=
    Disk.roomy_of_commit (Disk.database_ne_empty leads.known) leads.granted committed
  exact roomy.accepts

theorem play (leads : Leads database path) (now : Instant) :
    ∃ e, ((Command.change (.promote "2")).run now).play (desk database) =
      some (.ok (.remark "2 is now latest"), e) := by
  have read := store_of_content? leads.content?_locked
  obtain ⟨⟨_, e⟩, committed, rfl⟩ := Option.map_eq_some_iff.mp leads.committed
  have answered : (Operation.promote "2").answer shelf = .ok .promoted := by decide
  have remark : (Operation.promote "2").remark .promoted = "2 is now latest" := by decide
  have ended : (Change.runLocked (.promote "2") ⟨none, [], path, "warn"⟩ now).play
      ((desk database).locked path) =
        some (.ok (.remark ((Operation.promote "2").remark .promoted)), e) :=
    (Change.play_runLocked_of_answer read rfl answered).trans (Job.play_bind_ok committed)
  have loaded := (desk database).play_loadSettings
  rw [leads.known] at loaded
  rw [remark] at ended
  exact ⟨_, (Job.play_bind_ok loaded).trans
    (Job.play_holding (Disk.answer_lock_of_tryLock leads.granted) ended)⟩

end Leads

def promotion : List (Instant × Command) :=
  [(⟨0, 0⟩, .ask .versions false), (⟨60, 0⟩, .change (.promote "2"))]

theorem Leads.playAll {database path : String} (leads : Leads database path) {s : Store}
    (read : (desk database).store path = .ok s) :
    ∃ e, playAll promotion (desk database) =
      some ([⟨⟨0, 0⟩, .ask .versions false, desk database, .ok (s.versionsReport false)⟩,
        ⟨⟨60, 0⟩, .change (.promote "2"), desk database, .ok (.remark "2 is now latest")⟩], e) := by
  obtain ⟨e, promoted⟩ := leads.play ⟨60, 0⟩
  have asked : ((Command.ask .versions false).run ⟨0, 0⟩).play (desk database) =
      some (.ok (s.versionsReport false), desk database) := by
    refine (Question.play_run .versions false (desk database)).trans ?_
    simp [leads.known, read, bind, Except.bind, Question.answer]
  refine ⟨e, playAll_cons_eq_some_iff.mpr ⟨_, _, _, asked, ?_, rfl⟩⟩
  exact playAll_cons_eq_some_iff.mpr ⟨_, e, [], promoted, rfl, rfl⟩

/-- At the desk the store is promoted in its file as it would be in memory. -/
theorem commands_share_one_store_at_desk :
    (desk "srgmap.json").held = [] ∧
    (desk "srgmap.json").entryAt? (desk "srgmap.json").here = some .directory ∧
    (desk "srgmap.json").Accepts "./srgmap.json" ∧
    ∃ turns last, playAll promotion (desk "srgmap.json") = some (turns, last) ∧
      turns.map Turn.outcome =
        [.ok (shelf.versionsReport false), .ok (.remark "2 is now latest")] ∧
      Store.Filed (last.content? "./srgmap.json") ((Operation.promote "2").run shelf) := by
  obtain ⟨_, _, changes⟩ := commands_share_one_store (desk "srgmap.json")
  obtain ⟨_, onward, sessions⟩ := changes _ leads_onward.known
  have steady := onward (desk_isTree _) (by decide)
  have content := steady.symm.trans leads_onward.content?_locked
  have read := store_of_content? content
  have clock : ∀ command ∈ promotion, command.1.Valid := by
    intro command member
    simp only [promotion, List.mem_cons, List.not_mem_nil, or_false] at member
    rcases member with rfl | rfl <;> exact ⟨by decide, by decide⟩
  obtain ⟨ends, shared⟩ := sessions rfl steady shelf read promotion clock
  obtain ⟨turns, last, played⟩ := ends rfl
  obtain ⟨e, played'⟩ := leads_onward.playAll read
  cases played.symm.trans played'
  obtain ⟨outcomes, t, ran, same⟩ := (shared _ _ played).2 leads_onward.accepts
  cases ran
  obtain ⟨_, filed⟩ := same ⟨by decide, by decide, by decide⟩
  exact ⟨rfl, rfl, leads_onward.accepts, _, _, played, rfl, filed⟩

/-- Before the promotion the path leads nowhere, so the store is empty and has no version to
promote. The lock makes the directory that the path steps back out of, and the promotion finds
another store. -/
theorem store_behind_new_directory :
    (desk "new/../srgmap.json").held = [] ∧ (desk "new/../srgmap.json").IsTree ∧
    (desk "new/../srgmap.json").settings = .ok ⟨none, [], "./new/../srgmap.json", "warn"⟩ ∧
    (desk "new/../srgmap.json").Accepts "./new/../srgmap.json" ∧
    (desk "new/../srgmap.json").content? "./new/../srgmap.json" = none ∧
    (Operation.promote "2").answer .empty = .error (.unknownVersion "2") ∧
    ∃ turns last, playAll promotion (desk "new/../srgmap.json") = some (turns, last) ∧
      (∀ turn ∈ turns, turn.smooth = true) ∧
      turns.map Turn.outcome =
        [.ok (Store.empty.versionsReport false), .ok (.remark "2 is now latest")] ∧
      (runInMemory ⟨none, [], "./new/../srgmap.json", "warn"⟩ turns .empty).map Prod.fst =
        some [.ok (Store.empty.versionsReport false), .error (.unknownVersion "2")] := by
  have missing : (desk "new/../srgmap.json").read "./new/../srgmap.json" = .error .missing := by
    decide +kernel
  have read : (desk "new/../srgmap.json").store "./new/../srgmap.json" = .ok .empty := by
    rw [Disk.store, Disk.text?, missing]
    rfl
  obtain ⟨e, played⟩ := leads_back.playAll read
  have nothing : (desk "new/../srgmap.json").content? "./new/../srgmap.json" = none := by
    rw [Disk.content?, missing]
    rfl
  refine ⟨rfl, desk_isTree _, leads_back.known, leads_back.accepts, nothing, by decide, _, e,
    played, ?_, rfl, rfl⟩
  simp [Turn.smooth]

end SymbolAtlas
