import SymbolAtlas.Proofs.SharedStore
import SymbolAtlas.Proofs.TurnTaking

/-! Commands at the same time. However their requests fall between each other, the changes come out
as if they had been made one after another in the order in which they were given the lock, and the
store's file never shows anything else than it shows in the course of that. From every moment on
the way all of them can come to an end. -/
namespace SymbolAtlas

section

variable {commands : List (Instant × Command)} {d last : Disk} {known : Except Fault Settings}
  {crowd later : Crowd} {taken : List (Nat × Turn)}

/-- However a crowd goes on from a moment, one session accounts for all that can be seen on the
way. -/
theorem Serial.run (serial : Serial commands d known crowd taken last) {schedule : List Nat}
    (ran : crowd.run schedule = some later) :
    ∃ taken' last', Serial commands d known later taken' last' ∧
      ∀ earlier moment, earlier <+: schedule → crowd.run earlier = some moment →
        ∀ settings, known = .ok settings → ∃ e, Shown known d (taken'.map Prod.snd) last' e ∧
          moment.disk.read settings.database = e.read settings.database := by
  induction schedule using List.reverseRecOn generalizing later with
  | nil =>
    cases ran
    refine ⟨taken, last, serial, fun earlier moment isEarlier ran => ?_⟩
    cases List.prefix_nil.mp isEarlier
    cases ran
    exact serial.visible.2
  | append_singleton schedule i ih =>
    have whole := ran
    rw [Crowd.run_concat] at ran
    obtain ⟨before, ran, stepped⟩ := Option.bind_eq_some_iff.mp ran
    obtain ⟨_, _, serial, visible⟩ := ih ran
    obtain ⟨taken', last', serial', kept⟩ := serial.step stepped
    refine ⟨taken', last', serial', fun earlier moment isEarlier reached settings ok => ?_⟩
    rcases List.prefix_concat_iff.mp isEarlier with rfl | isEarlier
    · cases whole.symm.trans reached
      exact serial'.visible.2 settings ok
    · obtain ⟨e, seen, same⟩ := visible earlier moment isEarlier reached settings ok
      exact ⟨e, kept e seen, same⟩

/-! ### Ends -/

theorem held_of_playAll {commands : List (Instant × Command)} {d : Disk} {turns : List Turn}
    (free : d.held = []) (played : playAll commands d = some (turns, last)) : last.held = [] := by
  induction commands generalizing d turns with
  | nil =>
    cases played
    exact free
  | cons first rest ih =>
    obtain ⟨_, _, _, ended, rest, rfl⟩ := playAll_cons_eq_some_iff.mp played
    obtain ⟨_, _, ended', free⟩ := first.2.exists_play first.1 free
    cases ended.symm.trans ended'
    exact ih free rest

theorem Standing.exists_play {shown : Disk → Prop} {command : Instant × Command}
    {script : Script (Except Fault Report)} (standing : Standing known shown command script)
    {e : Disk} (setUp : e.SetUp known) (free : e.held = []) :
    ∃ outcome f, script.play e = some (outcome, f) := by
  cases standing with
  | fresh now command =>
    obtain ⟨outcome, f, ended, _⟩ := command.exists_play now free
    exact ⟨outcome, f, ended⟩
  | queued ok now c =>
    subst ok
    obtain ⟨outcome, f, ended, _⟩ := (Command.change c).exists_play now free
    exact ⟨outcome, f, (c.play_run_setUp now setUp).symm.trans ended⟩
  | @reading settings ok now question json =>
    have looks := (Workspace.looks_openStore settings.database).bind
      (fun s => Job.looks_ofExcept (question.answer s json))
    obtain ⟨outcome, ended⟩ := looks.play e
    exact ⟨outcome, e, ended⟩
  | answered => exact ⟨_, _, rfl⟩

theorem Serial.exists_play (serial : Serial commands d known crowd taken last) (free : d.held = [])
    {i : Nat} {script : Script (Except Fault Report)} (here : crowd.scripts[i]? = some script)
    (unfinished : script.isDone = false) :
    ∃ (j : Nat) (other : Script (Except Fault Report)) (outcome : Except Fault Report) (e : Disk),
      crowd.scripts[j]? = some other ∧ other.isDone = false ∧
        other.play crowd.disk = some (outcome, e) := by
  cases serial.phase with
  | @busy settings _ _ _ work ok split setUp works asks ended =>
    have going : (work.andThen (Job.release (Workspace.lockPath settings.database))).isDone =
        false := by
      cases work <;> rfl
    exact ⟨_, _, _, _, asks, going, works.play⟩
  | idle disk ended =>
    have waits := free_of_ended here unfinished ended
    have inside : i < commands.length :=
      serial.length ▸ (List.getElem?_eq_some_iff.mp here).1
    obtain ⟨script', here', standing⟩ :=
      serial.standing i _ (List.getElem?_eq_getElem inside) waits
    cases here.symm.trans here'
    obtain ⟨outcome, e, played⟩ := standing.exists_play serial.setUp
      (held_of_playAll free serial.session.played)
    exact ⟨i, script, outcome, e, here, unfinished, disk ▸ played⟩

theorem Serial.exists_finished (serial : Serial commands d known crowd taken last)
    (free : d.held = []) :
    ∃ schedule final, crowd.run schedule = some final ∧ final.Finished := by
  induction count : crowd.unfinished using Nat.strong_induction_on
    generalizing crowd taken last with
  | _ n ih =>
    by_cases all : crowd.Finished
    · exact ⟨[], crowd, rfl, all⟩
    have some := Nat.pos_of_ne_zero (mt Crowd.finished_iff.mpr all)
    obtain ⟨script, listed, going⟩ := List.countP_pos_iff.mp some
    obtain ⟨i, here⟩ := List.mem_iff_getElem?.mp listed
    obtain ⟨j, other, outcome, e, there, going, played⟩ :=
      serial.exists_play free here (by simpa using going)
    obtain ⟨first, granted, ran⟩ := Crowd.exists_run_of_play there played
    obtain ⟨_, _, serial', _⟩ := serial.run ran
    obtain ⟨rest, final, finishes, finished⟩ :=
      ih _ (count ▸ Crowd.unfinished_lt there going rfl) serial' rfl
    exact ⟨first ++ rest, final, by rw [Crowd.run_append, ran]; exact finishes, finished⟩

theorem Standing.of_isDone {shown : Disk → Prop} {command : Instant × Command}
    {script : Script (Except Fault Report)} (standing : Standing known shown command script)
    (done : script.isDone = true) :
    ∃ now question json outcome e, command = (now, .ask question json) ∧ script = .done outcome ∧
      shown e ∧ (question.run json).play e = some (outcome, e) := by
  cases standing with
  | fresh now command => cases command <;> cases done
  | queued ok now c => cases done
  | reading ok now question json => cases done
  | answered seen ended => exact ⟨_, _, _, _, _, rfl, rfl, seen, ended⟩

theorem Serial.ended (serial : Serial commands d known crowd taken last)
    (finished : crowd.Finished) :
    crowd.disk = last ∧ ∀ t ∈ taken, crowd.scripts[t.1]? = some (.done t.2.outcome) := by
  cases serial.phase with
  | idle disk ended => exact ⟨disk, ended⟩
  | @busy _ _ _ _ script _ _ _ _ asks =>
    have done := finished.isDone asks
    cases script <;> cases done

/-- When all have ended the session has all changes, and the questions were answered in it. -/
theorem Serial.answered (serial : Serial commands d known crowd taken last)
    (finished : crowd.Finished) {i : Nat} {command : Instant × Command}
    (listed : commands[i]? = some command) (free : i ∉ taken.map Prod.fst) :
    ∃ now question json outcome e, command = (now, .ask question json) ∧
      crowd.scripts[i]? = some (.done outcome) ∧ Shown known d (taken.map Prod.snd) last e ∧
      (question.run json).play e = some (outcome, e) := by
  obtain ⟨script, here, standing⟩ := serial.standing i command listed free
  obtain ⟨now, question, json, outcome, e, rfl, rfl, seen, ended⟩ :=
    standing.of_isDone (finished.isDone here)
  exact ⟨now, question, json, outcome, e, rfl, here, seen, ended⟩

end

/-- Commands at the same time, each with its number, however their requests fall between each other.
As long as nobody else holds a lock they can all come to an end from every moment. When they have,
there is an order of the changes, which is the order in which they were given the lock, such that
the disk and the outcomes of the changes are what they are when the changes are made one after
another in that order; a change that was not given the lock has failed. A question has the answer
that it has at one of the disks that are shown in the course of that, and at no moment has the
store's file shown anything else than it shows there. -/
theorem concurrent_changes_serialize (commands : List (Instant × Command)) (d : Disk)
    (directory : d.entryAt? d.here = some .directory) :
    (d.held = [] → ∀ schedule moment, (Crowd.start commands d).run schedule = some moment →
      ∃ more final, moment.run more = some final ∧ final.Finished) ∧
    ∀ schedule final, (Crowd.start commands d).run schedule = some final → final.Finished →
      ∃ order turns last,
        order.Nodup ∧ (∀ i, i ∈ order ↔ ∃ now c, commands[i]? = some (now, .change c)) ∧
        final.granted.Sublist order ∧
        playAll (order.filterMap (commands[·]?)) d = some (turns, last) ∧
        final.disk = last ∧
        List.Forall₂ (fun i turn => final.scripts[i]? = some (.done turn.outcome)) order turns ∧
        (∀ i ∈ order, i ∈ final.granted ∨
          ∃ fault, final.scripts[i]? = some (.done (.error fault))) ∧
        (∀ (i : Nat) (now : Instant) (question : Question) (json : Bool),
          commands[i]? = some (now, .ask question json) → ∃ e outcome,
            Shown d.settings d turns last e ∧ (question.run json).play e = some (outcome, e) ∧
            final.scripts[i]? = some (.done outcome)) ∧
        ∀ settings : Settings, d.settings = .ok settings → ∀ earlier moment, earlier <+: schedule →
          (Crowd.start commands d).run earlier = some moment →
          ∃ e, Shown d.settings d turns last e ∧
            moment.disk.read settings.database = e.read settings.database := by
  have begun : Serial commands d d.settings (.start commands d) [] d :=
    serial_start ⟨directory, rfl⟩
  refine ⟨fun free schedule moment ran => ?_, fun schedule final ran finished => ?_⟩
  · obtain ⟨_, _, serial, _⟩ := begun.run ran
    exact serial.exists_finished free
  obtain ⟨taken, last, serial, visible⟩ := begun.run ran
  obtain ⟨disk, ended⟩ := serial.ended finished
  refine ⟨taken.map Prod.fst, taken.map Prod.snd, last, serial.session.nodup, fun i => ⟨?_, ?_⟩,
    serial.granted, ?_, disk, ?_, ?_, ?_, fun settings known earlier moment isEarlier reached =>
      visible earlier moment isEarlier reached settings known⟩
  · intro given
    obtain ⟨t, listed, rfl⟩ := List.mem_map.mp given
    obtain ⟨command, c, change⟩ := serial.session.listed t listed
    exact ⟨t.2.now, c, change ▸ command⟩
  · rintro ⟨now, c, listed⟩
    by_contra free
    obtain ⟨_, _, _, _, _, same, _⟩ := serial.answered finished listed free
    cases same
  · have those : (taken.map Prod.fst).filterMap (commands[·]?) =
        taken.map (fun t => (t.2.now, t.2.command)) := by
      rw [List.filterMap_map, ← List.filterMap_eq_map]
      exact List.filterMap_congr (fun t listed => (serial.session.listed t listed).1)
    rw [those]
    exact serial.session.played
  · rw [List.forall₂_map_left_iff, List.forall₂_map_right_iff]
    exact List.forall₂_same.mpr ended
  · refine List.forall_mem_map.mpr (fun t given => ?_)
    refine (serial.refused t given).imp_right (fun ⟨fault, failed⟩ => ⟨fault, ?_⟩)
    rw [ended t given, failed]
  · intro i now question json listed
    have free : i ∉ taken.map Prod.fst := by
      intro given
      obtain ⟨t, member, rfl⟩ := List.mem_map.mp given
      obtain ⟨command, c, change⟩ := serial.session.listed t member
      cases (change ▸ command).symm.trans listed
    obtain ⟨_, _, _, outcome, e, same, here, seen, answered⟩ :=
      serial.answered finished listed free
    cases same
    exact ⟨e, outcome, seen, answered, here⟩

/-- Two who promote a version at the same time, and somebody who asks for the versions. -/
def rivals : List (Instant × Command) :=
  [(⟨60, 0⟩, .change (.promote "2")), (⟨120, 0⟩, .change (.promote "2")),
    (⟨0, 0⟩, .ask .versions false)]

/-- All three load their settings, and the second is given the lock, so that the first has to wait.
All come to an end, one promotion after the other, and one of them has promoted the version. -/
theorem rival_promotions_serialize :
    (desk "srgmap.json").entryAt? (desk "srgmap.json").here = some .directory ∧
    (desk "srgmap.json").held = [] ∧
    (Crowd.start rivals (desk "srgmap.json")).run [0, 1, 2, 1, 0] = none ∧
    ∃ (more : List Nat) (final : Crowd) (order : List Nat) (turns : List Turn) (last : Disk),
      (Crowd.start rivals (desk "srgmap.json")).run ([0, 1, 2, 1] ++ more) = some final ∧
      final.Finished ∧ order.Perm [0, 1] ∧
      playAll (order.filterMap (rivals[·]?)) (desk "srgmap.json") = some (turns, last) ∧
      final.disk = last ∧
      ∃ i ∈ order, final.scripts[i]? = some (.done (.ok (.remark "2 is now latest"))) := by
  have waits : ((Crowd.start rivals (desk "srgmap.json")).run [0, 1, 2, 1, 0]).isNone = true := by
    decide +kernel
  have goes : ((Crowd.start rivals (desk "srgmap.json")).run [0, 1, 2, 1]).isSome = true := by
    decide +kernel
  obtain ⟨moment, ran⟩ := Option.isSome_iff_exists.mp goes
  obtain ⟨ends, whole⟩ := concurrent_changes_serialize rivals (desk "srgmap.json") rfl
  obtain ⟨more, final, finishes, finished⟩ := ends rfl _ moment ran
  have ran' : (Crowd.start rivals (desk "srgmap.json")).run ([0, 1, 2, 1] ++ more) =
      some final := by
    rw [Crowd.run_append, ran]
    exact finishes
  obtain ⟨order, turns, last, nodup, changes, _, played, disk, same, _⟩ :=
    whole _ final ran' finished
  have both : order.Perm [0, 1] := by
    refine (List.perm_ext_iff_of_nodup nodup (by decide)).mpr (fun i => (changes i).trans ?_)
    match i with
    | 0 => simp [rivals]
    | 1 => simp [rivals]
    | 2 => simp [rivals]
    | _ + 3 => simp [rivals]
  refine ⟨rfl, rfl, Option.isNone_iff_eq_none.mp waits, more, final, order, turns, last, ran',
    finished, both, played, disk, ?_⟩
  cases same with
  | nil => cases both.length_eq
  | @cons i turn order turns first =>
    have listed : ∃ now, rivals[i]? = some (now, .change (.promote "2")) := by
      have those : i ∈ [0, 1] := both.subset List.mem_cons_self
      rw [List.mem_cons, List.mem_singleton] at those
      rcases those with rfl | rfl <;> exact ⟨_, rfl⟩
    obtain ⟨now, here⟩ := listed
    rw [List.filterMap_cons_some here] at played
    obtain ⟨_, _, _, ended, _, turned⟩ := playAll_cons_eq_some_iff.mp played
    obtain ⟨_, promoted⟩ := leads_onward.play now
    cases ended.symm.trans promoted
    cases turned
    exact ⟨i, List.mem_cons_self, first⟩

end SymbolAtlas
