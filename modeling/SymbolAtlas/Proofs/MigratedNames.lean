import SymbolAtlas.Proofs.TakenNames

/-! What a migration comes to. A version hands on each of its names once, in the order in which its
named members first have them, to another version whose members await the name. That its members
come to the same name several times makes no difference, and neither does a second migration, which
finds every name taken. -/
namespace SymbolAtlas.Store

/-- The names of one kind that are copied: those that members of the source have a final name for
and the target awaits one for, in the order of the source. -/
def copiedNames (s : Store) (source target : String) (kind : MemberKind) : List String :=
  (((s.membersOf source kind).filter (fun m => (s.finalName? m).isSome)).map
    (·.key.name)).eraseDups.filter (fun name => s.Awaiting ⟨target, kind, name⟩)

theorem filterMap_const {α β γ : Type} (f : α → Option β) (g : α → γ) (xs : List α) :
    xs.filterMap (fun x => (f x).map (fun _ => g x)) =
      (xs.filter (fun x => (f x).isSome)).map g := by
  induction xs with
  | nil => rfl
  | cons x xs ih => cases found : f x <;> simp [found, ih]

section

variable {s : Store}

theorem keys_carriedChanges (s : Store) (source target : String) (kind : MemberKind) :
    (s.carriedChanges source target kind).map NameChange.key =
      (((s.membersOf source kind).filter (fun m => (s.finalName? m).isSome)).map
        (·.key.name)).map (⟨target, kind, ·⟩) := by
  have named (m : MemberRecord) : (s.finalName? m).isSome = (s.lastRecord? m).isSome :=
    Option.isSome_map
  simp only [named]
  rw [carriedChanges, List.map_filterMap, List.map_map]
  simp only [Option.map_map]
  exact filterMap_const s.lastRecord? (fun m => (⟨target, kind, m.key.name⟩ : NameKey)) _

theorem Sound.keys_accepted_carriedChanges (sound : s.Sound) (source target : String)
    (kind : MemberKind) :
    (s.accepted (s.carriedChanges source target kind)).map NameChange.key =
      (s.copiedNames source target kind).map (⟨target, kind, ·⟩) := by
  let handed (name : String) : NameKey := ⟨target, kind, name⟩
  have apart (x y : String) : id (handed x) = id (handed y) ↔ id x = id y := by simp [handed]
  have first : (firsts NameChange.key (s.carriedChanges source target kind)).map NameChange.key =
      ((((s.membersOf source kind).filter (fun m => (s.finalName? m).isSome)).map
        (·.key.name)).eraseDups).map handed := by
    calc (firsts NameChange.key (s.carriedChanges source target kind)).map NameChange.key
        = firsts id ((s.carriedChanges source target kind).map NameChange.key) :=
          (firsts_map id NameChange.key _).symm
      _ = _ := by
          rw [keys_carriedChanges, firsts_map, firsts_congr apart, eraseDups_eq_firsts]
  have awaited (name : String) : s.awaitsName (handed name) = decide (s.Awaiting (handed name)) := by
    rw [Bool.eq_iff_iff, sound.awaitsName_iff, decide_eq_true_iff]
  have taken : (s.accepted (s.carriedChanges source target kind)).map NameChange.key =
      ((firsts NameChange.key (s.carriedChanges source target kind)).map NameChange.key).filter
        s.awaitsName := by
    rw [accepted_eq_filter, List.filter_map]
    rfl
  rw [taken, first, List.filter_map, copiedNames]
  simp only [Function.comp_def, awaited, handed]

theorem key_of_mem_carriedChanges {source target : String} {kind : MemberKind}
    {change : NameChange} (offered : change ∈ s.carriedChanges source target kind) :
    change.key.version = target ∧ change.key.kind = kind := by
  obtain ⟨m, _, made⟩ := List.mem_filterMap.mp offered
  obtain ⟨e, _, rfl⟩ := Option.map_eq_some_iff.mp made
  exact ⟨rfl, rfl⟩

theorem accepted_migration (s : Store) (source target : String) :
    s.accepted (s.migration source target) =
      MemberKind.all.flatMap (fun kind => s.accepted (s.carriedChanges source target kind)) :=
  s.accepted_flatMap_kinds (fun _ _ offered => (key_of_mem_carriedChanges offered).2) (by decide)

theorem Sound.ofChanges_migration (sound : s.Sound) (source target : String) :
    let copied := s.copiedNames source target
    NamesReport.ofChanges (s.accepted (s.migration source target)) =
      ⟨(copied .field).length, (copied .method).length, (copied .parameter).length⟩ := by
  intro copied
  have count (kind : MemberKind) :
      (s.accepted (s.carriedChanges source target kind)).length = (copied kind).length := by
    simpa using congrArg List.length (sound.keys_accepted_carriedChanges source target kind)
  rw [accepted_migration, ofChanges_flatMap_kinds, count, count, count]
  intro kind change taken
  exact (key_of_mem_carriedChanges (mem_of_mem_accepted taken).1).2

/-- Every name that a migration could copy is there after it, so that another has nothing to do. -/
theorem Sound.migrate_again (sound : s.Sound) {source target : String} (different : source ≠ target)
    (known : (s.version? source).isSome) (known' : (s.version? target).isSome)
    (now later : Instant) :
    let t := s.enterAll now (s.accepted (s.migration source target))
    (migrate later source target).applyTo t = (.ok .zero, t) := by
  intro t
  have taken : ∀ change ∈ s.accepted (s.migration source target),
      ∃ m ∈ s.members, m.key = change.key := sound.toIndexed.known_of_accepted
  have versions : t.versions = s.versions := (repointed_enterAll s now _).versions
  have apart : ∀ change ∈ s.accepted (s.migration source target), change.key.version ≠ source :=
    fun change listed => version_of_mem_migration listed ▸ different.symm
  have same : t.migration source target = s.migration source target := by
    rw [migration, funext (sound.carriedChanges_enterAll taken apart target)]
    rfl
  have none : t.accepted (t.migration source target) = [] := by
    rw [same]
    exact sound.toIndexed.accepted_again now _
  rw [(sound.enterAll now taken).migrate_eq different, none]
  · rfl
  · rw [version?, versions]
    exact known
  · rw [version?, versions]
    exact known'

end

/-- After any run a migration between two versions that are there succeeds. For every name that is
copied it makes one entry in the target, kind by kind and in the order of the source, with the
final name and the actor of the entry that the members of the source point at. The members of the
target that have such a name point at its entry; those that are named already and all members of
other versions are as they were. The report counts the copied names, and a second migration copies
none and changes nothing. -/
theorem migrate_copies_names (steps : List Step) {source target : String}
    (different : source ≠ target)
    (known : ((replay Step.run steps .empty).version? source).isSome)
    (known' : ((replay Step.run steps .empty).version? target).isSome) (now later : Instant) :
    let s := replay Step.run steps .empty
    let copied := s.copiedNames source target
    ∃ changes t, (migrate now source target).applyTo s =
        (.ok ⟨(copied .field).length, (copied .method).length, (copied .parameter).length⟩, t) ∧
      changes.map NameChange.key =
        MemberKind.all.flatMap (fun kind => (copied kind).map (⟨target, kind, ·⟩)) ∧
      (∀ change ∈ changes, ∀ m ∈ s.members,
        m.key = ⟨source, change.key.kind, change.key.name⟩ → ∃ e, s.lastRecord? m = some e ∧
          change.actor = e.change.actor ∧ change.final = e.change.final) ∧
      s.Receives now changes t ∧
      (∀ m ∈ s.members, (s.finalName? m).isSome ∨ m.key.version ≠ target →
        t.member? m.id = some m) ∧
      (migrate later source target).applyTo t = (.ok .zero, t) := by
  intro s copied
  have sound : s.Sound := sound_of_replay .empty steps
  have coherent : s.Coherent := coherent_of_replay steps
  have receives := sound.receives_accepted now (s.migration source target)
  refine ⟨_, _, ?_, ?_, ?_, receives, ?_, sound.migrate_again different known known' now later⟩
  · rw [sound.migrate_eq different known known', sound.ofChanges_migration]
  · rw [accepted_migration, List.map_flatMap]
    simp only [sound.keys_accepted_carriedChanges, copied]
  · intro change taken m member same
    refine coherent.lastRecord?_of_mem_migration sound (mem_of_mem_accepted taken).1 member
      (by rw [same]) ?_
    rw [same, ← version_of_mem_migration taken]
  · intro m member either
    apply receives.untouched m member
    rcases either with named | elsewhere
    · exact sound.not_mem_accepted_of_named member named
    · intro listed
      obtain ⟨change, taken, same⟩ := List.mem_map.mp listed
      exact elsewhere (same ▸ version_of_mem_migration taken)

/-- Both members of the override come to the name, which is copied once. The field has a name of
its own in the target and keeps it. -/
theorem migrate_copies_names_common :
    let own : RenameRequest := ⟨⟨"2", .field, "field_3_d"⟩, "own", false⟩
    let steps := commonTwice ++ [.operation (.rename (fun _ => false) ⟨100, 0⟩ "bob" own)]
    let s := replay Step.run steps .empty
    ∃ changes t, (migrate ⟨120, 0⟩ "1" "2").applyTo s = (.ok ⟨0, 1, 0⟩, t) ∧
      changes.map NameChange.key = [⟨"2", .method, "func_2_c"⟩] ∧
      s.Receives ⟨120, 0⟩ changes t ∧ (migrate ⟨150, 0⟩ "1" "2").applyTo t = (.ok .zero, t) := by
  intro own steps s
  obtain ⟨changes, t, answered, keys, _, receives, _, again⟩ :=
    migrate_copies_names steps (show "1" ≠ "2" by decide) (by decide +kernel) (by decide +kernel)
      ⟨120, 0⟩ ⟨150, 0⟩
  have copied : s.copiedNames "1" "2" .field = [] ∧
      s.copiedNames "1" "2" .method = ["func_2_c"] ∧ s.copiedNames "1" "2" .parameter = [] := by
    decide +kernel
  refine ⟨changes, t, ?_, ?_, receives, again⟩
  · simpa [s, copied] using answered
  · simpa [MemberKind.all, s, copied] using keys

end SymbolAtlas.Store
