import SymbolAtlas.Proofs.NameLookup
import SymbolAtlas.Proofs.VersionContents

/-! Which version is the latest. In every store made by edits and reloads the versions are those that
were added, in the order of their addition, and one of them is marked: the last one that was
promoted, or the first one that was added if none ever was. The mark is kept on the records, so that
adding and promoting both have to mind the others. -/
namespace SymbolAtlas

/-- An edit of any kind, or a reload. -/
inductive EditStep where
  | edit (edit : Edit)
  | reload

def EditStep.run : EditStep → Store → Store
  | edit e => e.run
  | reload => Store.reload

namespace EditStep

def added : EditStep → Store → Option String
  | edit (.addVersion now version digest), s =>
    ((Store.addVersion now version digest).applyTo s).1.toOption.map (fun _ => version)
  | edit (.operation (.importGraph now version graph digest)), s =>
    ((Operation.importGraph now version graph digest).answer s).toOption.map (fun _ => version)
  | _, _ => none

def promoted : EditStep → Store → Option String
  | edit (.operation (.promote version)), s =>
    ((Operation.promote version).answer s).toOption.map (fun _ => version)
  | _, _ => none

end EditStep

/-- What a run collects from its steps, each in the store that it finds. -/
def collected (choose : EditStep → Store → Option α) : List EditStep → Store → List α
  | [], _ => []
  | step :: steps, s => (choose step s).toList ++ collected choose steps (step.run s)

/-- The name of a version, and whether it is the promoted one. -/
def VersionRecord.mark (v : VersionRecord) : String × Bool := (v.version, v.latest)

namespace Store

def marks (s : Store) : List (String × Bool) := s.versions.map VersionRecord.mark

/-- The versions have these names, and the current one alone is marked. -/
structure Marked (names : List String) (current : Option String) (s : Store) : Prop where
  marks : s.marks = names.map (fun name => (name, decide (some name = current)))
  nodup : names.Nodup
  allowed : latestWord ∉ names
  current_mem : ∀ name ∈ current, name ∈ names
  empty_of_none : current = none → names = []

theorem marked_empty : Marked [] none .empty :=
  ⟨rfl, .nil, List.not_mem_nil, by simp, fun _ => rfl⟩

theorem Marked.congr {names : List String} {current : Option String} {s t : Store}
    (marked : Marked names current s) (same : t.marks = s.marks) : Marked names current t :=
  { marked with marks := same.trans marked.marks }

namespace Marked

variable {names : List String} {current : Option String} {s : Store}

theorem versions (marked : Marked names current s) :
    s.versions.map VersionRecord.version = names := by
  have first := congrArg (List.map Prod.fst) marked.marks
  rw [Store.marks, List.map_map, List.map_map] at first
  exact first.trans (List.map_id names)

theorem latest_eq (marked : Marked names current s) {v : VersionRecord} (member : v ∈ s.versions) :
    v.latest = decide (some v.version = current) := by
  have listed : v.mark ∈ s.marks := List.mem_map_of_mem member
  rw [marked.marks] at listed
  obtain ⟨name, _, same⟩ := List.mem_map.mp listed
  obtain ⟨rfl, flag⟩ := Prod.mk.inj same
  exact flag.symm

theorem injective (marked : Marked names current s) {v w : VersionRecord} (hv : v ∈ s.versions)
    (hw : w ∈ s.versions) (same : v.version = w.version) : v = w :=
  List.inj_on_of_nodup_map (marked.versions.symm ▸ marked.nodup) hv hw same

theorem version?_eq_none_iff (marked : Marked names current s) {name : String} :
    s.version? name = none ↔ name ∉ names := by
  rw [← marked.versions, version?, List.find?_eq_none, List.mem_map]
  simp only [decide_eq_true_eq, not_exists, not_and]

theorem version?_of_mem (marked : Marked names current s) {v : VersionRecord}
    (member : v ∈ s.versions) : s.version? v.version = some v := by
  cases found : s.version? v.version with
  | none =>
    refine absurd ?_ (marked.version?_eq_none_iff.mp found)
    exact marked.versions ▸ List.mem_map_of_mem member
  | some w =>
    have same := List.find?_some found
    rw [marked.injective (List.mem_of_find?_eq_some found) member (of_decide_eq_true same)]

theorem latest?_map_version (marked : Marked names current s) :
    s.latest?.map VersionRecord.version = current := by
  cases found : s.latest? with
  | none =>
    cases current with
    | none => rfl
    | some name =>
      have known := marked.current_mem name rfl
      rw [← marked.versions] at known
      obtain ⟨v, member, rfl⟩ := List.mem_map.mp known
      have flag := marked.latest_eq member
      exact absurd (flag.trans (decide_eq_true rfl)) (List.find?_eq_none.mp found v member)
  | some v =>
    have flag := marked.latest_eq (List.mem_of_find?_eq_some found)
    have holds : v.latest = true := List.find?_some found
    rw [holds] at flag
    exact of_decide_eq_true flag.symm

theorem filter_latest (marked : Marked names current s) :
    (s.versions.filter VersionRecord.latest).map VersionRecord.version = current.toList := by
  have by_marks : (s.versions.filter VersionRecord.latest).map VersionRecord.version =
      (s.marks.filter Prod.snd).map Prod.fst := by
    rw [Store.marks, List.filter_map, List.map_map]
    rfl
  have by_names : (s.marks.filter Prod.snd).map Prod.fst =
      names.filter (fun name => some name = current) := by
    rw [marked.marks, List.filter_map, List.map_map]
    exact List.map_id _
  rw [by_marks, by_names]
  cases current with
  | none => rw [marked.empty_of_none rfl, List.filter_nil, Option.toList_none]
  | some name =>
    simp only [Option.some.injEq, Option.toList_some]
    rw [List.filter_eq, List.count_eq_one_of_mem marked.nodup (marked.current_mem name rfl),
      List.replicate_one]

theorem length_filter_latest (marked : Marked names current s) :
    (s.versions.filter VersionRecord.latest).length = min 1 s.versions.length := by
  have count : s.versions.length = names.length := by
    rw [← marked.versions, List.length_map]
  rw [← List.length_map VersionRecord.version, marked.filter_latest, count]
  cases current with
  | none => rw [marked.empty_of_none rfl, Option.toList_none, List.length_nil, Nat.min_zero]
  | some name =>
    have := List.length_pos_of_mem (marked.current_mem name rfl)
    rw [Option.toList_some, List.length_singleton]
    omega

theorem resolveVersion_latest_iff (marked : Marked names current s) :
    (∃ version, s.resolveVersion latestWord = .ok version) ↔ names ≠ [] := by
  have latest := marked.latest?_map_version
  rw [resolveVersion, if_pos rfl]
  cases found : s.latest? with
  | none =>
    rw [found, Option.map_none] at latest
    simp [marked.empty_of_none latest.symm]
  | some v =>
    rw [found, Option.map_some] at latest
    exact iff_of_true ⟨_, rfl⟩ (List.ne_nil_of_mem (marked.current_mem v.version latest.symm))

/-- Whatever a version is resolved to is the name of a record, and not the reserved one. -/
theorem resolveVersion_found (marked : Marked names current s) {version found : String}
    (resolved : s.resolveVersion version = .ok found) : s.resolveVersion found = .ok found := by
  have of_record {v : VersionRecord} (member : v ∈ s.versions) :
      s.resolveVersion v.version = .ok v.version := by
    have known : v.version ∈ names := marked.versions ▸ List.mem_map_of_mem member
    have allowed : v.version ≠ latestWord := fun same => marked.allowed (same ▸ known)
    rw [resolveVersion, if_neg allowed, marked.version?_of_mem member]
  rw [resolveVersion] at resolved
  split at resolved
  case h_1 v record =>
    cases resolved
    refine of_record ?_
    split at record
    · exact List.mem_of_find?_eq_some record
    · exact List.mem_of_find?_eq_some record
  case h_2 => cases resolved

theorem add (marked : Marked names current s) {t : Store} {version : String}
    (allowed : version ≠ latestWord) (fresh : s.version? version = none)
    (marks : t.marks = s.marks ++ [(version, s.latest?.isNone)]) :
    Marked (names ++ [version]) (current.or (some version)) t := by
  have new := marked.version?_eq_none_iff.mp fresh
  have flag : s.latest?.isNone = current.isNone := by
    rw [← marked.latest?_map_version, Option.isNone_map]
  refine ⟨?_, ?_, ?_, ?_, ?_⟩
  · rw [marks, marked.marks, flag, List.map_append, List.map_singleton]
    cases current with
    | none => simp [marked.empty_of_none rfl]
    | some name =>
      have other : version ≠ name := fun same => new (same ▸ marked.current_mem name rfl)
      simp [other]
  · rw [List.nodup_append]
    refine ⟨marked.nodup, List.nodup_singleton version, fun x known y last => ?_⟩
    rintro rfl
    exact new (List.mem_singleton.mp last ▸ known)
  · intro reserved
    rcases List.mem_append.mp reserved with known | last
    · exact marked.allowed known
    · exact allowed (List.mem_singleton.mp last).symm
  · intro name chosen
    cases current with
    | none =>
      cases chosen
      exact List.mem_append_right _ List.mem_cons_self
    | some old =>
      cases chosen
      exact List.mem_append_left _ (marked.current_mem name rfl)
  · cases current <;> simp

theorem promoteTo (marked : Marked names current s) {version : String} {target : Nat}
    (found : s.versions.findIdx? (fun v => v.version = version) = some target) :
    Marked names (some version) (s.promoteTo target) := by
  obtain ⟨bound, here, _⟩ := List.findIdx?_eq_some_iff_getElem.mp found
  have name : s.versions[target].version = version := of_decide_eq_true here
  -- names are distinct, so the place of a version tells its name and the other way round
  have at_target (i : Nat) (v : VersionRecord) (atIndex : s.versions[i]? = some v) :
      (i == target) = decide (some v.version = some version) := by
    by_cases same : i = target
    · subst same
      obtain ⟨_, rfl⟩ := List.getElem?_eq_some_iff.mp atIndex
      simp [name]
    · have apart : v.version ≠ version := by
        intro alike
        obtain ⟨inside, rfl⟩ := List.getElem?_eq_some_iff.mp atIndex
        have equal := marked.injective (List.getElem_mem inside) (List.getElem_mem bound)
          (alike.trans name.symm)
        have distinct : s.versions.Nodup := .of_map _ (marked.versions.symm ▸ marked.nodup)
        exact same ((distinct.getElem_inj_iff).mp equal)
      simp [same, apart]
  refine ⟨?_, marked.nodup, marked.allowed, ?_, fun none => by cases none⟩
  · rw [← marked.versions]
    apply List.ext_getElem?
    intro i
    simp only [Store.marks, Store.promoteTo, List.getElem?_map, List.getElem?_mapIdx,
      Option.map_map]
    cases atIndex : s.versions[i]? with
    | none => rfl
    | some v =>
      simp only [Option.map_some, Function.comp, VersionRecord.mark, at_target i v atIndex]
  · intro other chosen
    cases chosen
    rw [← marked.versions, ← name]
    exact List.mem_map_of_mem (List.getElem_mem bound)

end Marked

theorem applyTo_addVersion (now : Instant) (version digest : String) (s : Store) :
    (addVersion now version digest).applyTo s =
      if version = latestWord then
        (.error (.invalidQuery s!"`{latestWord}` is reserved and cannot name a version"), s)
      else if (s.version? version).isSome then (.error (.versionAlreadyImported version), s)
      else
        (.ok (), { s with versions := s.versions ++ [⟨digest, now, s.latest?.isNone, version⟩] }) := by
  rw [addVersion, Update.applyTo_bind_ok (Update.applyTo_look s)]
  split
  · rfl
  split <;> rfl

theorem marks_reload (s : Store) : s.reload.marks = s.marks := by
  unfold Store.reload
  split
  case h_1 read =>
    have reread := (parse_document_iff.mp read).1
    refine (map_eq_of_forall₂ (fun v w related => ?_) reread.versions).symm
    obtain ⟨_, _, rfl⟩ := related
    rfl
  case h_2 => rfl

theorem versions_named {s t : Store} (named : Named s t) : t.versions = s.versions := by
  induction named with
  | refl => rfl
  | enter _ now change _ ih => exact ih

end Store

namespace Operation

open Store

theorem versions_run {s : Store} (indexed : s.Indexed) {op : Operation}
    (notImport : op.importsGraph = false) (notPromote : op.promotes = false) :
    (op.run s).versions = s.versions := by
  cases op with
  | importGraph => cases notImport
  | promote => cases notPromote
  | importNames now version names actor =>
    rw [run, update, Update.applyTo_map, applyTo_importNames indexed]
    split
    · rfl
    · exact versions_named (Indexed.named_offers now _ indexed .refl)
  | migrate now source target =>
    rw [run, update, Update.applyTo_map, applyTo_migrate indexed]
    split
    · rfl
    split
    · rfl
    split
    · rfl
    · exact versions_named (Indexed.named_carries now source target _ indexed .refl)
  | rename admins now actor request =>
    rw [run, update, Update.applyTo_map, applyTo_rename indexed]
    cases s.judgeRename admins actor request with
    | error fault => rfl
    | ok outcome =>
      dsimp only
      split <;> rfl
  | setLocks admins actor key locked =>
    rw [run, update, Update.applyTo_map, applyTo_setLocks indexed]
    split
    · rfl
    split <;> rfl

end Operation

namespace Store

variable {names : List String} {current : Option String} {s : Store}

theorem Marked.importGraph (marked : Marked names current s) (now : Instant) (version : String)
    (graph : Graph) (digest : String) :
    let step := EditStep.edit (.operation (.importGraph now version graph digest))
    Marked (names ++ (step.added s).toList) (current.or (step.added s)) (step.run s) := by
  intro step
  change Marked (names ++ (((Operation.importGraph now version graph digest).update.applyTo
    s).1.toOption.map (fun _ => version)).toList) (current.or
      (((Operation.importGraph now version graph digest).update.applyTo s).1.toOption.map
        (fun _ => version))) ((Operation.importGraph now version graph digest).update.applyTo s).2
  rw [Operation.update, Update.applyTo_map]
  cases ran : (Store.importGraph now version graph digest).applyTo s with
  | mk answer t =>
    cases answer with
    | ok report =>
      obtain ⟨fresh, allowed, pending, made, _, rfl⟩ := importGraph_eq_ok_iff.mp ran
      have grown := grown_withVersion (Graph.pendingClasses_sound made) s now digest
      refine marked.add allowed fresh ?_
      rw [Store.marks, grown.versions, List.map_append]
      rfl
    | error fault =>
      have kept : t = s := by
        rw [applyTo_importGraph] at ran
        split at ran
        · exact (Prod.mk.inj ran).2.symm
        split at ran
        · exact (Prod.mk.inj ran).2.symm
        split at ran
        · exact (Prod.mk.inj ran).2.symm
        · cases (Prod.mk.inj ran).1
      simpa [kept, Except.map, Except.toOption] using marked

theorem Marked.promote (marked : Marked names current s) (version : String) :
    let step := EditStep.edit (.operation (.promote version))
    Marked names ((step.promoted s).or current) (step.run s) := by
  intro step
  change Marked names ((((Operation.promote version).update.applyTo s).1.toOption.map
    (fun _ => version)).or current) ((Operation.promote version).update.applyTo s).2
  rw [Operation.update, Update.applyTo_map, applyTo_promote]
  cases found : s.versions.findIdx? (fun v => v.version = version) with
  | none => exact marked
  | some target =>
    dsimp only
    split
    · exact marked
    · exact marked.promoteTo found

theorem Marked.addVersion (marked : Marked names current s) (now : Instant)
    (version digest : String) :
    let step := EditStep.edit (.addVersion now version digest)
    Marked (names ++ (step.added s).toList) (current.or (step.added s)) (step.run s) := by
  intro step
  change Marked (names ++ (((Store.addVersion now version digest).applyTo s).1.toOption.map
    (fun _ => version)).toList) (current.or (((Store.addVersion now version digest).applyTo
      s).1.toOption.map (fun _ => version))) ((Store.addVersion now version digest).applyTo s).2
  rw [applyTo_addVersion]
  split
  · simpa [Except.toOption] using marked
  split
  · simpa [Except.toOption] using marked
  case isFalse allowed fresh =>
    refine marked.add allowed (Option.not_isSome_iff_eq_none.mp fresh) ?_
    rw [Store.marks, List.map_append]
    rfl

/-- A step adds what it adds at the end, and a promotion alone takes the mark from its bearer. -/
theorem Marked.step (marked : Marked names current s) (indexed : s.Indexed) (step : EditStep) :
    Marked (names ++ (step.added s).toList) ((step.promoted s).or (current.or (step.added s)))
      (step.run s) := by
  have untouched {step : EditStep} (same : (step.run s).marks = s.marks)
      (nothing : step.added s = none ∧ step.promoted s = none) :
      Marked (names ++ (step.added s).toList) ((step.promoted s).or (current.or (step.added s)))
        (step.run s) := by
    rw [nothing.1, nothing.2, Option.toList_none, List.append_nil, Option.none_or, Option.or_none]
    exact marked.congr same
  cases step with
  | reload => exact untouched (marks_reload s) ⟨rfl, rfl⟩
  | edit e =>
    cases e with
    | insertMember => exact untouched rfl ⟨rfl, rfl⟩
    | insertClass => exact untouched rfl ⟨rfl, rfl⟩
    | record => exact untouched rfl ⟨rfl, rfl⟩
    | setLastChange member change =>
      refine untouched ?_ ⟨rfl, rfl⟩
      change Store.marks ((Store.setLastChange member change).applyTo s).2 = _
      rw [applyTo_setLastChange, applyTo_modifyMember]
      split
      · rfl
      split <;> rfl
    | setLocked member locked =>
      refine untouched ?_ ⟨rfl, rfl⟩
      change Store.marks ((Store.setLocked member locked).applyTo s).2 = _
      rw [Store.setLocked, applyTo_modifyMember]
      split <;> rfl
    | addVersion now version digest => exact marked.addVersion now version digest
    | operation op =>
      have kept (notImport : op.importsGraph = false) (notPromote : op.promotes = false) :
          (op.run s).marks = s.marks :=
        congrArg (List.map VersionRecord.mark) (op.versions_run indexed notImport notPromote)
      cases op with
      | importGraph now version graph digest => exact marked.importGraph now version graph digest
      | promote version =>
        have promoted := marked.promote version
        simpa [EditStep.added] using promoted
      | importNames => exact untouched (kept rfl rfl) ⟨rfl, rfl⟩
      | migrate => exact untouched (kept rfl rfl) ⟨rfl, rfl⟩
      | rename => exact untouched (kept rfl rfl) ⟨rfl, rfl⟩
      | setLocks => exact untouched (kept rfl rfl) ⟨rfl, rfl⟩

theorem Indexed.editStep (indexed : s.Indexed) (step : EditStep) : (step.run s).Indexed := by
  cases step with
  | edit e => exact indexed.edit e
  | reload => exact indexed.reload

theorem Marked.replay (marked : Marked names current s) (indexed : s.Indexed)
    (steps : List EditStep) :
    Marked (names ++ collected EditStep.added steps s)
      ((collected EditStep.promoted steps s).getLast?.or
        (current.or (collected EditStep.added steps s).head?))
      (replay EditStep.run steps s) := by
  induction steps generalizing names current s with
  | nil =>
    change Marked _ _ s
    simpa [collected] using marked
  | cons step steps ih =>
    have rest := ih (marked.step indexed step) (indexed.editStep step)
    have added : names ++ collected EditStep.added (step :: steps) s =
        names ++ (step.added s).toList ++ collected EditStep.added steps (step.run s) := by
      rw [collected, List.append_assoc]
    have bearer : (collected EditStep.promoted (step :: steps) s).getLast?.or
        (current.or (collected EditStep.added (step :: steps) s).head?) =
        (collected EditStep.promoted steps (step.run s)).getLast?.or
          (((step.promoted s).or (current.or (step.added s))).or
            (collected EditStep.added steps (step.run s)).head?) := by
      rw [collected, collected, List.getLast?_append, List.head?_append, Option.or_assoc,
        Option.or_assoc, Option.or_assoc]
      cases step.promoted s <;> cases step.added s <;> rfl
    rw [added, bearer]
    exact rest

/-- After any run of edits and reloads from the empty store the versions are those that were added,
all different and none with the reserved name. The promoted version is the target of the last
promotion, or the first version if there was none; its record alone is marked. A version that has
been resolved is resolved to itself. -/
theorem latest_eq_last_promoted (steps : List EditStep) :
    let s := replay EditStep.run steps .empty
    let added := collected EditStep.added steps .empty
    let latest := (collected EditStep.promoted steps .empty).getLast?.or added.head?
    s.versions.map VersionRecord.version = added ∧ added.Nodup ∧ latestWord ∉ added ∧
      (s.versions.filter VersionRecord.latest).map VersionRecord.version = latest.toList ∧
      (s.versions.filter VersionRecord.latest).length = min 1 s.versions.length ∧
      s.latest?.map VersionRecord.version = latest ∧
      ((∃ version, s.resolveVersion latestWord = .ok version) ↔ added ≠ []) ∧
      ∀ version found, s.resolveVersion version = .ok found → s.resolveVersion found = .ok found := by
  intro s added latest
  have marked : Marked added latest s := marked_empty.replay indexed_empty steps
  exact ⟨marked.versions, marked.nodup, marked.allowed, marked.filter_latest,
    marked.length_filter_latest, marked.latest?_map_version, marked.resolveVersion_latest_iff,
    fun _ _ resolved => marked.resolveVersion_found resolved⟩

/-- A refused promotion counts for nothing. -/
example :
    let steps : List EditStep :=
      [.edit (.addVersion ⟨0, 0⟩ "1" "a"), .edit (.addVersion ⟨60, 0⟩ "2" "b"),
        .edit (.operation (.promote "2")), .edit (.operation (.promote "3"))]
    collected EditStep.added steps .empty = ["1", "2"] ∧
      collected EditStep.promoted steps .empty = ["2"] ∧
      (replay EditStep.run steps .empty).resolveVersion latestWord = .ok "2" := by
  decide +kernel

end Store

end SymbolAtlas
