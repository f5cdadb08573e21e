import SymbolAtlas.Proofs.CarriedNames

/-! Reports against the ledger. A list of names and a count of named members are both made from what
the members point at, the one by name and the other member by member. In a store made by operations
a member points at the newest entry of its key, so both reports can be read off the histories of the
keys alone, and they tell the same. -/
namespace SymbolAtlas

def Summary.count (summary : Summary) : MemberKind → KindSummary
  | .field => summary.fields
  | .method => summary.methods
  | .parameter => summary.params

namespace Store

/-- A name with the newest final name in its history, if it has a history. -/
def recordedRow? (s : Store) (version : String) (kind : MemberKind) (name : String) :
    Option NameRow :=
  (s.history ⟨version, kind, name⟩).getLast?.map (fun e => ⟨name, e.change.final⟩)

theorem recordedRow?_isSome_iff {s : Store} {version : String} {kind : MemberKind}
    {name : String} :
    (s.recordedRow? version kind name).isSome ↔ s.history ⟨version, kind, name⟩ ≠ [] := by
  rw [recordedRow?, Option.isSome_map, List.getLast?_isSome]

theorem recordedRow?_eq_some_iff {s : Store} {version : String} {kind : MemberKind}
    {name : String} {row : NameRow} :
    s.recordedRow? version kind name = some row ↔ row.intermediate = name ∧
      (s.history ⟨version, kind, name⟩).getLast?.map (fun e => e.change.final) =
        some row.final := by
  rw [recordedRow?, Option.map_eq_some_iff, Option.map_eq_some_iff]
  constructor
  · rintro ⟨e, last, rfl⟩
    exact ⟨rfl, e, last, rfl⟩
  · rintro ⟨rfl, e, last, final⟩
    exact ⟨e, last, by rw [final]⟩

section

variable {s : Store} (coherent : s.Coherent) (sound : s.Sound)
include coherent sound

theorem Coherent.isNamed_iff {m : MemberRecord} (member : m ∈ s.members) :
    s.isNamed m = true ↔ s.history m.key ≠ [] := by
  rw [isNamed, coherent.finalName?_eq sound member, Option.isSome_map, List.getLast?_isSome]

theorem Coherent.namedRow?_eq {version : String} {kind : MemberKind} {m : MemberRecord}
    (member : m ∈ s.membersOf version kind) :
    s.namedRow? m = s.recordedRow? version kind m.key.name := by
  obtain ⟨listed, rfl, rfl⟩ := mem_membersOf.mp member
  rw [namedRow?, coherent.finalName?_eq sound listed, recordedRow?, Option.map_map]
  rfl

/-- The list of names has the names of the members, each at its first mention, that have a
history. -/
theorem Coherent.namesOf_eq (version : String) (kind : MemberKind) :
    s.namesOf version kind =
      ((s.membersOf version kind).map (·.key.name)).eraseDups.filterMap
        (s.recordedRow? version kind) := by
  have rows : (s.membersOf version kind).filterMap s.namedRow? =
      ((s.membersOf version kind).map (·.key.name)).filterMap (s.recordedRow? version kind) := by
    rw [List.filterMap_map]
    exact List.filterMap_congr (fun m member => coherent.namedRow?_eq sound member)
  calc s.namesOf version kind
      = firsts NameRow.intermediate ((s.membersOf version kind).filterMap s.namedRow?) :=
        s.entries_collectNames _
    _ = _ := by
        rw [rows, firsts_filterMap _ (fun _ _ row => (recordedRow?_eq_some_iff.mp row).1),
          eraseDups_eq_firsts]

theorem Coherent.map_intermediate_namesOf (version : String) (kind : MemberKind) :
    (s.namesOf version kind).map NameRow.intermediate =
      ((s.membersOf version kind).map (·.key.name)).eraseDups.filter
        (fun name => s.history ⟨version, kind, name⟩ ≠ []) := by
  rw [coherent.namesOf_eq sound, List.map_filterMap, ← List.filterMap_eq_filter]
  refine List.filterMap_congr (fun name _ => ?_)
  cases row : s.recordedRow? version kind name with
  | none =>
    have unnamed : ¬ s.history ⟨version, kind, name⟩ ≠ [] := by
      rw [← recordedRow?_isSome_iff, row]
      exact Bool.false_ne_true
    simp [Option.guard, not_not.mp unnamed]
  | some r =>
    have named : s.history ⟨version, kind, name⟩ ≠ [] :=
      recordedRow?_isSome_iff.mp (by rw [row]; rfl)
    simp [Option.guard, named, (recordedRow?_eq_some_iff.mp row).1]

theorem Coherent.summarizeKind_eq (version : String) (kind : MemberKind) :
    s.summarizeKind version kind =
      let counted := (s.membersOf version kind).filter
        (fun m => kind = .parameter || m.number?.isSome)
      ⟨(counted.filter (fun m => s.history m.key ≠ [])).length, counted.length⟩ := by
  have needed : (s.membersOf version kind).filter needsName =
      (s.membersOf version kind).filter (fun m => kind = .parameter || m.number?.isSome) := by
    refine List.filter_congr (fun m member => ?_)
    rw [needsName, (mem_membersOf.mp member).2.2]
  have named : ((s.membersOf version kind).filter needsName).filter s.isNamed =
      ((s.membersOf version kind).filter needsName).filter (fun m => s.history m.key ≠ []) := by
    refine List.filter_congr (fun m counted => Bool.eq_iff_iff.mpr ?_)
    have member := (mem_membersOf.mp (List.mem_filter.mp counted).1).1
    rw [coherent.isNamed_iff sound member, decide_eq_true_iff]
  rw [summarizeKind, named, needed]

end

theorem mapped_add_unmapped (s : Store) (version : String) (kind : MemberKind) :
    (s.summarizeKind version kind).mapped + (s.summarizeKind version kind).unmapped =
      (s.summarizeKind version kind).total :=
  Nat.add_sub_cancel' (List.length_filter_le _ _)

theorem rows_dump (s : Store) (version : String) (kind : MemberKind) :
    (s.dump version).names.rows kind = s.namesOf version kind := by
  cases kind <;> rfl

theorem count_summarize (s : Store) (version : String) (kind : MemberKind) :
    (s.summarize version).count kind = s.summarizeKind version kind := by
  cases kind <;> rfl

/-- After any run the names listed for a kind of a version are the names of its members that have a
history, each once, in the order of the members, and with the final name of the last entry. The
members that need a name are counted one by one, and those of them count as named whose history is
not empty. -/
theorem reports_agree_with_histories (steps : List Step) (version : String) (kind : MemberKind) :
    let s := replay Step.run steps .empty
    let records := s.members.filter (fun m => m.key.kind = kind && m.key.version = version)
    let rows := (s.dump version).names.rows kind
    let counted := records.filter (fun m => kind = .parameter || m.number?.isSome)
    let summary := (s.summarize version).count kind
    rows.map NameRow.intermediate = (records.map (·.key.name)).eraseDups.filter
        (fun name => s.history ⟨version, kind, name⟩ ≠ []) ∧
      (rows.map NameRow.intermediate).Nodup ∧
      (∀ row ∈ rows, (s.history ⟨version, kind, row.intermediate⟩).getLast?.map
        (fun e => e.change.final) = some row.final) ∧
      summary.total = counted.length ∧
      summary.mapped = (counted.filter (fun m => s.history m.key ≠ [])).length ∧
      summary.mapped + summary.unmapped = summary.total := by
  intro s records rows counted summary
  have coherent : s.Coherent := coherent_of_replay steps
  have sound : s.Sound := sound_of_replay .empty steps
  have listed : rows = s.namesOf version kind := s.rows_dump version kind
  have summed : summary = s.summarizeKind version kind := s.count_summarize version kind
  have names := coherent.map_intermediate_namesOf sound version kind
  have totals := coherent.summarizeKind_eq sound version kind
  refine ⟨listed ▸ names, ?_, ?_, ?_, ?_, ?_⟩
  · rw [listed, names, eraseDups_eq_firsts]
    refine List.Nodup.filter _ ?_
    simpa using nodup_map_firsts id ((s.membersOf version kind).map (·.key.name))
  · intro row member
    rw [listed, coherent.namesOf_eq sound] at member
    obtain ⟨name, _, made⟩ := List.mem_filterMap.mp member
    obtain ⟨rfl, final⟩ := recordedRow?_eq_some_iff.mp made
    exact final
  · rw [summed, totals]
    rfl
  · rw [summed, totals]
    rfl
  · rw [summed]
    exact s.mapped_add_unmapped version kind

/-- Both members of an override count, and their name is listed once. -/
example : let s := replay Step.run commonTwice .empty
    (s.summarize "1").count .method = ⟨2, 2⟩ ∧
      (s.dump "1").names.rows .method = [⟨"func_2_c", "open"⟩] := by
  decide +kernel

end Store

end SymbolAtlas
