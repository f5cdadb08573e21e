import SymbolAtlas.Proofs.OperationEffect

/-! Sound stores: every id is a position, the name index is in order, and no member points past the
ledger. These are the checks of a stored text, and no operation can make a store that fails them.
Owners are not among them: a text may name any owner. -/
namespace SymbolAtlas

theorem Ledger.isConsistent_iff (l : Ledger) :
    l.isConsistent = true ↔ Placed LedgerEntry.id l.entries := by
  simp only [isConsistent, List.all_eq_true, beq_iff_eq, Prod.forall,
    List.mk_mem_zipIdx_iff_getElem?]
  exact ⟨fun h i e => h e i, fun h e i => h i e⟩

namespace Store

structure Sound (s : Store) : Prop extends Indexed s where
  classes : Placed ClassRecord.id s.classes
  entries : Placed LedgerEntry.id s.ledger.entries
  recorded : ∀ m ∈ s.members, ∀ change ∈ m.lastChange, change < s.ledger.size

theorem misplacedClass?_eq_none_iff (s : Store) :
    s.misplacedClass? = none ↔ Placed ClassRecord.id s.classes := by
  simp only [misplacedClass?, Option.map_eq_none_iff, List.find?_eq_none, bne_iff_ne, ne_eq,
    Decidable.not_not, Prod.forall, List.mk_mem_zipIdx_iff_getElem?]
  exact ⟨fun h i c => h c i, fun h c i => h i c⟩

theorem memberFlaw?_eq_none_iff (s : Store) (m : MemberRecord) (position : Nat) :
    s.memberFlaw? m position = none ↔
      m.id = position ∧ ∀ change ∈ m.lastChange, change < s.ledger.size := by
  unfold memberFlaw?
  by_cases place : m.id = position
  · cases last : m.lastChange <;> simp [place, Ledger.get?, Ledger.size]
  · simp [place]

theorem misplacedMember?_eq_none_iff (s : Store) :
    s.misplacedMember? = none ↔ Placed MemberRecord.id s.members ∧
      ∀ m ∈ s.members, ∀ change ∈ m.lastChange, change < s.ledger.size := by
  simp only [misplacedMember?, List.findSome?_eq_none_iff, Prod.forall,
    List.mk_mem_zipIdx_iff_getElem?, memberFlaw?_eq_none_iff]
  constructor
  · intro h
    refine ⟨fun i m atIndex => (h m i atIndex).1, fun m member => ?_⟩
    obtain ⟨i, atIndex⟩ := List.mem_iff_getElem?.mp member
    exact (h m i atIndex).2
  · intro h m i atIndex
    exact ⟨h.1 i m atIndex, h.2 m (List.mem_of_getElem? atIndex)⟩

theorem flaw?_eq_none_iff (s : Store) :
    s.flaw? = none ↔ Placed ClassRecord.id s.classes ∧
      (Placed MemberRecord.id s.members ∧
        ∀ m ∈ s.members, ∀ change ∈ m.lastChange, change < s.ledger.size) ∧
      Placed LedgerEntry.id s.ledger.entries := by
  have ordered : s.disorderedLedger? = none ↔ Placed LedgerEntry.id s.ledger.entries := by
    rw [← Ledger.isConsistent_iff]
    cases h : s.ledger.isConsistent <;> simp [disorderedLedger?, h]
  rw [flaw?, Option.or_eq_none_iff, Option.or_eq_none_iff, misplacedClass?_eq_none_iff,
    misplacedMember?_eq_none_iff, ordered, and_assoc]

theorem Sound.flaw?_eq_none {s : Store} (sound : s.Sound) : s.flaw? = none :=
  (flaw?_eq_none_iff s).mpr ⟨sound.classes, ⟨sound.placed, sound.recorded⟩, sound.entries⟩

theorem parse_eq_ok_iff {text : String} {s : Store} :
    parse text = .ok s ↔
      ∃ value, Json.read? text = some value ∧ ofJson? value = some s ∧ s.flaw? = none := by
  unfold parse
  cases read : Json.read? text with
  | none => simp
  | some value =>
    cases decoded : ofJson? value with
    | none => simp [decoded]
    | some t =>
      simp only [Option.bind_some, decoded, Option.some.injEq, exists_eq_left']
      cases flaw : t.flaw? with
      | none =>
        simp only [Except.ok.injEq]
        constructor
        · rintro rfl
          exact ⟨rfl, flaw⟩
        · exact fun h => h.1
      | some reason =>
        simp only [reduceCtorEq, false_iff, not_and]
        rintro rfl
        simp [flaw]

/-- Reading decodes the four lists one by one and makes the name index anew from the members. -/
theorem ofJson?_eq_some_iff {value : Json} {s : Store} :
    ofJson? value = some s ↔ ∃ classes history members versions,
      value.fields? ["classes", "history", "members", "versions"] =
        some [classes, history, members, versions] ∧
      Json.required (Json.arrayOf ClassRecord.ofJson?) classes = some s.classes ∧
      Json.required Ledger.ofJson? history = some s.ledger ∧
      Json.required (Json.arrayOf MemberRecord.ofJson?) members = some s.members ∧
      Json.required (Json.arrayOf VersionRecord.ofJson?) versions = some s.versions ∧
      s.names = .ofMembers s.members := by
  constructor
  · intro decoded
    simp only [ofJson?, Option.bind_eq_bind, Option.bind_eq_some_iff] at decoded
    obtain ⟨fields, parts, decoded⟩ := decoded
    split at decoded
    · simp only [Option.bind_eq_some_iff, Option.pure_def, Option.some.injEq] at decoded
      obtain ⟨classes, hClasses, ledger, hLedger, members, hMembers, versions, hVersions, rfl⟩ :=
        decoded
      exact ⟨_, _, _, _, parts, hClasses, hLedger, hMembers, hVersions, rfl⟩
    · cases decoded
  · rintro ⟨_, _, _, _, parts, classes, ledger, members, versions, names⟩
    simp only [ofJson?, parts, classes, ledger, members, versions, Option.bind_eq_bind,
      Option.bind_some, ← names, Option.pure_def]

theorem sound_of_parse {text : String} {s : Store} (read : parse text = .ok s) : s.Sound := by
  obtain ⟨value, _, decoded, flawless⟩ := parse_eq_ok_iff.mp read
  obtain ⟨_, _, _, _, _, _, _, _, _, names⟩ := ofJson?_eq_some_iff.mp decoded
  obtain ⟨classes, ⟨placed, recorded⟩, entries⟩ := (flaw?_eq_none_iff s).mp flawless
  exact ⟨⟨placed, names⟩, classes, entries, recorded⟩

theorem sound_empty : Sound .empty where
  toIndexed := indexed_empty
  classes := .nil
  entries := .nil
  recorded := by simp [empty]

theorem Origin.sound {s : Store} (origin : Origin s) : s.Sound := by
  cases origin with
  | empty => exact sound_empty
  | parsed read => exact sound_of_parse read

theorem kept_sound : Kept Sound where
  entered s now change _ sound := by
    refine ⟨sound.toIndexed.enter now change, sound.classes, sound.entries.concat rfl, ?_⟩
    intro m member latest points
    have grows := s.size_enter now change
    obtain ⟨old, hOld, rfl⟩ := mem_enter.mp member
    dsimp only at points
    split at points
    · cases points
      omega
    · have := sound.recorded old hOld latest points
      omega
  relocked s key locked sound := by
    refine ⟨sound.toIndexed.relock key locked, sound.classes, sound.entries, ?_⟩
    intro m member
    obtain ⟨old, hOld, rfl⟩ := mem_relock.mp member
    exact sound.recorded old hOld
  promoted s target sound :=
    ⟨kept_indexed.promoted s target sound.toIndexed, sound.classes, sound.entries, sound.recorded⟩
  imported s now version digest graph pending _ made sound := by
    have grown := grown_withVersion (Graph.pendingClasses_sound made) s now digest
    obtain ⟨added, members, newcomers⟩ := grown.members
    refine ⟨sound.toIndexed.withVersion now version digest pending,
      placed_classes_withVersion sound.classes now version digest pending, ?_, ?_⟩
    · rw [grown.ledger]
      exact sound.entries
    · rw [members, grown.ledger]
      intro m member change points
      rcases List.mem_append.mp member with earlier | later
      · exact sound.recorded m earlier change points
      · rw [(newcomers m later).unnamed] at points
        cases points

theorem Indexed.reload {s : Store} (indexed : s.Indexed) : s.reload.Indexed := by
  unfold Store.reload
  split
  case h_1 read => exact (sound_of_parse read).toIndexed
  case h_2 => exact indexed

theorem Sound.reload {s : Store} (sound : s.Sound) : s.reload.Sound := by
  unfold Store.reload
  split
  case h_1 read => exact sound_of_parse read
  case h_2 => exact sound

theorem Sound.run {s : Store} (sound : s.Sound) (op : Operation) : (op.run s).Sound :=
  kept_sound.run sound.toIndexed op sound

theorem Origin.indexed {s : Store} (origin : Origin s) : s.Indexed := origin.sound.toIndexed

/-- What effects keep, and what a store keeps that is written and read again, holds after every
run. -/
theorem Kept.replay_of_reread {property : Store → Prop} (kept : Kept property)
    (reread : ∀ {s t}, property s → parse s.document = .ok t → property t) {s : Store}
    (indexed : s.Indexed) (holds : property s) (steps : List Step) :
    property (replay Step.run steps s) := by
  refine (replay_invariant (fun s => s.Indexed ∧ property s) ?_ steps s ⟨indexed, holds⟩).2
  rintro step s ⟨indexed, holds⟩
  cases step with
  | operation op => exact ⟨indexed.run op, kept.run indexed op holds⟩
  | reload =>
    refine ⟨indexed.reload, ?_⟩
    change property s.reload
    unfold Store.reload
    split
    case h_1 read => exact reread holds read
    case h_2 => exact holds

theorem Kept.replay {property : Store → Prop} (kept : Kept property)
    (stored : ∀ {text s}, parse text = .ok s → property s) (empty : property .empty) {s : Store}
    (origin : Origin s) (steps : List Step) : property (replay Step.run steps s) := by
  have initial : property s := by
    cases origin with
    | empty => exact empty
    | parsed read => exact stored read
  exact kept.replay_of_reread (fun _ read => stored read) origin.indexed initial steps

/-- Every run from an empty store or a stored one stays among the sound stores. -/
theorem sound_of_replay {s : Store} (origin : Origin s) (steps : List Step) :
    (replay Step.run steps s).Sound :=
  kept_sound.replay sound_of_parse sound_empty origin steps

end Store

end SymbolAtlas
