import SymbolAtlas.Proofs.JsonRoundTrip
import SymbolAtlas.Proofs.RecordRoundTrip
import SymbolAtlas.Proofs.StoreSoundness

/-! Stores as they come back from their own documents. A document is read again exactly when all
numbers in it are words of 64 bits, and then only times can differ. Numbers that operations put into
a store are positions of records or arguments, so the lengths of its lists bound them. -/
namespace SymbolAtlas

theorem mapM_eq_some_iff {f : α → Option β} {xs : List α} {ys : List β} :
    xs.mapM f = some ys ↔ List.Forall₂ (fun x y => f x = some y) xs ys := by
  induction xs generalizing ys with
  | nil => simp [eq_comm]
  | cons x xs ih =>
    rw [List.mapM_cons, List.forall₂_cons_left_iff]
    simp only [Option.bind_eq_bind, Option.bind_eq_some_iff, ih, Option.pure_def, Option.some.injEq]
    constructor
    · rintro ⟨y, first, ys, rest, rfl⟩
      exact ⟨y, ys, first, rest, rfl⟩
    · rintro ⟨y, ys, first, rest, rfl⟩
      exact ⟨y, first, ys, rest, rfl⟩

theorem Json.arrayOf_map {decode : Json → Option β} {encode : α → Json} {xs : List α}
    {ys : List β} : arrayOf decode (.array (xs.map encode)) = some ys ↔
      List.Forall₂ (fun x y => decode (encode x) = some y) xs ys := by
  rw [arrayOf, items?, Option.bind_some, mapM_eq_some_iff, List.forall₂_map_left_iff]

theorem Json.origin_of_arrayOf {decode : Json → Option α} {value : Option Json} {xs : List α}
    (decoded : required (arrayOf decode) value = some xs) {x : α} (member : x ∈ xs) :
    ∃ part, decode part = some x := by
  obtain ⟨value, _, decoded⟩ := Option.bind_eq_some_iff.mp decoded
  obtain ⟨items, _, decoded⟩ := Option.bind_eq_some_iff.mp decoded
  obtain ⟨part, _, found⟩ := origin_of_forall₂ (mapM_eq_some_iff.mp decoded) member
  exact ⟨part, found⟩

theorem forall₂_and_eq {p : α → Prop} {xs ys : List α} :
    List.Forall₂ (fun x y => p x ∧ x = y) xs ys ↔ (∀ x ∈ xs, p x) ∧ xs = ys := by
  rw [List.forall₂_and_left, List.forall₂_eq_eq_eq]

namespace Store

/-- The second store is the first as read from its document. -/
structure Reread (s t : Store) : Prop where
  classes : (∀ c ∈ s.classes, c.id < UInt64.size) ∧ s.classes = t.classes
  entries : List.Forall₂ (fun e f => e.id < UInt64.size ∧
    ∃ recorded, Instant.read? e.recorded.text = some recorded ∧ { e with recorded } = f)
    s.ledger.entries t.ledger.entries
  members : (∀ m ∈ s.members, m.Addressable) ∧ s.members = t.members
  names : t.names = .ofMembers s.members
  versions : List.Forall₂ (fun v w =>
    ∃ imported, Instant.read? v.imported.text = some imported ∧ { v with imported } = w)
    s.versions t.versions

theorem ofJson?_toJson {s t : Store} : ofJson? s.toJson = some t ↔ Reread s t := by
  have fields : s.toJson.fields? ["classes", "history", "members", "versions"] =
      some [some (.array (s.classes.map ClassRecord.toJson)), some s.ledger.toJson,
        some (.array (s.members.map MemberRecord.toJson)),
        some (.array (s.versions.map VersionRecord.toJson))] :=
    Json.fields?_record (by simp)
  have history : s.ledger.toJson.fields? ["entries"] =
      some [some (.array (s.ledger.entries.map LedgerEntry.toJson))] :=
    Json.fields?_record (by simp)
  rw [ofJson?, fields, Option.bind_eq_bind, Option.bind_some]
  dsimp only
  simp only [Option.bind_eq_bind, Option.bind_some, Option.pure_def, Json.required,
    Option.bind_eq_some_iff, Ledger.ofJson?, history, Json.arrayOf_map, ClassRecord.ofJson?_toJson,
    MemberRecord.ofJson?_toJson, LedgerEntry.ofJson?_toJson, VersionRecord.ofJson?_toJson,
    forall₂_and_eq, Option.some.injEq]
  constructor
  · rintro ⟨_, ⟨classIds, rfl⟩, _, ⟨_, entries, rfl⟩, _, ⟨numbers, rfl⟩, _, versions, rfl⟩
    exact ⟨⟨classIds, rfl⟩, entries, ⟨numbers, rfl⟩, rfl, versions⟩
  · obtain ⟨_, _, _, _, _⟩ := t
    rintro ⟨⟨classIds, rfl⟩, entries, ⟨numbers, rfl⟩, rfl, versions⟩
    exact ⟨_, ⟨classIds, rfl⟩, _, ⟨_, entries, rfl⟩, _, ⟨numbers, rfl⟩, _, versions, rfl⟩

/-- Two lists related pair by pair agree in whatever the relation keeps. -/
theorem map_eq_of_forall₂ {related : α → β → Prop} {f : α → γ} {g : β → γ}
    (same : ∀ x y, related x y → f x = g y) {xs : List α} {ys : List β}
    (pairs : List.Forall₂ related xs ys) : xs.map f = ys.map g := by
  rw [← List.forall₂_eq_eq_eq, List.forall₂_map_left_iff, List.forall₂_map_right_iff]
  exact pairs.imp same

theorem Reread.entries_eq {s t : Store} (reread : Reread s t) :
    t.ledger.entries.map (fun e => (e.id, e.change)) =
      s.ledger.entries.map (fun e => (e.id, e.change)) := by
  refine (map_eq_of_forall₂ (fun e f related => ?_) reread.entries).symm
  obtain ⟨_, _, _, rfl⟩ := related
  rfl

theorem Reread.versions_eq {s t : Store} (reread : Reread s t) :
    t.versions.map VersionRecord.version = s.versions.map VersionRecord.version := by
  refine (map_eq_of_forall₂ (fun v w related => ?_) reread.versions).symm
  obtain ⟨_, _, rfl⟩ := related
  rfl

theorem parse_document_iff {s t : Store} :
    parse s.document = .ok t ↔ Reread s t ∧ t.flaw? = none := by
  have read : Json.read? s.document = some s.toJson :=
    Json.read?_write Json.Layout.blank_pretty s.toJson
  rw [parse_eq_ok_iff, read]
  simp [ofJson?_toJson]

/-- The owner and the argument position of every member lie below what the lists of the store, or a
word, can count. -/
def Grounded (s : Store) : Prop :=
  ∀ m ∈ s.members, (∀ i ∈ m.index, i < max UInt64.size s.extent) ∧
    ∀ o ∈ m.owner, o < max UInt64.size s.extent

end Store

theorem Json.optional_id?_lt {value : Option Json} {found : Option Nat}
    (decoded : optional id? value = some found) : ∀ n ∈ found, n < UInt64.size := by
  have word : ∀ value n, id? value = some n → n < UInt64.size := by
    intro value n decoded
    unfold id? at decoded
    split at decoded
    · split at decoded
      · cases decoded
        assumption
      · cases decoded
    · cases decoded
  rintro n member
  unfold optional at decoded
  split at decoded
  · cases decoded
    cases member
  · cases decoded
    cases member
  · obtain ⟨m, read, rfl⟩ := Option.map_eq_some_iff.mp decoded
    cases member
    exact word _ _ read

theorem MemberRecord.words_of_ofJson? {value : Json} {m : MemberRecord}
    (decoded : ofJson? value = some m) :
    (∀ i ∈ m.index, i < UInt64.size) ∧ ∀ o ∈ m.owner, o < UInt64.size := by
  obtain ⟨fields, _, decoded⟩ := Option.bind_eq_some_iff.mp decoded
  split at decoded
  · iterate 2 obtain ⟨_, _, decoded⟩ := Option.bind_eq_some_iff.mp decoded
    obtain ⟨_, index, decoded⟩ := Option.bind_eq_some_iff.mp decoded
    iterate 5 obtain ⟨_, _, decoded⟩ := Option.bind_eq_some_iff.mp decoded
    obtain ⟨_, owner, decoded⟩ := Option.bind_eq_some_iff.mp decoded
    iterate 3 obtain ⟨_, _, decoded⟩ := Option.bind_eq_some_iff.mp decoded
    cases decoded
    exact ⟨Json.optional_id?_lt index, Json.optional_id?_lt owner⟩
  · cases decoded

namespace Store

theorem grounded_of_parse {text : String} {s : Store} (read : parse text = .ok s) :
    s.Grounded := by
  obtain ⟨value, _, decoded, _⟩ := parse_eq_ok_iff.mp read
  intro m member
  obtain ⟨_, _, _, _, _, _, _, members, _, _⟩ := ofJson?_eq_some_iff.mp decoded
  obtain ⟨part, found⟩ := Json.origin_of_arrayOf members member
  obtain ⟨index, owner⟩ := MemberRecord.words_of_ofJson? found
  exact ⟨fun i member => Nat.lt_of_lt_of_le (index i member) (Nat.le_max_left _ _),
    fun o member => Nat.lt_of_lt_of_le (owner o member) (Nat.le_max_left _ _)⟩

theorem grounded_empty : Grounded .empty := by
  intro m member
  cases member

theorem Grounded.settled {s t : Store} (grounded : s.Grounded) (extent : t.extent = s.extent)
    (members : ∀ m ∈ t.members, ∃ old ∈ s.members, old.index = m.index ∧ old.owner = m.owner) :
    t.Grounded := by
  intro m member
  obtain ⟨old, hOld, index, owner⟩ := members m member
  rw [extent, ← index, ← owner]
  exact grounded old hOld

theorem kept_grounded : Kept Grounded where
  entered s now change _ grounded := by
    refine grounded.settled (by simp [extent, enter, mapKey]) ?_
    intro m member
    obtain ⟨old, hOld, rfl⟩ := mem_enter.mp member
    exact ⟨old, hOld, rfl, rfl⟩
  relocked s key locked grounded := by
    refine grounded.settled (by simp [extent, relock, mapKey]) ?_
    intro m member
    obtain ⟨old, hOld, rfl⟩ := mem_relock.mp member
    exact ⟨old, hOld, rfl, rfl⟩
  promoted _ _ grounded := grounded
  imported s now version digest graph pending _ made grounded := by
    have grown := grown_withVersion (Graph.pendingClasses_sound made) s now digest
    obtain ⟨added, members, newcomers⟩ := grown.members
    have extent : max UInt64.size s.extent ≤
        max UInt64.size (s.withVersion now version digest pending).extent := by
      have larger : s.extent ≤ (s.withVersion now version digest pending).extent :=
        grown.extent_le
      omega
    intro m member
    rw [members] at member
    rcases List.mem_append.mp member with earlier | later
    · obtain ⟨index, owner⟩ := grounded m earlier
      refine ⟨fun i member => ?_, fun o member => ?_⟩
      · exact Nat.lt_of_lt_of_le (index i member) extent
      · exact Nat.lt_of_lt_of_le (owner o member) extent
    · refine ⟨fun i member => ?_, fun o member => ?_⟩
      · exact Nat.lt_of_lt_of_le ((newcomers m later).index i member) (Nat.le_max_right _ _)
      · exact Nat.lt_of_lt_of_le ((newcomers m later).owner o member) (Nat.le_max_right _ _)

/-- No list is longer than a word of 64 bits can count. -/
structure Addressable (s : Store) : Prop where
  classes : s.classes.length ≤ UInt64.size
  entries : s.ledger.size ≤ UInt64.size
  members : s.members.length ≤ UInt64.size

def instants (s : Store) : List Instant :=
  s.versions.map VersionRecord.imported ++ s.ledger.entries.map LedgerEntry.recorded

theorem reread_self {s : Store} (sound : s.Sound) (grounded : s.Grounded)
    (addressable : s.Addressable) (clock : ∀ t ∈ s.instants, Instant.read? t.text = some t) :
    Reread s s where
  classes := by
    refine ⟨fun c member => ?_, rfl⟩
    exact Nat.lt_of_lt_of_le (sound.classes.id_lt member) addressable.classes
  entries := by
    refine List.forall₂_same.mpr (fun e member => ⟨?_, e.recorded, ?_, rfl⟩)
    · exact Nat.lt_of_lt_of_le (sound.entries.id_lt member) addressable.entries
    · exact clock _ (List.mem_append_right _ (List.mem_map_of_mem member))
  members := by
    have extent : max UInt64.size s.extent = UInt64.size :=
      Nat.max_eq_left (Nat.max_le.mpr ⟨addressable.classes, addressable.members⟩)
    refine ⟨fun m member => ?_, rfl⟩
    obtain ⟨index, owner⟩ := grounded m member
    rw [extent] at index owner
    exact ⟨Nat.lt_of_lt_of_le (sound.placed.id_lt member) addressable.members, index,
      fun change points => Nat.lt_of_lt_of_le (sound.recorded m member change points)
        addressable.entries, owner⟩
  names := sound.listed
  versions := by
    refine List.forall₂_same.mpr (fun v member => ⟨v.imported, ?_, rfl⟩)
    exact clock _ (List.mem_append_left _ (List.mem_map_of_mem member))

/-- A store that comes back as it was has ids that a word can hold, and so lists that it can. -/
theorem Reread.addressable {s : Store} (reread : Reread s s) (sound : s.Sound) :
    s.Addressable where
  classes := sound.classes.length_le reread.classes.1
  entries := sound.entries.length_le
    (fun e member => (List.forall₂_same.mp reread.entries e member).1)
  members := sound.placed.length_le (fun m member => (reread.members.1 m member).id)

/-- After any run in which times survive their texts, the document of the store is read back as that
very store. Nothing else can stand in the way but a list longer than a machine can hold. -/
theorem parse_document {start : Store} (origin : Origin start) (steps : List Step)
    (clock : ∀ t ∈ (replay Step.run steps start).instants, Instant.read? t.text = some t) :
    parse (replay Step.run steps start).document = .ok (replay Step.run steps start) ↔
      (replay Step.run steps start).Addressable := by
  have sound := sound_of_replay origin steps
  have grounded := kept_grounded.replay grounded_of_parse grounded_empty origin steps
  rw [parse_document_iff]
  constructor
  · exact fun read => read.1.addressable sound
  · exact fun addressable =>
      ⟨reread_self sound grounded addressable clock, sound.flaw?_eq_none⟩

theorem parse_document_specimen :
    parse (replay Step.run specimen .empty).document = .ok (replay Step.run specimen .empty) :=
  (parse_document .empty specimen (by decide +kernel)).mpr
    ⟨by decide +kernel, by decide +kernel, by decide +kernel⟩

end Store

end SymbolAtlas
