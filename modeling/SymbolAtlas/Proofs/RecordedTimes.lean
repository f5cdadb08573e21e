import SymbolAtlas.Proofs.AppendOnly
import SymbolAtlas.Proofs.DocumentRoundTrip
import SymbolAtlas.Proofs.InstantRoundTrip

/-! The times in a store. They are read from a text or are the times of operations, so while the
clock shows times that the calendar has, all of them survive being written, and a store comes back
from its document as it was. -/
namespace SymbolAtlas

/-- The time at which an operation is done, where it keeps it. -/
def Operation.now? : Operation → Option Instant
  | importGraph now _ _ _ => some now
  | importNames now _ _ _ => some now
  | migrate now _ _ => some now
  | rename _ now _ _ => some now
  | promote _ => none
  | setLocks _ _ _ _ => none

theorem Instant.valid_of_field {field : Option Json} {t : Instant}
    (decoded : Json.required (fun v => v.text?.bind read?) field = some t) : t.Valid := by
  obtain ⟨value, _, decoded⟩ := Option.bind_eq_some_iff.mp decoded
  obtain ⟨text, _, read⟩ := Option.bind_eq_some_iff.mp decoded
  exact valid_of_read? read

theorem VersionRecord.valid_of_ofJson? {value : Json} {v : VersionRecord}
    (decoded : ofJson? value = some v) : v.imported.Valid := by
  obtain ⟨fields, _, decoded⟩ := Option.bind_eq_some_iff.mp decoded
  split at decoded
  · obtain ⟨_, _, decoded⟩ := Option.bind_eq_some_iff.mp decoded
    obtain ⟨imported, read, decoded⟩ := Option.bind_eq_some_iff.mp decoded
    iterate 2 obtain ⟨_, _, decoded⟩ := Option.bind_eq_some_iff.mp decoded
    cases decoded
    exact Instant.valid_of_field read
  · cases decoded

theorem LedgerEntry.valid_of_ofJson? {value : Json} {e : LedgerEntry}
    (decoded : ofJson? value = some e) : e.recorded.Valid := by
  obtain ⟨fields, _, decoded⟩ := Option.bind_eq_some_iff.mp decoded
  split at decoded
  · obtain ⟨_, _, decoded⟩ := Option.bind_eq_some_iff.mp decoded
    obtain ⟨recorded, read, decoded⟩ := Option.bind_eq_some_iff.mp decoded
    iterate 5 obtain ⟨_, _, decoded⟩ := Option.bind_eq_some_iff.mp decoded
    cases decoded
    exact Instant.valid_of_field read
  · cases decoded

theorem Ledger.valid_of_ofJson? {value : Json} {l : Ledger} (decoded : ofJson? value = some l)
    {e : LedgerEntry} (member : e ∈ l.entries) : e.recorded.Valid := by
  obtain ⟨fields, _, decoded⟩ := Option.bind_eq_some_iff.mp decoded
  split at decoded
  · obtain ⟨entries, read, same⟩ := Option.bind_eq_some_iff.mp decoded
    cases same
    obtain ⟨part, found⟩ := Json.origin_of_arrayOf read member
    exact LedgerEntry.valid_of_ofJson? found
  · cases decoded

namespace Store

def Timely (s : Store) : Prop := ∀ t ∈ s.instants, t.Valid

theorem timely_empty : Timely .empty := by
  intro t member
  cases member

theorem timely_of_parse {text : String} {s : Store} (read : parse text = .ok s) : s.Timely := by
  obtain ⟨value, _, decoded, _⟩ := parse_eq_ok_iff.mp read
  obtain ⟨_, _, _, _, _, _, ledger, _, versions, _⟩ := ofJson?_eq_some_iff.mp decoded
  intro t member
  rcases List.mem_append.mp member with imported | recorded
  · obtain ⟨v, listed, rfl⟩ := List.mem_map.mp imported
    obtain ⟨part, found⟩ := Json.origin_of_arrayOf versions listed
    exact VersionRecord.valid_of_ofJson? found
  · obtain ⟨e, listed, rfl⟩ := List.mem_map.mp recorded
    obtain ⟨part, _, found⟩ := Option.bind_eq_some_iff.mp ledger
    exact Ledger.valid_of_ofJson? found listed

theorem mem_instants_enterAll {s : Store} {now t : Instant} {changes : List NameChange}
    (member : t ∈ (s.enterAll now changes).instants) : t ∈ s.instants ∨ t = now := by
  rw [instants, (repointed_enterAll s now changes).versions, entries_enterAll, List.map_append,
    ← List.append_assoc] at member
  rcases List.mem_append.mp member with earlier | later
  · exact .inl earlier
  · obtain ⟨e, listed, rfl⟩ := List.mem_map.mp later
    obtain ⟨i, _, rfl⟩ := List.mem_mapIdx.mp listed
    exact .inr rfl

theorem mem_instants_nameless {s u : Store} {op : Operation} {t : Instant}
    (nameless : Nameless s op u) (member : t ∈ u.instants) : t ∈ s.instants ∨ t ∈ op.now? := by
  cases nameless with
  | refused => exact .inl member
  | relocked => exact .inl member
  | promoted target =>
    have versions : (s.promoteTo target).versions.map VersionRecord.imported =
        s.versions.map VersionRecord.imported := by
      have same := congrArg (List.map VersionRecord.imported) (fixed_promoteTo s target)
      rwa [List.map_map, List.map_map] at same
    rw [instants, versions] at member
    exact .inl member
  | @imported now version digest graph pending fresh made =>
    have grown := grown_withVersion (Graph.pendingClasses_sound made) s now digest
    rw [instants, grown.versions, grown.ledger, List.map_append] at member
    rcases List.mem_append.mp member with listed | recorded
    · rcases List.mem_append.mp listed with earlier | new
      · exact .inl (List.mem_append_left _ earlier)
      · exact .inr (congrArg some (List.mem_singleton.mp new).symm)
    · exact .inl (List.mem_append_right _ recorded)

theorem mem_instants_run {s : Store} (sound : s.Sound) {op : Operation} {t : Instant}
    (member : t ∈ (op.run s).instants) : t ∈ s.instants ∨ t ∈ op.now? := by
  cases op with
  | importGraph now version graph digest =>
    exact mem_instants_nameless (Operation.nameless_importGraph now version graph digest) member
  | promote version => exact mem_instants_nameless (Operation.nameless_promote version) member
  | setLocks admins actor key locked =>
    exact mem_instants_nameless
      (Operation.nameless_setLocks sound.toIndexed admins actor key locked) member
  | importNames now version names actor =>
    rw [Operation.run_importNames sound] at member
    exact (mem_instants_enterAll member).imp_right (fun same => congrArg some same.symm)
  | migrate now source target =>
    rw [Operation.run_migrate sound] at member
    exact (mem_instants_enterAll member).imp_right (fun same => congrArg some same.symm)
  | rename admins now actor request =>
    rw [Operation.run_rename sound.toIndexed] at member
    exact (mem_instants_enterAll member).imp_right (fun same => congrArg some same.symm)

theorem Timely.run {s : Store} (timely : s.Timely) (sound : s.Sound) {op : Operation}
    (clock : ∀ now ∈ op.now?, now.Valid) : (op.run s).Timely := by
  intro t member
  rcases mem_instants_run sound member with earlier | now
  · exact timely t earlier
  · exact clock t now

/-- A store with such times comes back from its document if its lists are not too long. -/
theorem parse_document_of_timely {s : Store} (sound : s.Sound) (grounded : s.Grounded)
    (timely : s.Timely) (addressable : s.Addressable) : parse s.document = .ok s := by
  have clock : ∀ t ∈ s.instants, Instant.read? t.text = some t :=
    fun t member => Instant.read?_text (timely t member)
  exact parse_document_iff.mpr
    ⟨reread_self sound grounded addressable clock, sound.flaw?_eq_none⟩

end Store

end SymbolAtlas
