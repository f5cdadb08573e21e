import SymbolAtlas.Proofs.StoreSoundness

/-! Looking members up by intermediate name after arbitrary edits. Edits reach below the operations:
they insert any record, append to the ledger and point members at it without any check of names. The
index stays in order all the same, since nothing but an insertion touches a key or an id. -/
namespace SymbolAtlas

inductive Edit where
  | insertMember (m : MemberRecord)
  | insertClass (version obfuscated intermediate : String)
  | record (now : Instant) (change : NameChange)
  | setLastChange (member change : Nat)
  | setLocked (member : Nat) (locked : Bool)
  | addVersion (now : Instant) (version digest : String)
  | operation (op : Operation)

def Edit.run : Edit → Store → Store
  | insertMember m, s => ((Store.addMember m).applyTo s).2
  | insertClass version obfuscated intermediate, s =>
    ((Store.addClass version obfuscated intermediate).applyTo s).2
  | record now change, s => ((Store.record now change).applyTo s).2
  | setLastChange member change, s => ((Store.setLastChange member change).applyTo s).2
  | setLocked member locked, s => ((Store.setLocked member locked).applyTo s).2
  | addVersion now version digest, s => ((Store.addVersion now version digest).applyTo s).2
  | operation op, s => op.run s

namespace Store

theorem Indexed.modifyMember {s : Store} (indexed : s.Indexed) (id : Nat)
    {f : MemberRecord → MemberRecord} (settles : Settles f) :
    ((modifyMember id f).applyTo s).2.Indexed := by
  rw [applyTo_modifyMember]
  cases s.member? id with
  | none => exact indexed
  | some _ => exact indexed.modify settles id

theorem Indexed.setLastChange {s : Store} (indexed : s.Indexed) (member change : Nat) :
    ((setLastChange member change).applyTo s).2.Indexed := by
  rw [applyTo_setLastChange]
  split
  · exact indexed
  · exact indexed.modifyMember member (settles_lastChange _)

theorem Indexed.addVersion {s : Store} (indexed : s.Indexed) (now : Instant)
    (version digest : String) : ((addVersion now version digest).applyTo s).2.Indexed := by
  rw [Store.addVersion, Update.applyTo_bind_ok (Update.applyTo_look s)]
  split
  · exact indexed
  split
  · exact indexed
  · exact indexed.congr rfl rfl

theorem Indexed.edit {s : Store} (indexed : s.Indexed) (edit : Edit) : (edit.run s).Indexed := by
  cases edit with
  | insertMember m => exact indexed.insertMember m
  | insertClass => exact indexed.congr rfl rfl
  | record => exact indexed.congr rfl rfl
  | setLastChange member change => exact indexed.setLastChange member change
  | setLocked member locked => exact indexed.modifyMember member (settles_locked locked)
  | addVersion now version digest => exact indexed.addVersion now version digest
  | operation op => exact indexed.run op

theorem Indexed.findMembers_intermediate {s : Store} (indexed : s.Indexed) (version : String)
    (kind : MemberKind) (owner : Option Nat) (name : String) :
    s.findMembers ⟨version, kind, owner⟩ (.intermediate name) =
      s.members.filter (fun m => m.key.version = version && m.key.kind = kind &&
        (owner.isNone || m.owner = owner) && m.key.name = name) := by
  rw [findMembers, indexed.membersNamed_eq, List.filter_filter]
  congr 1
  funext m
  rcases m.key with ⟨v, k, n⟩
  simp only [Scope.admits, NameKey.mk.injEq, Bool.decide_and]
  ac_rfl

/-- A lookup by intermediate name finds what a scan of all members in the order of their insertion
finds, each member once, and restricting it to an owner restricts the scan. -/
theorem lookup_eq_scan {s : Store} (origin : Origin s) (edits : List Edit) (version : String)
    (kind : MemberKind) (name : String) :
    let t := replay Edit.run edits s
    t.membersNamed ⟨version, kind, name⟩ =
        t.members.filter (fun m => m.key = ⟨version, kind, name⟩) ∧
      (t.membersNamed ⟨version, kind, name⟩).Nodup ∧
      ∀ owner, t.findMembers ⟨version, kind, owner⟩ (.intermediate name) =
        t.members.filter (fun m => m.key.version = version && m.key.kind = kind &&
          (owner.isNone || m.owner = owner) && m.key.name = name) := by
  have indexed : (replay Edit.run edits s).Indexed :=
    replay_invariant Indexed (fun edit _ indexed => indexed.edit edit) edits s origin.indexed
  refine ⟨indexed.membersNamed_eq _, ?_, fun owner => ?_⟩
  · rw [indexed.membersNamed_eq]
    exact indexed.placed.nodup.filter _
  · exact indexed.findMembers_intermediate version kind owner name

theorem lookup_eq_scan_inserted :
    let m := MemberRecord.plain ⟨"1", .field, "field_1_a"⟩ "a"
    let edits := [.insertMember m, .record ⟨0, 0⟩ ⟨m.key, "ann", "size"⟩,
      .insertMember (m.ownedBy 3), .setLastChange 1 0]
    let t := replay Edit.run edits .empty
    t.membersNamed m.key = t.members ∧
      t.findMembers ⟨"1", .field, some 3⟩ (.intermediate "field_1_a") = t.members.drop 1 := by
  intro m edits t
  obtain ⟨named, _, found⟩ := lookup_eq_scan .empty edits "1" .field "field_1_a"
  exact ⟨named.trans (by decide +kernel), (found (some 3)).trans (by decide +kernel)⟩

end Store

end SymbolAtlas
