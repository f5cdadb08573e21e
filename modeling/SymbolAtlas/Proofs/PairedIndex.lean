import SymbolAtlas.Graph.Index
import SymbolAtlas.Proofs.NamedTables

/-! Both sides of an index. An index keeps its entries by intermediate name and, beside them, lists
these names by obfuscated name. It is paired when the list is the one that the entries give and no
name stands twice on its side; a paired index finds its entries by either name, and it takes an
entry exactly when none of its entries has either of the two names. -/
namespace SymbolAtlas.Index

variable {α : Type} [Named α]

structure Paired (ix : Index α) : Prop where
  keyed : ix.byIntermediate.NamedBy Named.intermediate
  listed : ix.byObfuscated.entries =
    ix.toList.map (fun x => (Named.obfuscated x, Named.intermediate x))
  nodup : ix.byObfuscated.keys.Nodup

/-- Whether two entries agree in a name, on either side. -/
def sharesName (x y : α) : Bool :=
  Named.intermediate x = Named.intermediate y || Named.obfuscated x = Named.obfuscated y

theorem paired_empty : Paired (empty : Index α) :=
  ⟨Table.namedBy_empty _, rfl, List.nodup_nil⟩

theorem Paired.contains_obfuscated_iff {ix : Index α} (paired : ix.Paired) {name : String} :
    ix.byObfuscated.contains name = true ↔ ∃ x ∈ ix.toList, Named.obfuscated x = name := by
  rw [Table.contains_iff_mem_keys, Table.keys, paired.listed, List.map_map, List.mem_map]
  rfl

/-- Either side of the index finds the entries that have the name on that side, and no others. -/
structure Finds (ix : Index α) : Prop where
  intermediate : ∀ name x, ix.get? name = some x ↔ x ∈ ix.toList ∧ Named.intermediate x = name
  obfuscated : ∀ name x, ix.getObfuscated? name = some x ↔ x ∈ ix.toList ∧ Named.obfuscated x = name

theorem Paired.get?_eq_some_iff {ix : Index α} (paired : ix.Paired) {name : String} {x : α} :
    ix.get? name = some x ↔ x ∈ ix.toList ∧ Named.intermediate x = name :=
  paired.keyed.get?_eq_some_iff

theorem Paired.finds {ix : Index α} (paired : ix.Paired) : ix.Finds where
  intermediate name x := paired.get?_eq_some_iff
  obfuscated name x := by
    rw [getObfuscated?, Option.bind_eq_some_iff]
    constructor
    · rintro ⟨key, side, found⟩
      have pair := Table.mem_of_get? side
      rw [paired.listed] at pair
      obtain ⟨y, listed, same⟩ := List.mem_map.mp pair
      obtain ⟨rfl, rfl⟩ := Prod.mk.inj same
      obtain ⟨there, named⟩ := paired.keyed.get?_eq_some_iff.mp found
      exact ⟨there, congrArg Named.obfuscated (paired.keyed.injective there listed named)⟩
    · rintro ⟨listed, rfl⟩
      have pair : (Named.obfuscated x, Named.intermediate x) ∈ ix.byObfuscated.entries :=
        paired.listed ▸ List.mem_map_of_mem listed
      exact ⟨_, Table.get?_of_mem paired.nodup pair,
        paired.keyed.get?_eq_some_iff.mpr ⟨listed, rfl⟩⟩

theorem Paired.modify {ix : Index α} (paired : ix.Paired) {f : α → α}
    (same : ∀ x, Named.intermediate (f x) = Named.intermediate x ∧
      Named.obfuscated (f x) = Named.obfuscated x) (name : String) :
    (ix.modify name f).Paired where
  keyed := paired.keyed.modify (fun x => (same x).1) name
  listed := by
    refine paired.listed.trans ?_
    simp only [toList, Table.values, Index.modify, Table.modify, List.map_map]
    refine List.map_congr_left (fun e _ => ?_)
    simp only [Function.comp]
    split
    · simp only [(same e.2).1, (same e.2).2]
    · rfl
  nodup := paired.nodup

/-- The index refuses an entry that shares a name with another and puts any other one last. -/
theorem Paired.insert_cases {ix : Index α} (paired : ix.Paired) (entry : α) :
    ((∃ x ∈ ix.toList, sharesName entry x = true) ∧
        ∃ name, ix.insert entry = .error (.duplicateSymbol name)) ∨
      ((∀ x ∈ ix.toList, sharesName entry x = false) ∧
        ∃ new, ix.insert entry = .ok new ∧ new.Paired ∧ new.toList = ix.toList ++ [entry]) := by
  unfold insert
  dsimp only
  split
  case isTrue known =>
    obtain ⟨x, member, same⟩ := paired.keyed.contains_iff.mp known
    exact .inl ⟨⟨x, member, by simp [sharesName, same]⟩, _, rfl⟩
  case isFalse fresh =>
    split
    case isTrue known =>
      obtain ⟨x, member, same⟩ := paired.contains_obfuscated_iff.mp known
      exact .inl ⟨⟨x, member, by simp [sharesName, same]⟩, _, rfl⟩
    case isFalse unlisted =>
      have absent := Bool.eq_false_iff.mpr fresh
      have unknown := Bool.eq_false_iff.mpr unlisted
      have added := Table.values_insert_new absent entry
      refine .inr ⟨fun x member => ?_, _, rfl, ⟨?_, ?_, ?_⟩, added⟩
      · have first : Named.intermediate entry ≠ Named.intermediate x :=
          fun same => fresh (paired.keyed.contains_iff.mpr ⟨x, member, same.symm⟩)
        have second : Named.obfuscated entry ≠ Named.obfuscated x :=
          fun same => unlisted (paired.contains_obfuscated_iff.mpr ⟨x, member, same.symm⟩)
        simp [sharesName, first, second]
      · exact paired.keyed.insert absent
      · rw [toList, Table.entries_insert_new unknown, added, paired.listed, List.map_append]
        rfl
      · exact Table.nodup_insert paired.nodup _ _

end SymbolAtlas.Index
