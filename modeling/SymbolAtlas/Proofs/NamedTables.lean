import Mathlib.Data.List.Nodup
import SymbolAtlas.Table

/-! Tables whose keys are the names of their values. A key stands once in such a table, so a value is
found under its name and a change reaches one entry; the table stays so when a value is put in under
a new name and when a change leaves the names alone. -/
namespace SymbolAtlas.Table

variable {κ α : Type}

/-- Each value stands under its own name, and no two under one. -/
structure NamedBy (name : α → κ) (t : Table κ α) : Prop where
  named : ∀ e ∈ t.entries, name e.2 = e.1
  nodup : t.keys.Nodup

theorem namedBy_empty (name : α → κ) : NamedBy name empty :=
  ⟨fun _ member => absurd member List.not_mem_nil, List.nodup_nil⟩

theorem NamedBy.keys {name : α → κ} {t : Table κ α} (keyed : t.NamedBy name) :
    t.keys = t.values.map name := by
  rw [values, List.map_map]
  exact (List.map_congr_left (fun e member => keyed.named e member)).symm

variable [DecidableEq κ]

theorem mem_of_get? {t : Table κ α} {key : κ} {value : α} (found : t.get? key = some value) :
    (key, value) ∈ t.entries := by
  obtain ⟨entries⟩ := t
  rw [get?] at found
  induction entries with
  | nil => cases found
  | cons e rest ih =>
    rw [valueAt?] at found
    split at found
    case isTrue same =>
      cases found
      exact same ▸ List.mem_cons_self
    case isFalse => exact List.mem_cons_of_mem _ (ih found)

theorem nodup_insert {t : Table κ α} (nodup : t.keys.Nodup) (key : κ) (value : α) :
    (t.insert key value).keys.Nodup := by
  rw [keys_insert]
  split
  · exact nodup
  case isFalse absent =>
    refine List.nodup_append.mpr ⟨nodup, List.nodup_singleton _, ?_⟩
    intro a known b new same
    rw [List.mem_singleton.mp new] at same
    exact absent (same ▸ known)

theorem entries_insert_new {t : Table κ α} {key : κ} (absent : t.contains key = false)
    (value : α) : (t.insert key value).entries = t.entries ++ [(key, value)] := by
  rw [insert, absent]
  rfl

theorem get?_of_mem {t : Table κ α} (nodup : t.keys.Nodup) {e : κ × α} (member : e ∈ t.entries) :
    t.get? e.1 = some e.2 := by
  obtain ⟨value, found⟩ := Option.isSome_iff_exists.mp
    ((contains_iff_mem_keys t e.1).mpr (List.mem_map_of_mem member))
  have same := List.inj_on_of_nodup_map nodup (mem_of_get? found) member rfl
  rw [found, ← same]

theorem NamedBy.contains_iff {name : α → κ} {t : Table κ α} (keyed : t.NamedBy name) {key : κ} :
    t.contains key = true ↔ ∃ value ∈ t.values, name value = key := by
  rw [contains_iff_mem_keys, keyed.keys, List.mem_map]

theorem values_insert_new {t : Table κ α} {key : κ} (absent : t.contains key = false) (value : α) :
    (t.insert key value).values = t.values ++ [value] := by
  rw [values, entries_insert_new absent, List.map_append]
  rfl

theorem NamedBy.insert {name : α → κ} {t : Table κ α} (keyed : t.NamedBy name) {value : α}
    (absent : t.contains (name value) = false) : (t.insert (name value) value).NamedBy name where
  named e member := by
    rw [entries_insert_new absent] at member
    rcases List.mem_append.mp member with known | new
    · exact keyed.named e known
    · rw [List.mem_singleton.mp new]
  nodup := nodup_insert keyed.nodup _ _

theorem NamedBy.modify {name : α → κ} {t : Table κ α} (keyed : t.NamedBy name) {f : α → α}
    (same : ∀ value, name (f value) = name value) (key : κ) : (t.modify key f).NamedBy name where
  named e member := by
    obtain ⟨old, known, rfl⟩ := List.mem_map.mp member
    have kept := keyed.named old known
    split
    · exact (same old.2).trans kept
    · exact kept
  nodup := (keys_modify t key f).symm ▸ keyed.nodup

theorem NamedBy.get?_eq_some_iff {name : α → κ} {t : Table κ α} (keyed : t.NamedBy name) {key : κ}
    {value : α} : t.get? key = some value ↔ value ∈ t.values ∧ name value = key := by
  constructor
  · intro found
    have listed := mem_of_get? found
    exact ⟨List.mem_map_of_mem listed, keyed.named _ listed⟩
  · rintro ⟨listed, rfl⟩
    obtain ⟨e, member, rfl⟩ := List.mem_map.mp listed
    rw [keyed.named e member]
    exact get?_of_mem keyed.nodup member

theorem NamedBy.injective {name : α → κ} {t : Table κ α} (keyed : t.NamedBy name) {x y : α}
    (hx : x ∈ t.values) (hy : y ∈ t.values) (same : name x = name y) : x = y := by
  have first := keyed.get?_eq_some_iff.mpr ⟨hx, rfl⟩
  have second := keyed.get?_eq_some_iff.mpr ⟨hy, rfl⟩
  rw [same, second] at first
  exact (Option.some.inj first).symm

theorem NamedBy.values_modify {name : α → κ} {t : Table κ α} (keyed : t.NamedBy name) (key : κ)
    (f : α → α) :
    (t.modify key f).values = t.values.map (fun x => if name x = key then f x else x) := by
  rw [values, Table.modify, values, List.map_map, List.map_map]
  refine List.map_congr_left (fun e member => ?_)
  simp only [Function.comp, keyed.named e member]
  split <;> rfl

/-- The value that was put in last is found under its name, and it is the one that changes. -/
theorem NamedBy.last {name : α → κ} {t : Table κ α} (keyed : t.NamedBy name) {older : List α}
    {value : α} (last : t.values = older ++ [value]) :
    t.get? (name value) = some value ∧
      ∀ f, (t.modify (name value) f).values = older ++ [f value] := by
  have nodup := keyed.nodup
  rw [keyed.keys, last, List.map_append, List.nodup_append] at nodup
  have others : ∀ x ∈ older, name x ≠ name value := fun x member =>
    nodup.2.2 _ (List.mem_map_of_mem member) _ List.mem_cons_self
  refine ⟨keyed.get?_eq_some_iff.mpr ⟨by simp [last], rfl⟩, fun f => ?_⟩
  have kept : older.map (fun x => if name x = name value then f x else x) = older :=
    (List.map_congr_left (fun x member => if_neg (others x member))).trans (List.map_id _)
  rw [keyed.values_modify, last, List.map_append, kept]
  simp

end SymbolAtlas.Table
