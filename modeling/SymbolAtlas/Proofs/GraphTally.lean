import Mathlib.Algebra.GroupWithZero.Nat
import SymbolAtlas.Proofs.GraphChanges
import SymbolAtlas.Proofs.NamedTables

/-! The counts of a graph. How many fields and methods a graph has is told from its lists of owners,
which stand beside the classes. In every graph that is built from its three texts, whatever they
hold and even where a text broke off, the lists have each member of each class once, so the counts
are those of the classes. -/
namespace SymbolAtlas

namespace Table

variable {κ α : Type}

def total (weight : α → Nat) (t : Table κ α) : Nat := (t.values.map weight).sum

theorem size_values (t : Table κ α) : t.values.length = t.size := List.length_map _

variable [DecidableEq κ]

theorem size_insert_new {t : Table κ α} {key : κ} (absent : t.contains key = false) (value : α) :
    (t.insert key value).size = t.size + 1 := by
  rw [size, entries_insert_new absent, List.length_append]
  rfl

theorem total_insert_new {t : Table κ α} {key : κ} (absent : t.contains key = false)
    (weight : α → Nat) (value : α) :
    (t.insert key value).total weight = t.total weight + weight value := by
  simp [total, values, entries_insert_new absent]

theorem total_modify_same (t : Table κ α) (key : κ) (weight : α → Nat) (f : α → α)
    (same : ∀ value, weight (f value) = weight value) :
    (t.modify key f).total weight = t.total weight := by
  simp only [total, values, modify, List.map_map]
  congr 1
  refine List.map_congr_left (fun e _ => ?_)
  simp only [Function.comp]
  split
  · exact same e.2
  · rfl

/-- The changed value is the only one whose weight is exchanged. -/
theorem total_modify {t : Table κ α} (nodup : t.keys.Nodup) {key : κ} {value : α}
    (found : t.get? key = some value) (weight : α → Nat) (f : α → α) :
    (t.modify key f).total weight + weight value = t.total weight + weight (f value) := by
  obtain ⟨entries⟩ := t
  simp only [get?, keys, total, values, modify] at nodup found ⊢
  induction entries with
  | nil => cases found
  | cons e rest ih =>
    rw [List.map_cons, List.nodup_cons] at nodup
    rw [valueAt?] at found
    by_cases here : e.1 = key
    -- keys are distinct, so behind the entry of the key nothing is changed
    · rw [if_pos here] at found
      cases found
      have others : rest.map (fun e => if e.1 = key then (e.1, f e.2) else e) = rest := by
        refine (List.map_congr_left (fun other member => ?_)).trans (List.map_id _)
        exact if_neg (fun same : other.1 = key =>
          nodup.1 (here.trans same.symm ▸ List.mem_map_of_mem member))
      simp only [List.map_cons, List.sum_cons, if_pos here, others]
      omega
    · rw [if_neg here] at found
      have := ih nodup.2 found
      simp only [List.map_cons, List.sum_cons, if_neg here]
      omega

theorem total_push {t : Table κ (List α)} (nodup : t.keys.Nodup) (key : κ) (value : α) :
    (t.push key value).total List.length = t.total List.length + 1 := by
  cases found : t.get? key with
  | none =>
    have absent : t.contains key = false := by rw [contains, found]; rfl
    rw [push, found, total_insert_new absent]
    rfl
  | some listed =>
    have known : t.contains key = true := by rw [contains, found]; rfl
    have changed := total_modify nodup found List.length (fun _ => listed ++ [value])
    rw [List.length_append, List.length_singleton] at changed
    rw [push, insert, if_pos known, found, Option.getD_some]
    omega

/-- When a value gains one and a key is pushed for it, lists that balance the values still do. -/
theorem total_push_eq {lists : Table String (List String)} (listed : lists.keys.Nodup)
    {t : Table κ α} (nodup : t.keys.Nodup) {weight : α → Nat}
    (balance : lists.total List.length = t.total weight) {key : κ} {value : α}
    (found : t.get? key = some value) {f : α → α} (gain : weight (f value) = weight value + 1)
    (name owner : String) :
    (lists.push name owner).total List.length = (t.modify key f).total weight := by
  have pushed := total_push listed name owner
  have counted := total_modify nodup found weight f
  omega

end Table

namespace Index

variable {α : Type}

theorem length_toList (ix : Index α) : ix.toList.length = ix.size := Table.size_values _

variable [Named α]

theorem of_insert {ix new : Index α} {entry : α} (inserted : ix.insert entry = .ok new) :
    ix.byIntermediate.contains (Named.intermediate entry) = false ∧
      new.byIntermediate = ix.byIntermediate.insert (Named.intermediate entry) entry := by
  unfold insert at inserted
  dsimp only at inserted
  split at inserted
  · cases inserted
  case isFalse absent =>
    split at inserted
    · cases inserted
    · cases inserted
      exact ⟨Bool.eq_false_iff.mpr absent, rfl⟩

theorem size_insert {ix new : Index α} {entry : α} (inserted : ix.insert entry = .ok new) :
    new.size = ix.size + 1 := by
  obtain ⟨absent, tables⟩ := of_insert inserted
  rw [size, tables, Table.size_insert_new absent]
  rfl

end Index

namespace Graph

/-- Each class stands under its intermediate name, and no two under one. -/
structure Keyed (classes : Table String ClassSymbol) : Prop where
  named : ∀ e ∈ classes.entries, e.2.intermediate = e.1
  nodup : classes.keys.Nodup

theorem keyed_iff {classes : Table String ClassSymbol} :
    Keyed classes ↔ classes.NamedBy ClassSymbol.intermediate :=
  ⟨fun keyed => ⟨keyed.named, keyed.nodup⟩, fun keyed => ⟨keyed.named, keyed.nodup⟩⟩

/-- The owners of all field names, and of all method names, are as many as the classes have fields
and methods. -/
structure Tallied (g : Graph) : Prop where
  keyed : Keyed g.classes.byIntermediate
  fieldNames : g.fieldOwners.keys.Nodup
  methodNames : g.methodOwners.keys.Nodup
  fields : g.fieldOwners.total List.length = g.classes.byIntermediate.total (fun c => c.fields.size)
  methods :
    g.methodOwners.total List.length = g.classes.byIntermediate.total (fun c => c.methods.size)

theorem Keyed.modify {classes : Table String ClassSymbol} (keyed : Keyed classes)
    {f : ClassSymbol → ClassSymbol} (same : ∀ c, (f c).intermediate = c.intermediate)
    (name : String) : Keyed (classes.modify name f) :=
  keyed_iff.mpr ((keyed_iff.mp keyed).modify same name)

theorem Keyed.insert {classes : Table String ClassSymbol} (keyed : Keyed classes) {c : ClassSymbol}
    (absent : classes.contains c.intermediate = false) :
    Keyed (classes.insert c.intermediate c) :=
  keyed_iff.mpr ((keyed_iff.mp keyed).insert absent)

theorem tallied_empty : Tallied .empty where
  keyed := ⟨fun _ member => absurd member List.not_mem_nil, .nil⟩
  fieldNames := .nil
  methodNames := .nil
  fields := rfl
  methods := rfl

theorem Tallied.insertClass {g new : Graph} (tallied : g.Tallied) {obfuscated intermediate : String}
    (inserted : g.insertClass (.bare obfuscated intermediate) = .ok new) : new.Tallied := by
  obtain ⟨classes, made, rfl⟩ := map_eq_ok.mp inserted
  obtain ⟨absent, tables⟩ := Index.of_insert made
  refine ⟨?_, tallied.fieldNames, tallied.methodNames, ?_, ?_⟩
  · rw [tables]
    exact tallied.keyed.insert absent
  · rw [tables, Table.total_insert_new absent]
    exact tallied.fields
  · rw [tables, Table.total_insert_new absent]
    exact tallied.methods

theorem Tallied.modifyClass {g : Graph} (tallied : g.Tallied) (name : String)
    {f : ClassSymbol → ClassSymbol} (intermediate : ∀ c, (f c).intermediate = c.intermediate)
    (fields : ∀ c, (f c).fields.size = c.fields.size)
    (methods : ∀ c, (f c).methods.size = c.methods.size) :
    Tallied { g with classes := g.classes.modify name f } where
  keyed := tallied.keyed.modify intermediate name
  fieldNames := tallied.fieldNames
  methodNames := tallied.methodNames
  fields := tallied.fields.trans (Table.total_modify_same _ name _ f fields).symm
  methods := tallied.methods.trans (Table.total_modify_same _ name _ f methods).symm

theorem Tallied.addField {g : Graph} (tallied : g.Tallied) {name : String} {owner : ClassSymbol}
    (found : g.classes.get? name = some owner) (field : Field) :
    (g.addField name owner field).Tallied := by
  cases inserted : owner.fields.insert field with
  | error fault =>
    rw [Graph.addField, inserted]
    exact tallied
  | ok fields =>
    let grow (c : ClassSymbol) : ClassSymbol := { c with fields }
    have gain : (grow owner).fields.size = owner.fields.size + 1 := Index.size_insert inserted
    rw [Graph.addField, inserted]
    exact {
      keyed := tallied.keyed.modify (f := grow) (fun _ => rfl) name
      fieldNames := Table.nodup_insert tallied.fieldNames _ _
      methodNames := tallied.methodNames
      fields := Table.total_push_eq tallied.fieldNames tallied.keyed.nodup tallied.fields found
        (f := grow) gain field.intermediate name
      methods := tallied.methods.trans
        (Table.total_modify_same _ name (fun c => c.methods.size) grow (fun _ => rfl)).symm }

theorem Tallied.addMethod {g : Graph} (tallied : g.Tallied) {name : String} {owner : ClassSymbol}
    (found : g.classes.get? name = some owner) (method : Method) :
    (g.addMethod name owner method).Tallied := by
  by_cases known : owner.methods.contains method.intermediate = true
  · rw [Graph.addMethod, if_pos known]
    exact tallied
  · let grow (c : ClassSymbol) : ClassSymbol :=
      { c with methods := c.methods.insert method.intermediate method }
    have gain : (grow owner).methods.size = owner.methods.size + 1 :=
      Table.size_insert_new (Bool.eq_false_iff.mpr known) method
    rw [Graph.addMethod, if_neg known]
    exact {
      keyed := tallied.keyed.modify (f := grow) (fun _ => rfl) name
      fieldNames := tallied.fieldNames
      methodNames := Table.nodup_insert tallied.methodNames _ _
      fields := tallied.fields.trans
        (Table.total_modify_same _ name (fun c => c.fields.size) grow (fun _ => rfl)).symm
      methods := Table.total_push_eq tallied.methodNames tallied.keyed.nodup tallied.methods found
        (f := grow) gain method.intermediate name }

theorem kept_tallied : Kept Tallied where
  opened _ inserted tallied := tallied.insertClass inserted
  field f found _ tallied := tallied.addField found f
  method m found _ tallied := tallied.addMethod found m
  marked name owner tallied := by
    refine tallied.modifyClass owner (fun _ => rfl) (fun _ => rfl) (fun c => ?_)
    exact List.length_map _
  constructed c tallied := by
    refine tallied.modifyClass c.owner ?_ ?_ ?_ <;> exact fun _ => rfl

/-- Neither the lines of a graph nor the lists applied to it can put it out of balance. -/
theorem Built.tallied {g : Graph} (built : Built g) : g.Tallied :=
  kept_tallied.built tallied_empty built

theorem built_of_assemble {joined statics constructors : String} {g : Graph}
    (made : assemble joined statics constructors = .ok g) : g.Built := by
  unfold assemble at made
  cases opened : Graph.read joined with
  | error fault =>
    rw [opened] at made
    cases made
  | ok read =>
    rw [opened] at made
    dsimp only [bind, Except.bind] at made
    split at made
    case h_1 last _ applied =>
      cases made
      have built := ((Built.read opened).statics (Text.lines statics.toList)).constructors
        (Text.lines constructors.toList)
      rwa [applied] at built
    case h_2 => cases made

theorem Tallied.fieldCount {g : Graph} (tallied : g.Tallied) :
    g.fieldCount = (g.classes.toList.map (fun c => c.fields.size)).sum := by
  rw [Graph.fieldCount, List.length_flatten]
  exact tallied.fields

theorem Tallied.methodCount {g : Graph} (tallied : g.Tallied) :
    g.methodCount = (g.classes.toList.map (fun c => c.methods.size)).sum := by
  rw [Graph.methodCount, List.length_flatten]
  exact tallied.methods

end Graph

end SymbolAtlas
