import SymbolAtlas.Proofs.GraphIndexes
import SymbolAtlas.Proofs.MappedTypes

/-! Mapping class names and mapping them back. The classes of a graph with their names swapped make
a graph again, since no name stands twice on either side. A name goes through both graphs unchanged
when the first has it as an obfuscated name, whatever other classes have it as their intermediate
name, and also when the first does not know it on either side. A type is mapped by the name in it
alone, so what holds of names holds of descriptors. -/
namespace SymbolAtlas

/-- A class without members that has the names of another on the other sides. -/
def ClassSymbol.swapped (c : ClassSymbol) : ClassSymbol := .bare c.intermediate c.obfuscated

def Descriptor.classNames (d : Descriptor) : List String :=
  (d.arguments ++ [d.result]).filterMap TypeRef.className?

namespace Index

variable {α : Type} [Named α]

theorem Paired.pairwise {ix : Index α} (paired : ix.Paired) :
    ix.toList.Pairwise (fun x y => sharesName x y = false) := by
  have intermediate : (ix.toList.map Named.intermediate).Nodup :=
    paired.keyed.keys ▸ paired.keyed.nodup
  have obfuscated : (ix.toList.map Named.obfuscated).Nodup := by
    have nodup := paired.nodup
    rw [Table.keys, paired.listed, List.map_map] at nodup
    exact nodup
  refine ((List.pairwise_map.mp intermediate).and (List.pairwise_map.mp obfuscated)).imp ?_
  rintro x y ⟨first, second⟩
  simp [sharesName, first, second]

end Index

namespace Graph

/-- The classes of a graph with their names swapped, as a graph. -/
def reverse (g : Graph) : Except Fault Graph :=
  (g.classes.toList.map ClassSymbol.swapped).foldlM Graph.insertClass .empty

theorem foldlM_insertClass_ok {g : Graph} (paired : g.classes.Paired) {added : List ClassSymbol}
    (apart : (g.classes.toList ++ added).Pairwise (fun c d => Index.sharesName d c = false)) :
    ∃ r, added.foldlM Graph.insertClass g = .ok r ∧ r.classes.Paired ∧
      r.classes.toList = g.classes.toList ++ added := by
  induction added generalizing g with
  | nil => exact ⟨g, rfl, paired, (List.append_nil _).symm⟩
  | cons c added ih =>
    have fresh : ∀ d ∈ g.classes.toList, Index.sharesName c d = false :=
      fun d listed => (List.pairwise_append.mp apart).2.2 d listed c List.mem_cons_self
    rcases paired.insert_cases c with
      ⟨⟨d, listed, shared⟩, _⟩ | ⟨_, classes, accepted, paired', new⟩
    · rw [fresh d listed] at shared
      cases shared
    · have inserted : g.insertClass c = .ok { g with classes } := map_eq_ok.mpr ⟨_, accepted, rfl⟩
      have apart' :
          (classes.toList ++ added).Pairwise (fun c d => Index.sharesName d c = false) := by
        rwa [new, List.append_assoc]
      obtain ⟨r, made, kept, all⟩ := ih (g := { g with classes }) paired' apart'
      refine ⟨r, ?_, kept, ?_⟩
      · rw [List.foldlM_cons, inserted]
        exact made
      · rw [all]
        simp [new]

theorem reverse_ok {g : Graph} (paired : g.classes.Paired) :
    ∃ r, g.reverse = .ok r ∧ r.classes.Paired ∧
      r.classes.toList = g.classes.toList.map ClassSymbol.swapped := by
  refine foldlM_insertClass_ok Index.paired_empty (List.pairwise_map.mpr ?_)
  refine paired.pairwise.imp (fun {c d} apart => ?_)
  rw [← apart]
  simp only [Index.sharesName, Named.intermediate, Named.obfuscated, ClassSymbol.swapped,
    ClassSymbol.bare, eq_comm (a := d.obfuscated), eq_comm (a := d.intermediate), Bool.or_comm]

/-- Names that a graph maps apart: its obfuscated ones, and those that it maps nothing to. -/
def Reversible (g : Graph) (name : String) : Prop :=
  (∃ c ∈ g.classes.toList, c.obfuscated = name) ∨ ∀ c ∈ g.classes.toList, c.intermediate ≠ name

section

variable {g r : Graph} (finds : g.classes.Finds) (finds' : r.classes.Finds)
  (swapped : r.classes.toList = g.classes.toList.map ClassSymbol.swapped)
include finds finds' swapped

theorem mapClass_mapClass {name : String} (reversible : g.Reversible name) :
    r.mapClass (g.mapClass name) = name := by
  by_cases known : ∃ c ∈ g.classes.toList, c.obfuscated = name
  · obtain ⟨c, listed, rfl⟩ := known
    have back : c.swapped ∈ r.classes.toList := swapped ▸ List.mem_map_of_mem listed
    rw [mapClass_listed finds listed]
    exact mapClass_listed finds' back
  · have unlisted : ∀ c ∈ g.classes.toList, c.obfuscated ≠ name :=
      fun c listed same => known ⟨c, listed, same⟩
    have unknown := reversible.resolve_left known
    rw [mapClass_unlisted finds unlisted]
    refine mapClass_unlisted finds' (fun d listed => ?_)
    obtain ⟨c, there, rfl⟩ := List.mem_map.mp (swapped ▸ listed)
    exact unknown c there

theorem mapType_mapType {t : TypeRef} (known : t = .void ∨ t.Proper)
    (reversible : ∀ name ∈ t.className?, g.Reversible name) : r.mapType (g.mapType t) = t := by
  rcases known with rfl | proper
  · rfl
  cases proper with
  | primitive depth primitive => rw [mapType_primitive g depth primitive,
      mapType_primitive r depth primitive]
  | @object depth name closed =>
    have back := mapClass_mapClass finds finds' swapped
      (reversible _ (TypeRef.className?_object depth name))
    rw [mapType_object, mapType_object, String.ofList_toList, back, String.toList_ofList]

theorem mapDescriptor_mapDescriptor {d : Descriptor} (readable : d.Readable)
    (reversible : ∀ name ∈ d.classNames, g.Reversible name) :
    r.mapDescriptor (g.mapDescriptor d) = d := by
  have back : ∀ t ∈ d.arguments ++ [d.result], (t = .void ∨ t.Proper) →
      r.mapType (g.mapType t) = t := by
    refine fun t listed known => mapType_mapType finds finds' swapped known (fun name here => ?_)
    exact reversible name (List.mem_filterMap.mpr ⟨t, listed, here⟩)
  have arguments : (d.arguments.map g.mapType).map r.mapType = d.arguments := by
    rw [List.map_map]
    refine (List.map_congr_left (fun t listed => ?_)).trans (List.map_id _)
    exact back t (List.mem_append_left _ listed) (.inr (readable.arguments t listed))
  have result : r.mapType (g.mapType d.result) = d.result :=
    back d.result (List.mem_append_right _ (List.mem_singleton_self _)) readable.result
  simp only [mapDescriptor, arguments, result]

end

/-- The classes of a graph that was read make a graph with their names swapped, and a descriptor
whose classes the graph maps apart comes back from it, so no two of these are mapped to one. -/
theorem reverse_restores {lines : List (List Char)} {g : Graph} (read : readLines lines = .ok g) :
    ∃ r, g.reverse = .ok r ∧
      (∀ text d, Descriptor.read text = .ok d → (∀ name ∈ d.classNames, g.Reversible name) →
        r.mapDescriptor (g.mapDescriptor d) = d) ∧
      ∀ text text' d e, Descriptor.read text = .ok d → Descriptor.read text' = .ok e →
        (∀ name ∈ d.classNames, g.Reversible name) → (∀ name ∈ e.classNames, g.Reversible name) →
        g.mapDescriptor d = g.mapDescriptor e → d = e := by
  have paired : g.classes.Paired := (kept_wired.readLines wired_empty read).classes
  obtain ⟨r, made, paired', swapped⟩ := reverse_ok paired
  have back : ∀ text d, Descriptor.read text = .ok d →
      (∀ name ∈ d.classNames, g.Reversible name) → r.mapDescriptor (g.mapDescriptor d) = d :=
    fun text d known reversible => mapDescriptor_mapDescriptor paired.finds paired'.finds swapped
      (Descriptor.read_eq_ok_iff.mp known).2 reversible
  refine ⟨r, made, back, fun text text' d e known known' first second same => ?_⟩
  rw [← back text d known first, same, back text' e known' second]

/-- Two classes in a chain of names, and two that exchange theirs. -/
def chained : List (List Char) := ["a b", "b c", "p q", "q p"].map String.toList

theorem reverse_restores_chained :
    ∃ g d r, readLines chained = .ok g ∧ Descriptor.read "(La;[Lb;ILLib;)Lq;" = .ok d ∧
      (g.mapDescriptor d).encode = "(Lb;[Lc;ILLib;)Lp;" ∧ g.reverse = .ok r ∧
      r.mapDescriptor (g.mapDescriptor d) = d := by
  let g := (readLines chained).toOption.getD .empty
  let d := (Descriptor.read "(La;[Lb;ILLib;)Lq;").toOption.getD ⟨[], .void⟩
  have read : readLines chained = .ok g := by decide +kernel
  have known : Descriptor.read "(La;[Lb;ILLib;)Lq;" = .ok d := by decide +kernel
  have reversible : ∀ name ∈ d.classNames, (∃ c ∈ g.classes.toList, c.obfuscated = name) ∨
      ∀ c ∈ g.classes.toList, c.intermediate ≠ name := by
    decide +kernel
  obtain ⟨r, made, back, _⟩ := reverse_restores read
  exact ⟨g, d, r, read, known, by decide +kernel, made, back _ d known reversible⟩

end Graph

end SymbolAtlas
