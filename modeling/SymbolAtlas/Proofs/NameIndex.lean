import Mathlib.Data.List.Basic
import SymbolAtlas.Proofs.Operation
import SymbolAtlas.Store.Query

/-! The name index against the records that it lists. In an indexed store every member stands at the
position that its id names and the index is the one that would be made anew; a name then finds what
a scan of all members finds. The index never depends on more than keys and ids. -/
namespace SymbolAtlas

/-- Everything stands at the position that its id names. -/
def Placed (id : α → Nat) (xs : List α) : Prop := ∀ i x, xs[i]? = some x → id x = i

namespace Placed

variable {id : α → Nat} {xs : List α}

theorem nil : Placed id [] := by simp [Placed]

theorem getElem?_id (placed : Placed id xs) {x : α} (member : x ∈ xs) : xs[id x]? = some x := by
  obtain ⟨i, atIndex⟩ := List.mem_iff_getElem?.mp member
  rw [placed i x atIndex, atIndex]

theorem id_lt (placed : Placed id xs) {x : α} (member : x ∈ xs) : id x < xs.length :=
  (List.getElem?_eq_some_iff.mp (placed.getElem?_id member)).1

theorem length_le (placed : Placed id xs) {bound : Nat} (below : ∀ x ∈ xs, id x < bound) :
    xs.length ≤ bound := by
  by_contra longer
  have inside : bound < xs.length := by omega
  have place := placed bound xs[bound] (List.getElem?_eq_getElem inside)
  have := below xs[bound] (List.getElem_mem inside)
  omega

theorem injective (placed : Placed id xs) {x y : α} (hx : x ∈ xs) (hy : y ∈ xs)
    (same : id x = id y) : x = y := by
  have := placed.getElem?_id hx
  rw [same, placed.getElem?_id hy] at this
  exact (Option.some.inj this).symm

theorem nodup (placed : Placed id xs) : xs.Nodup := by
  apply List.pairwise_iff_getElem.mpr
  intro i j hi hj before same
  have first := placed i xs[i] (List.getElem?_eq_getElem hi)
  have second := placed j xs[j] (List.getElem?_eq_getElem hj)
  rw [same] at first
  omega

theorem concat (placed : Placed id xs) {x : α} (last : id x = xs.length) :
    Placed id (xs ++ [x]) := by
  intro i y atIndex
  rw [List.getElem?_append] at atIndex
  split at atIndex
  · exact placed i y atIndex
  · obtain ⟨bound, rfl⟩ := List.getElem?_eq_some_iff.mp atIndex
    simp only [List.length_singleton] at bound
    simp only [List.getElem_singleton, last]
    omega

theorem map (placed : Placed id xs) {f : α → α} (keeps : ∀ x, id (f x) = id x) :
    Placed id (xs.map f) := by
  intro i y atIndex
  rw [List.getElem?_map, Option.map_eq_some_iff] at atIndex
  obtain ⟨x, atIndex, rfl⟩ := atIndex
  rw [keeps, placed i x atIndex]

theorem modify (placed : Placed id xs) {f : α → α} (keeps : ∀ x, id (f x) = id x) (at' : Nat) :
    Placed id (xs.modify at' f) := by
  intro i y atIndex
  rw [List.getElem?_modify, Option.map_eq_map, Option.map_eq_some_iff] at atIndex
  obtain ⟨x, atIndex, rfl⟩ := atIndex
  split
  · rw [keeps, placed i x atIndex]
  · exact placed i x atIndex

end Placed

namespace NameIndex

theorem getD_add (names : NameIndex) (m : MemberRecord) (key : NameKey) :
    ((names.add m).get? key).getD [] =
      (names.get? key).getD [] ++ if m.key = key then [m.id] else [] :=
  Table.getD_push names m.key key m.id

theorem ofMembers_concat (members : List MemberRecord) (m : MemberRecord) :
    ofMembers (members ++ [m]) = (ofMembers members).add m := by
  simp [ofMembers]

theorem getD_foldl_add (members : List MemberRecord) (names : NameIndex) (key : NameKey) :
    ((members.foldl add names).get? key).getD [] =
      (names.get? key).getD [] ++
        (members.filter (fun m => m.key = key)).map MemberRecord.id := by
  induction members generalizing names with
  | nil => simp
  | cons m members ih =>
    rw [List.foldl_cons, ih, getD_add]
    by_cases same : m.key = key <;> simp [same]

/-- The index made from a list of members lists the ids of each key in the order of the list. -/
theorem getD_ofMembers (members : List MemberRecord) (key : NameKey) :
    ((ofMembers members).get? key).getD [] =
      (members.filter (fun m => m.key = key)).map MemberRecord.id := by
  simpa [ofMembers] using getD_foldl_add members .empty key

theorem ofMembers_eq_foldl (members : List MemberRecord) :
    ofMembers members =
      (members.map (fun m => (m.key, m.id))).foldl (fun names p => names.push p.1 p.2) .empty := by
  rw [List.foldl_map]
  rfl

theorem ofMembers_congr {members others : List MemberRecord}
    (same : members.map (fun m => (m.key, m.id)) = others.map (fun m => (m.key, m.id))) :
    ofMembers members = ofMembers others := by
  rw [ofMembers_eq_foldl, ofMembers_eq_foldl, same]

end NameIndex

/-- A change of a member that leaves its place in the index alone. -/
def Settles (f : MemberRecord → MemberRecord) : Prop := ∀ m, (f m).key = m.key ∧ (f m).id = m.id

namespace Store

structure Indexed (s : Store) : Prop where
  placed : Placed MemberRecord.id s.members
  listed : s.names = .ofMembers s.members

theorem indexed_empty : Indexed .empty := ⟨.nil, rfl⟩

theorem Indexed.congr {s t : Store} (indexed : s.Indexed) (members : t.members = s.members)
    (names : t.names = s.names) : t.Indexed :=
  ⟨members ▸ indexed.placed, by rw [names, members, indexed.listed]⟩

theorem Indexed.insertMember {s : Store} (indexed : s.Indexed) (m : MemberRecord) :
    (s.insertMember m).1.Indexed where
  placed := indexed.placed.concat rfl
  listed := by
    change s.names.add _ = _
    rw [indexed.listed]
    exact (NameIndex.ofMembers_concat ..).symm

theorem Indexed.map {s : Store} (indexed : s.Indexed) {f : MemberRecord → MemberRecord}
    (settles : Settles f) : Indexed { s with members := s.members.map f } where
  placed := indexed.placed.map (fun m => (settles m).2)
  listed := by
    refine indexed.listed.trans (NameIndex.ofMembers_congr ?_)
    simp [settles _]

theorem Indexed.modify {s : Store} (indexed : s.Indexed) {f : MemberRecord → MemberRecord}
    (settles : Settles f) (id : Nat) : Indexed { s with members := s.members.modify id f } where
  placed := indexed.placed.modify (fun m => (settles m).2) id
  listed := by
    refine indexed.listed.trans (NameIndex.ofMembers_congr (List.ext_getElem? ?_))
    intro i
    rw [List.getElem?_map, List.getElem?_map, List.getElem?_modify, Option.map_eq_map,
      Option.map_map]
    congr 1
    funext m
    simp only [Function.comp]
    split <;> simp [settles m]

theorem Indexed.member?_id {s : Store} (indexed : s.Indexed) {m : MemberRecord}
    (member : m ∈ s.members) : s.member? m.id = some m :=
  indexed.placed.getElem?_id member

theorem Indexed.membersNamed_eq {s : Store} (indexed : s.Indexed) (key : NameKey) :
    s.membersNamed key = s.members.filter (fun m => m.key = key) := by
  rw [membersNamed, indexed.listed, NameIndex.getD_ofMembers, List.filterMap_map]
  have found : ∀ m ∈ s.members.filter (fun m => m.key = key),
      (s.member? ∘ MemberRecord.id) m = some m := by
    intro m member
    exact indexed.member?_id (List.mem_filter.mp member).1
  rw [List.filterMap_congr found, List.filterMap_some]

theorem Indexed.mem_membersNamed {s : Store} (indexed : s.Indexed) {key : NameKey}
    {m : MemberRecord} : m ∈ s.membersNamed key ↔ m ∈ s.members ∧ m.key = key := by
  simp [indexed.membersNamed_eq]

theorem mem_membersOf {s : Store} {version : String} {kind : MemberKind} {m : MemberRecord} :
    m ∈ s.membersOf version kind ↔
      m ∈ s.members ∧ m.key.version = version ∧ m.key.kind = kind := by
  rw [membersOf, List.mem_filter, Bool.and_eq_true, decide_eq_true_iff, decide_eq_true_iff,
    and_comm (a := m.key.kind = kind)]

end Store

end SymbolAtlas
