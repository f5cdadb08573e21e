import SymbolAtlas.Graph.Remap
import SymbolAtlas.Proofs.PairedIndex
import SymbolAtlas.Proofs.TypeSpelling

/-! Class names inside types, before and after they are mapped. A type has a spelling unless its
class name is empty or has a semicolon in it, and a descriptor can be read back unless a name put
into it ends its type early or moves the last closing parenthesis. -/
namespace SymbolAtlas

namespace TypeRef

theorem element_object (depth : Nat) (name : List Char) :
    (object depth name).element = 'L' :: (name ++ [';']) :=
  element_behind (by simp)

theorem depth_object (depth : Nat) (name : List Char) : (object depth name).depth = depth := by
  rw [TypeRef.depth, object, List.takeWhile_append_of_pos (by simp)]
  simp

theorem className?_object (depth : Nat) (name : List Char) :
    (object depth name).className? = some (String.ofList name) := by
  simp [className?, element_object]

theorem element_primitive (depth : Nat) {c : Char} (known : isPrimitive c = true) :
    (primitive depth c).element = [c] := by
  have other : c ≠ '[' := ne_of_isPrimitive known rfl
  exact element_behind (by simpa using other)

theorem className?_primitive (depth : Nat) {c : Char} (known : isPrimitive c = true) :
    (primitive depth c).className? = none := by
  have other : c ≠ 'L' := ne_of_isPrimitive known rfl
  rw [className?, element_primitive depth known]
  split
  case h_1 rest same =>
    cases same
    exact absurd rfl other
  case h_2 => rfl

theorem object_injective {depth depth' : Nat} {name name' : List Char}
    (same : object depth name = object depth' name') : name = name' := by
  have names := congrArg className? same
  rwa [className?_object, className?_object, Option.some.injEq, String.ofList_inj] at names

theorem proper_object_iff {depth : Nat} {name : List Char} :
    (object depth name).Proper ↔ ';' ∉ name := by
  constructor
  · intro proper
    generalize same : object depth name = t at proper
    cases proper with
    | @primitive depth' c known =>
      have none := congrArg className? same
      rw [className?_object, className?_primitive depth' known] at none
      cases none
    | object depth' closed => exact object_injective same ▸ closed
  · exact .object depth

theorem spelled_primitive (depth : Nat) {c : Char} (known : isPrimitive c = true) :
    ∃ text, (primitive depth c).dottedSpelling = .ok text := by
  obtain ⟨word, -, spelled⟩ := spelled_letter depth (Descriptor.isPrimitive_iff.mp known) []
  exact ⟨_, map_eq_ok.mpr ⟨_, spelled, rfl⟩⟩

theorem spelled_object_iff {depth : Nat} {name : List Char} :
    (∃ text, (object depth name).dottedSpelling = .ok text) ↔ name ≠ [] ∧ ';' ∉ name := by
  constructor
  · rintro ⟨_, dotted⟩
    obtain ⟨text, spelled, -⟩ := map_eq_ok.mp dotted
    obtain ⟨word, spelled, -⟩ := spelling_behind_eq_ok_iff.mp spelled
    rcases spelling_opened_cases (name ++ [';']) with ⟨other, named, closed, same⟩ | refused
    · exact List.append_cancel_right same ▸ ⟨named, closed⟩
    · cases refused.symm.trans spelled
  · rintro ⟨named, closed⟩
    exact ⟨_, map_eq_ok.mpr ⟨_, spelled_class depth named closed, rfl⟩⟩

end TypeRef

namespace Graph

variable (g : Graph)

theorem mapType_object (depth : Nat) (name : List Char) :
    g.mapType (.object depth name) =
      .object depth (g.mapClass (String.ofList name)).toList := by
  simp only [mapType, TypeRef.className?_object, TypeRef.withClassName, TypeRef.depth_object]

theorem mapType_primitive (depth : Nat) {c : Char} (known : TypeRef.isPrimitive c = true) :
    g.mapType (.primitive depth c) = .primitive depth c := by
  rw [mapType, TypeRef.className?_primitive depth known]

theorem mapClass_cases (name : String) :
    (∃ c ∈ g.classes.toList, g.mapClass name = c.intermediate) ∨ g.mapClass name = name := by
  unfold mapClass
  cases found : g.classes.getObfuscated? name with
  | none => exact .inr rfl
  | some c =>
    obtain ⟨_, _, listed⟩ := Option.bind_eq_some_iff.mp found
    exact .inl ⟨c, List.mem_map_of_mem (Table.mem_of_get? listed), rfl⟩

section

variable {g} (finds : g.classes.Finds)
include finds

theorem mapClass_listed {c : ClassSymbol} (listed : c ∈ g.classes.toList) :
    g.mapClass c.obfuscated = c.intermediate := by
  have found : g.classes.getObfuscated? c.obfuscated = some c :=
    (finds.obfuscated _ c).mpr ⟨listed, rfl⟩
  rw [mapClass, found]
  rfl

theorem mapClass_unlisted {name : String} (unlisted : ∀ c ∈ g.classes.toList, c.obfuscated ≠ name) :
    g.mapClass name = name := by
  have missing : g.classes.getObfuscated? name = none := by
    refine Option.eq_none_iff_forall_ne_some.mpr (fun c found => ?_)
    obtain ⟨listed, named⟩ := (finds.obfuscated name c).mp found
    exact unlisted c listed named
  rw [mapClass, missing]
  rfl

end

variable {g} {t : TypeRef}

theorem spelled_mapType_iff (proper : t.Proper) :
    (∃ text, (g.mapType t).dottedSpelling = .ok text) ↔
      ∀ name ∈ t.className?, g.mapClass name ≠ "" ∧ ';' ∉ (g.mapClass name).toList := by
  cases proper with
  | primitive depth known =>
    rw [mapType_primitive g depth known, TypeRef.className?_primitive depth known]
    exact iff_of_true (TypeRef.spelled_primitive depth known) (fun name none => by cases none)
  | object depth =>
    rw [mapType_object, TypeRef.spelled_object_iff, TypeRef.className?_object]
    simp

theorem proper_mapType_iff (proper : t.Proper) :
    (g.mapType t).Proper ↔ ∀ name ∈ t.className?, ';' ∉ (g.mapClass name).toList := by
  cases proper with
  | primitive depth known =>
    rw [mapType_primitive g depth known, TypeRef.className?_primitive depth known]
    exact iff_of_true (.primitive depth known) (fun name none => by cases none)
  | object depth =>
    rw [mapType_object, TypeRef.proper_object_iff, TypeRef.className?_object]
    simp

/-- Whether a character plays a part in the codes of types, apart from the names of classes. -/
def marksType (c : Char) : Bool := c == '[' || c == 'L' || c == ';' || TypeRef.isPrimitive c

theorem mem_code_mapType_iff (proper : t.Proper) {c : Char} (other : marksType c = false) :
    c ∈ (g.mapType t).code ↔ ∃ name ∈ t.className?, c ∈ (g.mapClass name).toList := by
  simp only [marksType, Bool.or_eq_false_iff, beq_eq_false_iff_ne] at other
  obtain ⟨⟨⟨bracket, opens⟩, ends⟩, unknown⟩ := other
  cases proper with
  | @primitive depth p known =>
    have apart : c ≠ p := Ne.symm (TypeRef.ne_of_isPrimitive known unknown)
    rw [mapType_primitive g depth known, TypeRef.className?_primitive depth known]
    simp [TypeRef.primitive, bracket, apart]
  | object depth =>
    rw [mapType_object, TypeRef.className?_object]
    simp [TypeRef.object, bracket, opens, ends]

theorem className?_mapType (proper : t.Proper) :
    (g.mapType t).className? = t.className?.map g.mapClass := by
  cases proper with
  | primitive depth known =>
    rw [mapType_primitive g depth known, TypeRef.className?_primitive depth known]
    rfl
  | object depth => simp [mapType_object, TypeRef.className?_object]

theorem mapType_void : g.mapType .void = .void := rfl

theorem result_mapType_iff (result : t = .void ∨ t.Proper) :
    ((g.mapType t = .void ∨ (g.mapType t).Proper) ∧ ')' ∉ (g.mapType t).code) ↔
      ∀ name ∈ t.className?, ';' ∉ (g.mapClass name).toList ∧ ')' ∉ (g.mapClass name).toList := by
  rcases result with rfl | proper
  · exact iff_of_true ⟨.inl rfl, by rw [mapType_void]; decide⟩ (fun name none => by cases none)
  · rw [mem_code_mapType_iff proper (by decide)]
    constructor
    · rintro ⟨nothing | mapped, last⟩ name known
      · have kept := className?_mapType (g := g) proper
        rw [nothing, known] at kept
        cases kept
      · exact ⟨(proper_mapType_iff proper).mp mapped name known,
          fun paren => last ⟨name, known, paren⟩⟩
    · intro closed
      refine ⟨.inr ((proper_mapType_iff proper).mpr (fun name known => (closed name known).1)), ?_⟩
      rintro ⟨name, known, paren⟩
      exact (closed name known).2 paren

theorem mem_code_of_className? {name : String} (proper : t.Proper) (known : name ∈ t.className?)
    {c : Char} (member : c ∈ name.toList) : c ∈ t.code := by
  cases proper with
  | primitive depth unnamed =>
    rw [TypeRef.className?_primitive depth unnamed] at known
    cases known
  | object depth =>
    rw [TypeRef.className?_object] at known
    cases known
    rw [String.toList_ofList] at member
    simp [TypeRef.object, member]

theorem oneLine_mapType (oneLine : ∀ c ∈ g.classes.toList, '\n' ∉ c.intermediate.toList)
    (result : t = .void ∨ t.Proper) (free : '\n' ∉ t.code) : '\n' ∉ (g.mapType t).code := by
  rcases result with rfl | proper
  · exact free
  · rw [mem_code_mapType_iff proper (by decide)]
    rintro ⟨name, known, broken⟩
    rcases g.mapClass_cases name with ⟨c, listed, same⟩ | same
    · exact oneLine c listed (same ▸ broken)
    · exact free (mem_code_of_className? proper known (same ▸ broken))

/-- A descriptor that can be read can be read again after it was mapped, unless a name that came in
ends its type early or has a closing parenthesis in it behind the arguments. -/
theorem readable_mapDescriptor_iff {d : Descriptor}
    (oneLine : ∀ c ∈ g.classes.toList, '\n' ∉ c.intermediate.toList) (readable : d.Readable) :
    (g.mapDescriptor d).Readable ↔
      (∀ t ∈ d.arguments, ∀ name ∈ t.className?, ';' ∉ (g.mapClass name).toList) ∧
        ∀ name ∈ d.result.className?,
          ';' ∉ (g.mapClass name).toList ∧ ')' ∉ (g.mapClass name).toList := by
  rw [← result_mapType_iff readable.result]
  constructor
  · rintro ⟨arguments, result, last, _⟩
    refine ⟨fun t listed => ?_, result, last⟩
    exact (proper_mapType_iff (readable.arguments t listed)).mp
      (arguments _ (List.mem_map_of_mem listed))
  · rintro ⟨arguments, result, last⟩
    refine ⟨fun mapped listed => ?_, result, last, ?_⟩
    · obtain ⟨t, known, rfl⟩ := List.mem_map.mp listed
      exact (proper_mapType_iff (readable.arguments t known)).mpr (arguments t known)
    · have free := readable.oneLine
      simp only [Descriptor.code, List.mem_cons, List.mem_append, List.mem_flatMap, not_or,
        not_exists, not_and] at free ⊢
      refine ⟨by decide, fun mapped listed => ?_, by decide, ?_⟩
      · obtain ⟨t, known, rfl⟩ := List.mem_map.mp listed
        exact oneLine_mapType oneLine (.inr (readable.arguments t known)) (free.2.1 t known)
      · exact oneLine_mapType oneLine readable.result free.2.2.2

end Graph

end SymbolAtlas
