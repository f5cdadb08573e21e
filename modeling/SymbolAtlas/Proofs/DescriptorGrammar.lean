import SymbolAtlas.Proofs.DescriptorReading

/-! The grammar of descriptors, said without the reader. It splits a text into the codes of the
arguments and that of the result. A class name may hold parentheses and brackets of its own, and
still there is one way at most to split a text: the result begins after the last closing
parenthesis, and a code tells where it ends. -/
namespace SymbolAtlas.Descriptor

/-- Brackets, then the letter of a primitive type or a class name between `L` and a semicolon. -/
inductive TypeCode : List Char → Prop where
  | primitive (depth : Nat) {c : Char} (known : c ∈ TypeRef.primitiveCodes) :
      TypeCode (List.replicate depth '[' ++ [c])
  | object (depth : Nat) {name : List Char} (closed : ';' ∉ name) :
      TypeCode (List.replicate depth '[' ++ 'L' :: (name ++ [';']))

/-- The text is a descriptor with these codes. -/
structure Split (s : List Char) (arguments : List (List Char)) (result : List Char) : Prop where
  parts : s = '(' :: (arguments.flatten ++ ')' :: result)
  types : ∀ code ∈ arguments, TypeCode code
  type : result = ['V'] ∨ TypeCode result
  last : ')' ∉ result
  oneLine : '\n' ∉ s

theorem isPrimitive_iff {c : Char} : TypeRef.isPrimitive c = true ↔ c ∈ TypeRef.primitiveCodes :=
  List.contains_iff_mem

theorem typeCode_iff {t : TypeRef} : TypeCode t.code ↔ t.Proper := by
  constructor
  · intro written
    obtain ⟨code⟩ := t
    cases written with
    | primitive depth known => exact .primitive depth (isPrimitive_iff.mpr known)
    | object depth closed => exact .object depth closed
  · intro proper
    cases proper with
    | primitive depth known => exact .primitive depth (isPrimitive_iff.mp known)
    | object depth closed => exact .object depth closed

theorem read_eq_ok_iff_split {text : String} {d : Descriptor} :
    Descriptor.read text = .ok d ↔
      Split text.toList (d.arguments.map TypeRef.code) d.result.code := by
  have void_iff : d.result = .void ↔ d.result.code = ['V'] := by
    obtain ⟨_, ⟨code⟩⟩ := d
    simp [TypeRef.void]
  rw [read_eq_ok_iff, encode, ← String.toList_inj, String.toList_ofList]
  constructor
  · rintro ⟨code, arguments, result, last, oneLine⟩
    refine ⟨?_, ?_, ?_, last, code ▸ oneLine⟩
    · rw [code, Descriptor.code, List.flatMap_def]
    · simpa [typeCode_iff] using arguments
    · rwa [← void_iff, typeCode_iff]
  · rintro ⟨parts, arguments, result, last, oneLine⟩
    have code : text.toList = d.code := by rw [parts, Descriptor.code, List.flatMap_def]
    refine ⟨code, ?_, ?_, last, code ▸ oneLine⟩
    · simpa [typeCode_iff] using arguments
    · rwa [void_iff, ← typeCode_iff]

theorem exists_read_of_split {text : String} {arguments : List (List Char)} {result : List Char}
    (split : Split text.toList arguments result) :
    ∃ d, Descriptor.read text = .ok d ∧ d.arguments.map TypeRef.code = arguments ∧
      d.result.code = result := by
  have codes : (arguments.map TypeRef.mk).map TypeRef.code = arguments := by
    simp [Function.comp_def]
  refine ⟨⟨arguments.map .mk, ⟨result⟩⟩, read_eq_ok_iff_split.mpr ?_, codes, rfl⟩
  rwa [codes]

/-- A text reads as a descriptor when the grammar splits it. The split is the only one, the codes
that are read are its codes, and the descriptor is written as the text. -/
theorem read_iff_split (text : String) :
    ((∃ d, Descriptor.read text = .ok d) ↔
        ∃ arguments result, Split text.toList arguments result) ∧
      ∀ arguments result, Split text.toList arguments result →
        (∃ d, Descriptor.read text = .ok d ∧ d.arguments.map TypeRef.code = arguments ∧
          d.result.code = result ∧ d.encode = text) ∧
        ∀ others last, Split text.toList others last → others = arguments ∧ last = result := by
  constructor
  · constructor
    · rintro ⟨d, read⟩
      exact ⟨_, _, read_eq_ok_iff_split.mp read⟩
    · rintro ⟨arguments, result, split⟩
      obtain ⟨d, read, _⟩ := exists_read_of_split split
      exact ⟨d, read⟩
  · intro arguments result split
    obtain ⟨d, read, rfl, rfl⟩ := exists_read_of_split split
    refine ⟨⟨d, read, rfl, rfl, (read_eq_ok_iff.mp read).1.symm⟩, ?_⟩
    intro others last another
    obtain ⟨d', again, rfl, rfl⟩ := exists_read_of_split another
    cases again.symm.trans read
    exact ⟨rfl, rfl⟩

/-- Parentheses and brackets inside a class name; the result is an array. -/
theorem read_iff_split_nested :
    let arguments := ["[[La)[(b;", "J"].map String.toList
    Split "([[La)[(b;J)[B".toList arguments "[B".toList ∧
      ∃ d, Descriptor.read "([[La)[(b;J)[B" = .ok d ∧ d.arguments.map TypeRef.code = arguments ∧
        d.result.code = "[B".toList ∧ d.encode = "([[La)[(b;J)[B" := by
  intro arguments
  have closed : ';' ∉ "a)[(b".toList := by decide
  have object : TypeCode "[[La)[(b;".toList := .object 2 closed
  have primitive : TypeCode "J".toList := .primitive 0 (by decide)
  have split : Split "([[La)[(b;J)[B".toList arguments "[B".toList :=
    ⟨by decide, by simpa [arguments] using ⟨object, primitive⟩, .inr (.primitive 1 (by decide)),
      by decide, by decide⟩
  exact ⟨split, ((read_iff_split _).2 _ _ split).1⟩

end SymbolAtlas.Descriptor
