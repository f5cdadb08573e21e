import SymbolAtlas.Proofs.MappedTypes

/-! Texts and their spellings. The reader of descriptors and the spelling tell the same types apart,
but for two things: a type without a class name has no spelling, and a primitive type is spelled
whatever follows its letter. A text that has no spelling is named in full by its fault. -/
namespace SymbolAtlas

namespace TypeRef

/-- Brackets, then the letter of a primitive type or a class name, and nothing more. -/
inductive OneType : List Char → Prop where
  | primitive (depth : Nat) {c : Char} (known : c ∈ primitiveCodes) :
      OneType (List.replicate depth '[' ++ [c])
  | object (depth : Nat) {name : List Char} (named : name ≠ []) (closed : ';' ∉ name) :
      OneType (List.replicate depth '[' ++ 'L' :: (name ++ [';']))

/-- The letter of a primitive type stands behind the brackets, and the text goes on. -/
inductive Overrun : List Char → Prop where
  | intro (depth : Nat) {c : Char} (known : c ∈ primitiveCodes)
      {rest : List Char} (more : rest ≠ []) : Overrun (List.replicate depth '[' ++ c :: rest)

theorem spelled_iff_code {code : List Char} :
    (∃ word, (mk code).spelling = .ok word) ↔ OneType code ∨ Overrun code := by
  constructor
  · rintro ⟨text, spelled⟩
    obtain ⟨depth, rest, rfl, front⟩ := exists_behind code
    obtain ⟨word, spelled, -⟩ := spelling_behind_eq_ok_iff.mp spelled
    have judged := judged_spelling front
    rw [spelled] at judged
    cases judged with
    | @keyword c _ listed rest =>
      have known := mem_primitiveCodes_iff.mpr ⟨word, listed⟩
      by_cases more : rest = []
      · exact .inl (more ▸ .primitive depth known)
      · exact .inr (.intro depth known more)
    | name named closed => exact .inl (.object depth named closed)
  · rintro (one | longer)
    · cases one with
      | primitive depth known =>
        obtain ⟨word, -, spelled⟩ := spelled_letter depth known []
        exact ⟨_, spelled⟩
      | object depth named closed => exact ⟨_, spelled_class depth named closed⟩
    · cases longer with
      | @intro depth _ known rest =>
        obtain ⟨word, -, spelled⟩ := spelled_letter depth known rest
        exact ⟨_, spelled⟩

theorem element_letter {depth : Nat} {c : Char}
    (known : c ∈ primitiveCodes) (rest : List Char) :
    (mk (List.replicate depth '[' ++ c :: rest)).element = c :: rest := by
  have bracket : c ≠ '[' := ne_of_isPrimitive (Descriptor.isPrimitive_iff.mpr known) rfl
  exact element_behind (by simpa using bracket)

theorem OneType.element {code : List Char} (one : OneType code) :
    (∃ c, (mk code).element = [c]) ∨ ∃ rest, (mk code).element = 'L' :: rest := by
  cases one with
  | @primitive depth c known => exact .inl ⟨c, element_letter known []⟩
  | object depth => exact .inr ⟨_, element_behind (by simp)⟩

theorem not_oneType_of_overrun {code : List Char} (longer : Overrun code) : ¬ OneType code := by
  intro one
  have element := one.element
  cases longer with
  | @intro depth c known rest more =>
    have letter : c ≠ 'L' := ne_of_isPrimitive (Descriptor.isPrimitive_iff.mpr known) rfl
    simp [element_letter known, more, letter] at element

theorem oneType_iff {t : TypeRef} : OneType t.code ↔ t.Proper ∧ t.className? ≠ some "" := by
  constructor
  · intro one
    obtain ⟨code⟩ := t
    cases one with
    | primitive depth known =>
      have primitive := Descriptor.isPrimitive_iff.mpr known
      have unnamed := className?_primitive depth primitive
      exact ⟨.primitive depth primitive, fun empty => by cases unnamed.symm.trans empty⟩
    | @object depth name named closed =>
      refine ⟨.object depth closed, fun empty => named ?_⟩
      simpa using (className?_object depth name).symm.trans empty
  · rintro ⟨proper, named⟩
    cases proper with
    | primitive depth known => exact .primitive depth (Descriptor.isPrimitive_iff.mp known)
    | object depth closed =>
      rw [className?_object] at named
      exact .object depth (by simpa using named) closed

end TypeRef

namespace Descriptor

/-- A text between the parentheses of a descriptor without a result is read as one argument. -/
theorem reads_one_iff {text : String} :
    (∃ d, Descriptor.read ("(" ++ text ++ ")V") = .ok d ∧ d.arguments = [.ofText text]) ↔
      (TypeRef.ofText text).Proper ∧ '\n' ∉ text.toList := by
  constructor
  · rintro ⟨d, read, arguments⟩
    obtain ⟨-, readable⟩ := read_eq_ok_iff.mp read
    have code : ∀ c ∈ text.toList, c ∈ d.code := by
      intro c member
      simp [Descriptor.code, arguments, TypeRef.ofText, member]
    exact ⟨readable.arguments _ (by simp [arguments]),
      fun broken => readable.oneLine (code _ broken)⟩
  · rintro ⟨proper, oneLine⟩
    refine ⟨⟨[.ofText text], .void⟩, read_eq_ok_iff.mpr ⟨?_, ?_, .inl rfl, ?_, ?_⟩, rfl⟩
    · rw [encode, ← String.toList_inj, String.toList_ofList]
      simp [Descriptor.code, TypeRef.ofText, TypeRef.void]
    · simpa using proper
    · simp [TypeRef.void]
    · simpa [Descriptor.code, TypeRef.ofText, TypeRef.void] using oneLine

end Descriptor

namespace TypeRef

/-- A text is spelled when it is the code of one type, whose class has a name, and also when it goes
on behind the letter of a primitive type, which no code of a type does. The codes of one type are
the texts that are read back as the only argument of a descriptor, without line feeds. -/
theorem spelled_iff (text : String) :
    ((∃ word, (ofText text).spelling = .ok word) ↔ OneType text.toList ∨ Overrun text.toList) ∧
      ¬ (OneType text.toList ∧ Overrun text.toList) ∧
      (OneType text.toList ∧ '\n' ∉ text.toList ↔
        ∃ d, Descriptor.read ("(" ++ text ++ ")V") = .ok d ∧ d.arguments = [.ofText text] ∧
          (ofText text).className? ≠ some "") := by
  refine ⟨spelled_iff_code, fun both => not_oneType_of_overrun both.2 both.1, ?_⟩
  have one : OneType text.toList ↔ (ofText text).Proper ∧ (ofText text).className? ≠ some "" :=
    oneType_iff (t := ofText text)
  rw [one, and_right_comm, ← Descriptor.reads_one_iff]
  simp only [← exists_and_right, and_assoc]

/-- A letter too many behind a primitive type is passed over, where the reader of descriptors
refuses it. -/
theorem letter_too_many_spelled :
    (ofText "Ix").spelling = .ok "int" ∧ ¬ OneType "Ix".toList ∧
      Descriptor.read "(Ix)V" = .error (.malformedDescriptor "(Ix)V" "unknown type code") :=
  have more : ['x'] ≠ [] := by decide
  have longer : Overrun "Ix".toList := .intro 0 (c := 'I') (by decide) more
  ⟨by decide +kernel, not_oneType_of_overrun longer, by decide +kernel⟩

/-- How the type of an argument is spelled: by a keyword or by the name of its class, and so many
pairs of brackets as its code has brackets in front. -/
inductive SpelledOut (t : TypeRef) : Prop where
  | keyword (depth : Nat) {c : Char} {word : String} (listed : (c, word) ∈ keywords)
      (code : t.code = List.replicate depth '[' ++ [c])
      (spelled : t.spelling = .ok (word ++ pairs depth))
  | name (depth : Nat) {name : List Char} (named : name ≠ [])
      (code : t.code = List.replicate depth '[' ++ 'L' :: (name ++ [';']))
      (spelled : t.spelling = .ok (String.ofList name ++ pairs depth))
  | nameless (depth : Nat) (code : t.code = List.replicate depth '[' ++ ['L', ';'])
      {reason : String} (refused : t.spelling = .error (.malformedDescriptor t.text reason))

theorem Proper.spelledOut {t : TypeRef} (proper : t.Proper) : t.SpelledOut := by
  cases proper with
  | primitive depth known =>
    obtain ⟨word, listed, spelled⟩ := spelled_letter depth (Descriptor.isPrimitive_iff.mp known) []
    exact .keyword depth listed rfl spelled
  | @object depth name closed =>
    by_cases named : name = []
    · subst named
      have refused : (TypeRef.object depth []).spelling =
          .error (.malformedDescriptor (TypeRef.object depth []).text "unterminated object type") :=
        spelling_behind_eq_error_iff.mpr ⟨_, rfl, rfl⟩
      exact .nameless depth rfl refused
    · exact .name depth named rfl (spelled_class depth named closed)

/-- The first character behind the brackets begins no type. -/
def Stray (code : List Char) (c : Char) : Prop :=
  ∃ depth rest, code = List.replicate depth '[' ++ c :: rest ∧
    c ∉ '[' :: 'L' :: primitiveCodes

theorem refused_cases {t : TypeRef} {fault : Fault} (refused : t.spelling = .error fault) :
    (∃ reason, fault = .malformedDescriptor t.text reason) ∨
      ∃ c, Stray t.code c ∧ fault = .unknownDescriptorCode c t.text := by
  obtain ⟨code⟩ := t
  obtain ⟨depth, rest, rfl, front⟩ := exists_behind code
  obtain ⟨cause, inner, rfl⟩ := spelling_behind_eq_error_iff.mp refused
  have judged := judged_spelling front
  rw [inner] at judged
  cases judged with
  | @stray c unknown rest => exact .inr ⟨c, ⟨depth, rest, rfl, unknown⟩, rfl⟩
  | empty => exact .inl ⟨_, rfl⟩
  | unterminated => exact .inl ⟨_, rfl⟩

theorem unknown_iff_stray {t : TypeRef} {c : Char} :
    t.spelling = .error (.unknownDescriptorCode c t.text) ↔ Stray t.code c := by
  constructor
  · intro refused
    rcases refused_cases refused with ⟨reason, other⟩ | ⟨c', stray, same⟩
    · cases other
    · cases same
      exact stray
  · obtain ⟨code⟩ := t
    rintro ⟨depth, rest, rfl, unknown⟩
    rw [List.mem_cons, List.mem_cons, not_or, not_or] at unknown
    have refused := spelling_letter unknown.1 unknown.2.1 rest
    rw [keyword?_eq_none_iff.mpr unknown.2.2] at refused
    exact spelling_behind_eq_error_iff.mpr ⟨_, refused, rfl⟩

/-- Every argument of a descriptor is spelled by its keyword or class name with a pair of brackets
for each bracket, unless its class has no name. Whatever text is refused, the fault has the whole of
it, and it tells of an unknown letter exactly when the first one behind the brackets is none. -/
theorem arguments_spelled_and_faults_told :
    (∀ text d, Descriptor.read text = .ok d → ∀ t ∈ d.arguments, t.SpelledOut) ∧
      (∀ text fault, (ofText text).spelling = .error fault →
        (∃ reason, fault = .malformedDescriptor text reason) ∨
          ∃ c, fault = .unknownDescriptorCode c text) ∧
      ∀ text c, (ofText text).spelling = .error (.unknownDescriptorCode c text) ↔
        Stray text.toList c := by
  have whole : ∀ text, (ofText text).text = text := fun text => String.ofList_toList
  refine ⟨fun text d read t listed => ?_, fun text fault refused => ?_, fun text c => ?_⟩
  · exact ((Descriptor.read_eq_ok_iff.mp read).2.arguments t listed).spelledOut
  · rcases refused_cases refused with ⟨reason, told⟩ | ⟨c, _, told⟩
    · exact .inl ⟨reason, whole text ▸ told⟩
    · exact .inr ⟨c, whole text ▸ told⟩
  · have stray := unknown_iff_stray (t := ofText text) (c := c)
    rwa [whole] at stray

/-- An array of arrays, a class without a name, and a letter that is unknown behind two brackets. -/
theorem arguments_spelled_and_faults_told_nested :
    (∀ t ∈ [ofText "[[J", ofText "[L;"], t.SpelledOut) ∧
      (ofText "[[J").spelling = .ok "long[][]" ∧
      (ofText "[[Xy").spelling = .error (.unknownDescriptorCode 'X' "[[Xy") ∧
      Stray "[[Xy".toList 'X' := by
  have read : Descriptor.read "([[J[L;)V" = .ok ⟨[ofText "[[J", ofText "[L;"], .void⟩ := by
    decide +kernel
  have refused : (ofText "[[Xy").spelling = .error (.unknownDescriptorCode 'X' "[[Xy") := by
    decide +kernel
  obtain ⟨spelled, _, unknown⟩ := arguments_spelled_and_faults_told
  exact ⟨spelled _ _ read, by decide +kernel, refused, (unknown _ _).mp refused⟩

end TypeRef

end SymbolAtlas
