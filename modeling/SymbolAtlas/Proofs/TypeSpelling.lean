import SymbolAtlas.Proofs.DescriptorGrammar

/-! How types are spelled. A bracket in front of a code adds a pair of brackets to the spelling of
what follows it, and a fault found there is told of the longer text; so spelling comes down to what
stands behind the brackets, and there the first letter decides. -/
namespace SymbolAtlas

theorem Fault.about_about (fault : Fault) (first second : String) :
    (fault.about first).about second = fault.about second := by
  cases fault <;> rfl

namespace TypeRef

/-- The letters of the primitive types, each with its keyword. -/
def keywords : List (Char × String) :=
  [('Z', "boolean"), ('B', "byte"), ('C', "char"), ('S', "short"), ('I', "int"), ('J', "long"),
    ('F', "float"), ('D', "double")]

theorem keyword?_eq_some_iff {c : Char} {word : String} :
    keyword? c = some word ↔ (c, word) ∈ keywords := by
  constructor
  · intro known
    unfold keyword? at known
    split at known <;> simp_all [keywords]
  · intro listed
    simp only [keywords, List.mem_cons, List.not_mem_nil, or_false, Prod.mk.injEq] at listed
    rcases listed with ⟨rfl, rfl⟩ | ⟨rfl, rfl⟩ | ⟨rfl, rfl⟩ | ⟨rfl, rfl⟩ | ⟨rfl, rfl⟩ |
      ⟨rfl, rfl⟩ | ⟨rfl, rfl⟩ | ⟨rfl, rfl⟩ <;> rfl

theorem mem_primitiveCodes_iff {c : Char} :
    c ∈ primitiveCodes ↔ ∃ word, (c, word) ∈ keywords := by
  have letters : primitiveCodes = keywords.map Prod.fst := rfl
  simp only [letters, List.mem_map, Prod.exists, exists_and_right, exists_eq_right]

theorem keyword?_eq_none_iff {c : Char} : keyword? c = none ↔ c ∉ primitiveCodes := by
  rw [Option.eq_none_iff_forall_ne_some, mem_primitiveCodes_iff, not_exists]
  exact forall_congr' (fun word => not_congr keyword?_eq_some_iff)

def pairs (depth : Nat) : String := String.join (List.replicate depth "[]")

theorem pairs_succ (depth : Nat) : pairs (depth + 1) = pairs depth ++ "[]" := by
  rw [pairs, List.replicate_succ', String.join_append]
  simp [pairs]

/-- What one more bracket in front of a code does. -/
theorem spelling_bracket (code : List Char) :
    (mk ('[' :: code)).spelling =
      ((mk code).spelling.map (· ++ "[]")).mapError (Fault.about (mk ('[' :: code)).text) := rfl

theorem about_of_refused {t : TypeRef} {fault : Fault} (refused : t.spelling = .error fault) :
    fault.about t.text = fault := by
  obtain ⟨code⟩ := t
  rw [spelling] at refused
  dsimp only at refused
  unfold spellCode at refused
  split at refused
  case h_1 =>
    cases refused
    rfl
  case h_2 =>
    obtain ⟨cause, _, rfl⟩ := mapError_eq_error.mp refused
    exact Fault.about_about ..
  case h_3 =>
    split at refused <;> cases refused
    rfl
  case h_4 =>
    split at refused <;> cases refused
    rfl

theorem spelling_behind_eq_ok_iff {depth : Nat} {rest : List Char} {text : String} :
    (mk (List.replicate depth '[' ++ rest)).spelling = .ok text ↔
      ∃ word, (mk rest).spelling = .ok word ∧ text = word ++ pairs depth := by
  induction depth generalizing text with
  | zero => simp [pairs]
  | succ depth ih =>
    rw [List.replicate_succ, List.cons_append, spelling_bracket, mapError_eq_ok, map_eq_ok]
    simp only [ih, pairs_succ]
    constructor
    · rintro ⟨_, ⟨word, spelled, rfl⟩, rfl⟩
      exact ⟨word, spelled, String.append_assoc⟩
    · rintro ⟨word, spelled, rfl⟩
      exact ⟨_, ⟨word, spelled, rfl⟩, String.append_assoc⟩

theorem spelling_behind_eq_error_iff {depth : Nat} {rest : List Char} {fault : Fault} :
    (mk (List.replicate depth '[' ++ rest)).spelling = .error fault ↔
      ∃ cause, (mk rest).spelling = .error cause ∧
        fault = cause.about (mk (List.replicate depth '[' ++ rest)).text := by
  induction depth generalizing fault with
  | zero =>
    constructor
    · exact fun refused => ⟨fault, refused, (about_of_refused refused).symm⟩
    · rintro ⟨cause, refused, rfl⟩
      exact (about_of_refused refused).symm ▸ refused
  | succ depth ih =>
    rw [List.replicate_succ, List.cons_append, spelling_bracket, mapError_eq_error]
    simp only [map_eq_error, ih]
    constructor
    · rintro ⟨_, ⟨cause, refused, rfl⟩, rfl⟩
      exact ⟨cause, refused, Fault.about_about ..⟩
    · rintro ⟨cause, refused, rfl⟩
      exact ⟨_, ⟨cause, refused, rfl⟩, Fault.about_about ..⟩

theorem exists_behind (code : List Char) :
    ∃ depth rest, code = List.replicate depth '[' ++ rest ∧ rest.head? ≠ some '[' := by
  induction code with
  | nil => exact ⟨0, [], rfl, by simp⟩
  | cons c code ih =>
    by_cases bracket : c = '['
    · obtain ⟨depth, rest, rfl, ends⟩ := ih
      exact ⟨depth + 1, rest, bracket ▸ rfl, ends⟩
    · exact ⟨0, c :: code, rfl, by simpa using bracket⟩

theorem element_behind {depth : Nat} {rest : List Char} (front : rest.head? ≠ some '[') :
    (mk (List.replicate depth '[' ++ rest)).element = rest := by
  rw [element, List.dropWhile_append_of_pos (by simp)]
  cases rest with
  | nil => rfl
  | cons c rest =>
    have bracket : c ≠ '[' := by simpa using front
    simp [bracket]

theorem spelling_letter {c : Char} (bracket : c ≠ '[') (named : c ≠ 'L') (rest : List Char) :
    (mk (c :: rest)).spelling =
      match keyword? c with
      | some word => .ok word
      | none => .error (.unknownDescriptorCode c (mk (c :: rest)).text) := by
  unfold spelling spellCode
  split
  case h_1 same => cases same
  case h_2 same =>
    cases same
    exact absurd rfl bracket
  case h_3 same =>
    cases same
    exact absurd rfl named
  case h_4 same =>
    cases same
    rfl

theorem spelling_class {name : List Char} (named : name ≠ []) (closed : ';' ∉ name) :
    (mk ('L' :: (name ++ [';']))).spelling = .ok (String.ofList name) := by
  rw [spelling, spellCode]
  simp [named, closed]

theorem spelling_opened_cases (rest : List Char) :
    (∃ name, name ≠ [] ∧ ';' ∉ name ∧ rest = name ++ [';']) ∨
      (mk ('L' :: rest)).spelling =
        .error (.malformedDescriptor (mk ('L' :: rest)).text "unterminated object type") := by
  by_cases fit : rest.getLast? = some ';' ∧ rest.dropLast ≠ [] ∧ ';' ∉ rest.dropLast
  · obtain ⟨ends, named, closed⟩ := fit
    obtain ⟨name, rfl⟩ := List.getLast?_eq_some_iff.mp ends
    rw [List.dropLast_concat] at named closed
    exact .inl ⟨name, named, closed, rfl⟩
  · refine .inr ?_
    rw [spelling, spellCode]
    exact if_neg fit

theorem spelling_keyword {c : Char} {word : String} (listed : (c, word) ∈ keywords)
    (rest : List Char) : (mk (c :: rest)).spelling = .ok word := by
  have primitive := Descriptor.isPrimitive_iff.mpr (mem_primitiveCodes_iff.mpr ⟨word, listed⟩)
  rw [spelling_letter (ne_of_isPrimitive primitive rfl) (ne_of_isPrimitive primitive rfl),
    keyword?_eq_some_iff.mpr listed]

theorem spelled_letter (depth : Nat) {c : Char} (known : c ∈ primitiveCodes) (rest : List Char) :
    ∃ word, (c, word) ∈ keywords ∧
      (mk (List.replicate depth '[' ++ c :: rest)).spelling = .ok (word ++ pairs depth) := by
  obtain ⟨word, listed⟩ := mem_primitiveCodes_iff.mp known
  exact ⟨word, listed, spelling_behind_eq_ok_iff.mpr ⟨word, spelling_keyword listed rest, rfl⟩⟩

theorem spelled_class (depth : Nat) {name : List Char} (named : name ≠ []) (closed : ';' ∉ name) :
    (mk (List.replicate depth '[' ++ 'L' :: (name ++ [';']))).spelling =
      .ok (String.ofList name ++ pairs depth) :=
  spelling_behind_eq_ok_iff.mpr ⟨_, spelling_class named closed, rfl⟩

/-- Everything that spelling can come to where no bracket stands in front. -/
inductive Judged : List Char → Except Fault String → Prop where
  | keyword {c : Char} {word : String} (listed : (c, word) ∈ keywords) (rest : List Char) :
      Judged (c :: rest) (.ok word)
  | name {name : List Char} (named : name ≠ []) (closed : ';' ∉ name) :
      Judged ('L' :: (name ++ [';'])) (.ok (String.ofList name))
  | stray {c : Char} (unknown : c ∉ '[' :: 'L' :: primitiveCodes)
      (rest : List Char) :
      Judged (c :: rest) (.error (.unknownDescriptorCode c (mk (c :: rest)).text))
  | empty : Judged [] (.error (.malformedDescriptor "" "empty type"))
  | unterminated (rest : List Char) :
      Judged ('L' :: rest)
        (.error (.malformedDescriptor (mk ('L' :: rest)).text "unterminated object type"))

theorem judged_spelling {code : List Char} (front : code.head? ≠ some '[') :
    Judged code (mk code).spelling := by
  cases code with
  | nil => exact .empty
  | cons c rest =>
    have bracket : c ≠ '[' := by simpa using front
    by_cases opens : c = 'L'
    · subst opens
      rcases spelling_opened_cases rest with ⟨name, named, closed, rfl⟩ | refused
      · rw [spelling_class named closed]
        exact .name named closed
      · rw [refused]
        exact .unterminated rest
    · rw [spelling_letter bracket opens]
      cases known : keyword? c with
      | some word => exact .keyword (keyword?_eq_some_iff.mp known) rest
      | none => exact .stray (by simpa [bracket, opens] using keyword?_eq_none_iff.mp known) rest

end TypeRef

end SymbolAtlas
