import SymbolAtlas.Graph.Reader
import SymbolAtlas.Proofs.Fallible

/-! What single lines are read as: a header as a class without members, and a member line as a field
or a method of the class that it is read for. A line that cannot be read so is blamed for it. -/
namespace SymbolAtlas

/-- Whether a fault is one that a single line can have. -/
def Fault.blamesLine : Fault → Bool
  | .malformedLine .. | .malformedDescriptor .. | .orphanMember _ | .duplicateSymbol _ => true
  | _ => false

namespace Graph

/-- The text of a field line: its names, blanks between them. -/
structure FieldLine (owner : String) (text : List Char) (f : Field) : Prop where
  words : Text.words text = [f.obfuscated.toList, f.intermediate.toList]
  owner : f.owner = owner

/-- The text of a method line: its names, and between them a text that reads as its descriptor. -/
structure MethodLine (owner : String) (text : List Char) (m : Method) : Prop where
  words : ∃ descriptor, Descriptor.read descriptor = .ok m.descriptor ∧
    Text.words text = [m.obfuscated.toList, descriptor.toList, m.intermediate.toList]
  owner : m.owner = owner
  isStatic : m.isStatic = false

theorem readHeader_eq_ok_iff {line : List Char} {c : ClassSymbol} :
    readHeader line = .ok c ↔ ∃ obfuscated intermediate, line.splitOn ' ' =
      [obfuscated, intermediate] ∧ (obfuscated ≠ [] ∧ intermediate ≠ []) ∧
        ClassSymbol.bare (String.ofList obfuscated) (String.ofList intermediate) = c := by
  unfold readHeader
  constructor
  · intro read
    split at read
    case h_1 obfuscated intermediate tokens =>
      split at read
      · cases read
      case isFalse filled =>
        cases read
        rw [Bool.or_eq_true, List.isEmpty_iff, List.isEmpty_iff, not_or] at filled
        exact ⟨obfuscated, intermediate, tokens, filled, rfl⟩
    case h_2 => cases read
  · rintro ⟨obfuscated, intermediate, tokens, filled, rfl⟩
    simp [tokens, filled]

theorem readField_eq_ok_iff {owner : String} {text : List Char} {f : Field} :
    readField owner text = .ok f ↔ FieldLine owner text f := by
  unfold readField
  constructor
  · intro read
    split at read
    case h_1 obfuscated intermediate words =>
      cases read
      exact ⟨by simpa using words, rfl⟩
    case h_2 => cases read
  · rintro ⟨words, rfl⟩
    rw [words]
    simp

theorem readMethod_eq_ok_iff {owner : String} {text : List Char} {m : Method} :
    readMethod owner text = .ok m ↔ MethodLine owner text m := by
  unfold readMethod
  constructor
  · intro read
    split at read
    case h_1 obfuscated descriptor intermediate words =>
      obtain ⟨d, known, made⟩ := bind_eq_ok.mp read
      cases made
      exact ⟨⟨String.ofList descriptor, known, by simpa using words⟩, rfl, rfl⟩
    case h_2 => cases read
  · rintro ⟨⟨descriptor, known, words⟩, rfl, still⟩
    rw [words]
    simp only [String.ofList_toList, known]
    obtain ⟨_, _, _, _, _⟩ := m
    cases still
    rfl

section

variable {cause : Fault}

theorem blames_of_readHeader {line : List Char} (refused : readHeader line = .error cause) :
    cause.blamesLine = true := by
  unfold readHeader at refused
  split at refused
  · split at refused
    · cases refused
      rfl
    · cases refused
  · cases refused
    rfl

theorem blames_of_readMethod {owner : String} {text : List Char}
    (refused : readMethod owner text = .error cause) : cause.blamesLine = true := by
  unfold readMethod at refused
  split at refused
  · rcases bind_eq_error.mp refused with unread | ⟨_, _, made⟩
    · obtain ⟨flaw, _, rfl⟩ := mapError_eq_error.mp unread
      rfl
    · cases made
  · cases refused
    rfl

theorem blames_of_readField {owner : String} {text : List Char}
    (refused : readField owner text = .error cause) : cause.blamesLine = true := by
  unfold readField at refused
  split at refused
  · cases refused
  · cases refused
    rfl

end

end Graph

end SymbolAtlas
