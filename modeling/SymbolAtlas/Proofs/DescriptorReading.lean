import SymbolAtlas.Descriptor.Reader
import SymbolAtlas.Proofs.Fallible

/-! What reads as a descriptor. The scanner of types holds on to an open class name and to the
brackets in front of it; put back in front of what is left of the text, they make up the codes of
the types that come out. So a text reads as types when it is their codes one after another, and as
a descriptor when the last closing parenthesis is the one between its arguments and its result. -/
namespace SymbolAtlas

namespace TypeRef

/-- A code that stands for a type other than `void`. -/
inductive Proper : TypeRef → Prop where
  | primitive (depth : Nat) {c : Char} (known : isPrimitive c = true) : Proper (primitive depth c)
  | object (depth : Nat) {name : List Char} (closed : ';' ∉ name) : Proper (object depth name)

theorem ne_of_isPrimitive {c other : Char} (known : isPrimitive c = true)
    (unknown : isPrimitive other = false) : c ≠ other := by
  rintro rfl
  exact Bool.false_ne_true (unknown.symm.trans known)

end TypeRef

namespace Descriptor

/-- What the scanner of types has taken of the type that it is reading. -/
def scanned (depth : Nat) : Option (List Char) → List Char
  | none => List.replicate depth '['
  | some name => List.replicate depth '[' ++ 'L' :: name.reverse

theorem of_readTypes {depth : Nat} {name : Option (List Char)} {s : List Char} {ts : List TypeRef}
    (closed : ∀ n ∈ name, ';' ∉ n) (read : readTypes depth name s = .ok ts) :
    scanned depth name ++ s = ts.flatMap TypeRef.code ∧ ∀ t ∈ ts, t.Proper := by
  induction s generalizing depth name ts with
  | nil =>
    cases name with
    | some n => cases read
    | none =>
      rw [readTypes] at read
      split at read
      case isTrue flat =>
        cases read
        subst flat
        exact ⟨rfl, fun t member => absurd member List.not_mem_nil⟩
      case isFalse => cases read
  | cons c rest ih =>
    cases name with
    | some n =>
      have free := closed n rfl
      rw [readTypes] at read
      split at read
      case isTrue ends =>
        obtain ⟨others, later, rfl⟩ := map_eq_ok.mp read
        obtain ⟨codes, proper⟩ := ih (fun n none => by cases none) later
        refine ⟨?_, List.forall_mem_cons.mpr ⟨.object depth (by simpa using free), proper⟩⟩
        rw [List.flatMap_cons, ← codes]
        simp [scanned, TypeRef.object, ends]
      case isFalse inside =>
        have longer : ∀ n' ∈ some (c :: n), ';' ∉ n' := by
          rintro _ ⟨⟩
          simp [free, Ne.symm inside]
        obtain ⟨codes, proper⟩ := ih longer read
        refine ⟨?_, proper⟩
        rw [← codes]
        simp [scanned]
    | none =>
      rw [readTypes] at read
      split at read
      case isTrue bracket =>
        obtain ⟨codes, proper⟩ := ih (fun n none => by cases none) read
        refine ⟨?_, proper⟩
        rw [← codes, bracket]
        simp [scanned, List.replicate_succ']
      split at read
      case isTrue opens =>
        have begun : ∀ n ∈ some ([] : List Char), ';' ∉ n := by
          rintro _ ⟨⟩
          exact List.not_mem_nil
        obtain ⟨codes, proper⟩ := ih begun read
        refine ⟨?_, proper⟩
        rw [← codes, opens]
        simp [scanned]
      split at read
      case isTrue known =>
        obtain ⟨others, later, rfl⟩ := map_eq_ok.mp read
        obtain ⟨codes, proper⟩ := ih (fun n none => by cases none) later
        refine ⟨?_, List.forall_mem_cons.mpr ⟨.primitive depth known, proper⟩⟩
        rw [List.flatMap_cons, ← codes]
        simp [scanned, TypeRef.primitive]
      case isFalse => cases read

theorem readTypes_brackets (depth k : Nat) (s : List Char) :
    readTypes depth none (List.replicate k '[' ++ s) = readTypes (depth + k) none s := by
  induction k generalizing depth with
  | zero => rfl
  | succ k ih =>
    rw [List.replicate_succ, List.cons_append, readTypes]
    rw [if_pos rfl, ih, Nat.add_assoc, Nat.add_comm 1]

theorem readTypes_name (depth : Nat) {name : List Char} (closed : ';' ∉ name)
    (before rest : List Char) :
    readTypes depth (some before) (name ++ ';' :: rest) =
      (readTypes 0 none rest).map (.object depth (before.reverse ++ name) :: ·) := by
  induction name generalizing before with
  | nil =>
    rw [List.nil_append, readTypes]
    rw [if_pos rfl, List.append_nil]
  | cons c name ih =>
    rw [List.mem_cons, not_or] at closed
    rw [List.cons_append, readTypes]
    rw [if_neg (Ne.symm closed.1), ih closed.2, List.reverse_cons, List.append_assoc]
    rfl

theorem readTypes_code {t : TypeRef} (proper : t.Proper) (rest : List Char) :
    readTypes 0 none (t.code ++ rest) = (readTypes 0 none rest).map (t :: ·) := by
  cases proper with
  | @primitive depth c known =>
    rw [TypeRef.primitive, List.append_assoc, readTypes_brackets, List.singleton_append, readTypes]
    have bracket : c ≠ '[' := TypeRef.ne_of_isPrimitive known rfl
    have opens : c ≠ 'L' := TypeRef.ne_of_isPrimitive known rfl
    rw [if_neg bracket, if_neg opens, if_pos known, Nat.zero_add]
    rfl
  | @object depth name closed =>
    rw [TypeRef.object, List.append_assoc, readTypes_brackets, List.cons_append, readTypes,
      List.append_assoc]
    rw [if_neg (by decide), if_pos rfl, List.singleton_append, readTypes_name _ closed,
      Nat.zero_add]
    rfl

theorem readTypes_codes {ts : List TypeRef} (proper : ∀ t ∈ ts, t.Proper) :
    readTypes 0 none (ts.flatMap TypeRef.code) = .ok ts := by
  induction ts with
  | nil => rfl
  | cons t ts ih =>
    rw [List.forall_mem_cons] at proper
    rw [List.flatMap_cons, readTypes_code proper.1, ih proper.2]
    rfl

theorem readTypes_eq_ok_iff {s : List Char} {ts : List TypeRef} :
    readTypes 0 none s = .ok ts ↔ s = ts.flatMap TypeRef.code ∧ ∀ t ∈ ts, t.Proper := by
  constructor
  · exact of_readTypes (fun n none => by cases none)
  · rintro ⟨rfl, proper⟩
    exact readTypes_codes proper

theorem readResult_eq_ok_iff {s : List Char} {t : TypeRef} :
    readResult s = .ok t ↔ s = t.code ∧ (t = .void ∨ t.Proper) := by
  unfold readResult
  split
  case isTrue nothing =>
    constructor
    · intro read
      cases read
      exact ⟨nothing, .inl rfl⟩
    · rintro ⟨code, _⟩
      obtain ⟨code'⟩ := t
      cases code.symm.trans nothing
      rfl
  case isFalse something =>
    constructor
    · intro read
      split at read
      · cases read
      case h_2 t' types =>
        cases read
        obtain ⟨codes, proper⟩ := readTypes_eq_ok_iff.mp types
        rw [List.flatMap_singleton] at codes
        exact ⟨codes, .inr (proper _ List.mem_cons_self)⟩
      · cases read
    · rintro ⟨code, rfl | proper⟩
      · exact absurd code something
      · have types : readTypes 0 none s = .ok [t] := readTypes_eq_ok_iff.mpr
          ⟨by simpa using code, by simpa using proper⟩
        rw [types]

theorem cut?_eq_some_iff {s arguments result : List Char} :
    cut? s = some (arguments, result) ↔
      s = '(' :: (arguments ++ ')' :: result) ∧ ')' ∉ result ∧ '\n' ∉ s := by
  unfold cut?
  split
  case h_1 rest =>
    split
    case isTrue broken =>
      have present : '\n' ∈ rest := by simpa using broken
      simp [present]
    case isFalse whole =>
      have absent : '\n' ∉ rest := by simpa using whole
      simp [Text.cutLast?_eq_some_iff, absent]
  case h_2 other =>
    simp only [reduceCtorEq, false_iff, not_and]
    exact fun same => absurd same (other _)

/-- A descriptor whose code reads as itself. -/
structure Readable (d : Descriptor) : Prop where
  arguments : ∀ t ∈ d.arguments, t.Proper
  result : d.result = .void ∨ d.result.Proper
  /-- The result begins after the last closing parenthesis. -/
  last : ')' ∉ d.result.code
  oneLine : '\n' ∉ d.code

theorem ofCode_eq_ok_iff {s : List Char} {d : Descriptor} :
    ofCode s = .ok d ↔ s = d.code ∧ d.Readable := by
  unfold ofCode
  constructor
  · intro read
    split at read
    · cases read
    case h_2 arguments result parts =>
      obtain ⟨rfl, last, oneLine⟩ := cut?_eq_some_iff.mp parts
      obtain ⟨types, first, read⟩ := bind_eq_ok.mp read
      obtain ⟨t, second, made⟩ := bind_eq_ok.mp read
      cases made
      obtain ⟨rfl, proper⟩ := readTypes_eq_ok_iff.mp first
      obtain ⟨rfl, result⟩ := readResult_eq_ok_iff.mp second
      exact ⟨rfl, proper, result, last, oneLine⟩
  · rintro ⟨rfl, readable⟩
    have parts : cut? d.code = some (d.arguments.flatMap TypeRef.code, d.result.code) :=
      cut?_eq_some_iff.mpr ⟨rfl, readable.last, readable.oneLine⟩
    have first := readTypes_eq_ok_iff.mpr ⟨rfl, readable.arguments⟩
    have second := readResult_eq_ok_iff.mpr ⟨rfl, readable.result⟩
    rw [parts]
    dsimp only
    rw [first, second]
    rfl

/-- A text reads as a descriptor when it is the text of that descriptor and the descriptor is one
that can be read. -/
theorem read_eq_ok_iff {text : String} {d : Descriptor} :
    Descriptor.read text = .ok d ↔ text = d.encode ∧ d.Readable := by
  rw [Descriptor.read, mapError_eq_ok, ofCode_eq_ok_iff, encode, ← String.toList_inj,
    String.toList_ofList]

end Descriptor

end SymbolAtlas
