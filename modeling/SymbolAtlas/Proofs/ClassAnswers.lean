import SymbolAtlas.Proofs.ClassLookup

/-! What a class name is answered with. An obfuscated name decides alone and the first class that
has it is taken; otherwise the name means every class that has it or extends it, and finds a class
only if it means no other. Queries for members ask for their class in the same way and pass its
fault on. -/
namespace SymbolAtlas

/-- Whether a fault says that a qualifier does not name one class. -/
def Fault.blamesClass : Fault → Bool
  | .unknownClass _ _ => true
  | .ambiguousClass _ _ _ => true
  | _ => false

namespace Store

/-- The classes of a version that a dotted name may mean: those that have it, and those whose names
end in a dot and the name. -/
def meant (s : Store) (version name : String) : List ClassRecord :=
  s.classes.filter
    (fun c => c.version = version ∧ (c.intermediate = name ∨ Extends c.intermediate name))

/-- The classes that a name may mean, with those last that have it. -/
def candidates (s : Store) (version name : String) : List ClassRecord :=
  (s.meant version name).filter (fun c => Extends c.intermediate name) ++
    (s.meant version name).filter (fun c => c.intermediate = name)

theorem not_extends_self (name : String) : ¬ Extends name name :=
  fun extending => Nat.lt_irrefl _ extending.length_lt

theorem candidates_perm (s : Store) (version name : String) :
    (s.candidates version name).Perm (s.meant version name) := by
  have exact_iff : ∀ c ∈ s.meant version name,
      decide (c.intermediate = name) = !decide (Extends c.intermediate name) := by
    intro c listed
    rw [meant, List.mem_filter, decide_eq_true_iff] at listed
    rcases listed.2.2 with rfl | extending
    · simp [not_extends_self]
    · have longer : c.intermediate ≠ name := by
        intro same
        exact not_extends_self name (same ▸ extending)
      simp [extending, longer]
  rw [candidates, List.filter_congr exact_iff]
  exact List.filter_append_perm ..

/-- The two lookups by the ends of names find the classes that a name may mean. -/
theorem classMatches_eq_candidates (s : Store) (version name : String) :
    s.classMatches version name = s.candidates version name := by
  have extending : s.classesBySuffix version ("." ++ name) =
      (s.meant version name).filter (fun c => Extends c.intermediate name) := by
    rw [meant, List.filter_filter, classesBySuffix]
    refine List.filter_congr (fun c _ => ?_)
    rw [Bool.eq_iff_iff]
    simp only [Bool.and_eq_true, decide_eq_true_eq, List.isSuffixOf_iff_suffix]
    constructor
    · rintro ⟨there, ends⟩
      exact ⟨ends, there, .inr ends⟩
    · rintro ⟨ends, there, _⟩
      exact ⟨there, ends⟩
  have exactly : (s.classesBySuffix version name).filter (fun c => c.intermediate = name) =
      (s.meant version name).filter (fun c => c.intermediate = name) := by
    rw [meant, List.filter_filter, classesBySuffix, List.filter_filter]
    refine List.filter_congr (fun c _ => ?_)
    by_cases same : c.intermediate = name
    · simp [same]
    · simp [same]
  rw [classMatches, extending, exactly, candidates]

def namedClass (s : Store) (version qualifier : String) : Except Fault ClassRecord :=
  let name := dotted qualifier
  match s.classes.find? (fun c => c.version = version ∧ c.obfuscated = name) with
  | some c => .ok c
  | none =>
    match s.meant version name with
    | [] => .error (.unknownClass qualifier version)
    | [c] => .ok c
    | _ => .error (.ambiguousClass qualifier version
        ((s.candidates version name).map ClassRecord.intermediate))

theorem resolveClass_eq (s : Store) (version qualifier : String) :
    s.resolveClass version qualifier = s.namedClass version qualifier := by
  have first : s.classByObfuscated? version (dotted qualifier) =
      s.classes.find? (fun c => c.version = version ∧ c.obfuscated = dotted qualifier) := by
    simp only [classByObfuscated?, Bool.decide_and]
  rw [resolveClass, namedClass]
  simp only [first, classMatches_eq_candidates]
  cases s.classes.find? (fun c => c.version = version ∧ c.obfuscated = dotted qualifier) with
  | some c => rfl
  | none =>
    dsimp only
    -- both lists have as many elements, and the only element of one is that of the other
    have same := s.candidates_perm version (dotted qualifier)
    generalize s.candidates version (dotted qualifier) = listed at same
    generalize s.meant version (dotted qualifier) = meant at same
    rcases meant with _ | ⟨c, _ | ⟨d, rest⟩⟩
    · rw [same.eq_nil]
    · rw [List.perm_singleton.mp same]
    · have several := same.length_eq
      rcases listed with _ | ⟨a, _ | ⟨b, others⟩⟩
      · simp at several
      · simp at several
      · rfl

theorem blamesClass_of_resolveClass {s : Store} {version qualifier : String} {fault : Fault}
    (refused : s.resolveClass version qualifier = .error fault) : fault.blamesClass = true := by
  rw [resolveClass_eq, namedClass] at refused
  split at refused
  · cases refused
  split at refused
  · cases refused
    rfl
  · cases refused
  · cases refused
    rfl

theorem resolve_wholeClass {s : Store} {version text : String} {name : List Char}
    (trimmed : Text.trim text.toList = name) (filled : name ≠ []) :
    s.resolve ⟨.wholeClass, text, version⟩ =
      (s.resolveClass version (String.ofList name)).map .wholeClass := by
  simp [resolve, trimmed, filled]

theorem resolve_qualified {s : Store} {version text : String} {kind : MemberKind}
    {qualifier member : List Char} (owned : kind ≠ .parameter)
    (cut : Text.trim text.toList = qualifier ++ '.' :: member) (last : '.' ∉ member)
    (named : qualifier ≠ []) (named' : member ≠ []) :
    s.resolve ⟨.member kind, text, version⟩ =
      (s.resolveClass version (String.ofList qualifier) >>= fun owner =>
        membersOrNotFound ⟨.member kind, text, version⟩
          (s.searchMembers ⟨version, kind, some owner.id⟩ (String.ofList member))) := by
  have parts : Text.cutLast? '.' (qualifier ++ '.' :: member) = some (qualifier, member) :=
    Text.cutLast?_eq_some_iff.mpr ⟨rfl, last⟩
  simp [resolve, resolveMember, cut, parts, owned, named, named']

theorem not_blamesClass_of_membersOrNotFound {query : Query} {found : List MemberRecord}
    {fault : Fault} (refused : membersOrNotFound query found = .error fault) :
    fault.blamesClass = false := by
  cases found with
  | nil =>
    cases refused
    rfl
  | cons => cases refused

/-- The fault of a class is that of every query for its members, and they have no other fault that
blames a class. -/
theorem resolveClass_eq_error_iff {s : Store} {version text : String} {kind : MemberKind}
    {qualifier member : List Char} (owned : kind ≠ .parameter)
    (cut : Text.trim text.toList = qualifier ++ '.' :: member) (last : '.' ∉ member)
    (named : qualifier ≠ []) (named' : member ≠ []) {fault : Fault} :
    s.resolveClass version (String.ofList qualifier) = .error fault ↔
      s.resolve ⟨.member kind, text, version⟩ = .error fault ∧ fault.blamesClass = true := by
  rw [resolve_qualified owned cut last named named']
  cases answer : s.resolveClass version (String.ofList qualifier) with
  | ok c =>
    simp only [reduceCtorEq, false_iff, not_and]
    intro refused blamed
    rw [not_blamesClass_of_membersOrNotFound refused] at blamed
    cases blamed
  | error other =>
    constructor
    · rintro ⟨⟩
      exact ⟨rfl, blamesClass_of_resolveClass answer⟩
    · rintro ⟨⟨⟩, _⟩
      rfl

/-- The class that a qualifier, with dots for slashes, names in a version of any store is the first
that has it as its obfuscated name. Failing that it is the only class whose intermediate name is the
qualifier or ends in a dot and the qualifier; if there is none the class is unknown, and if there
are more the fault lists the name of each of them once, those with longer names first. A query for a
class is answered so, and never with members; a query for a field or method of a class fails in the
same way, and blames the class for nothing else. -/
theorem class_query_answers (s : Store) (version qualifier : String) :
    let name := dotted qualifier
    let meant := s.classes.filter
      (fun c => c.version = version ∧ (c.intermediate = name ∨ Extends c.intermediate name))
    let candidates := meant.filter (fun c => Extends c.intermediate name) ++
      meant.filter (fun c => c.intermediate = name)
    let answer := s.resolveClass version qualifier
    answer =
        (match s.classes.find? (fun c => c.version = version ∧ c.obfuscated = name) with
        | some c => .ok c
        | none =>
          match meant with
          | [] => .error (.unknownClass qualifier version)
          | [c] => .ok c
          | _ => .error
            (.ambiguousClass qualifier version (candidates.map ClassRecord.intermediate))) ∧
      candidates.Perm meant ∧
      (∀ text, Text.trim text.toList = qualifier.toList → qualifier ≠ "" →
        s.resolve ⟨.wholeClass, text, version⟩ = answer.map .wholeClass) ∧
      (∀ text members, s.resolve ⟨.wholeClass, text, version⟩ ≠ .ok (.members members)) ∧
      ∀ kind text member, kind ≠ .parameter →
        Text.trim text.toList = qualifier.toList ++ '.' :: member → '.' ∉ member →
        qualifier ≠ "" → member ≠ [] → ∀ fault, answer = .error fault ↔
          s.resolve ⟨.member kind, text, version⟩ = .error fault ∧ fault.blamesClass = true := by
  intro name meant candidates answer
  refine ⟨s.resolveClass_eq version qualifier, s.candidates_perm version name, ?_, ?_, ?_⟩
  · intro text trimmed filled
    rw [resolve_wholeClass trimmed (by simpa using filled), String.ofList_toList]
  · intro text members
    by_cases empty : Text.trim text.toList = []
    · simp [resolve, empty]
    · rw [resolve_wholeClass rfl empty]
      cases s.resolveClass version (String.ofList (Text.trim text.toList)) <;> simp [Except.map]
  · intro kind text member owned cut last filled named' fault
    rw [← resolveClass_eq_error_iff owned cut last (by simpa using filled) named',
      String.ofList_toList]

/-- A name that two classes of a version end in, asked for as it stands and as the class of a
field. -/
theorem class_query_answers_tails :
    let s := replay Step.run importTails .empty
    let fault : Fault := .ambiguousClass "b/Foo" "1" ["a.b.Foo", "b.Foo"]
    s.resolve ⟨.wholeClass, " b/Foo ", "1"⟩ = .error fault ∧
      s.resolve ⟨.member .field, "b/Foo.x", "1"⟩ = .error fault := by
  intro s fault
  obtain ⟨answered, _, whole, _, qualified⟩ := class_query_answers s "1" "b/Foo"
  have refused : s.resolveClass "1" "b/Foo" = .error fault := answered.trans (by decide +kernel)
  constructor
  · rw [whole " b/Foo " (by decide +kernel) (by decide), refused]
    rfl
  · exact ((qualified .field "b/Foo.x" ['x'] (by decide) (by decide +kernel) (by decide)
      (by decide) (by decide) fault).mp refused).1

end Store

end SymbolAtlas
