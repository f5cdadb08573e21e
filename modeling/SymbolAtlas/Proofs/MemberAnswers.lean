import SymbolAtlas.Proofs.ClassAnswers
import SymbolAtlas.Proofs.NameLookup

/-! What a member name is answered with. The rules of a query are given here as a relation between
the query and its answer, with every search a scan of all members; one index and one ledger stand
between them and what the store does. -/
namespace SymbolAtlas

/-- What passes the first of the tests that anything passes. -/
def firstHits (tests : List (α → Bool)) (xs : List α) : List α :=
  match tests with
  | [] => []
  | test :: rest =>
    match xs.filter test with
    | [] => firstHits rest xs
    | hits => hits

theorem firstHits_cons_of_nil {test : α → Bool} {rest : List (α → Bool)} {xs : List α}
    (none : xs.filter test = []) : firstHits (test :: rest) xs = firstHits rest xs := by
  rw [firstHits, none]

theorem firstHits_eq_find? (tests : List (α → Bool)) (xs : List α) :
    firstHits tests xs =
      ((tests.map (fun test => xs.filter test)).find? (fun found => !found.isEmpty)).getD [] := by
  induction tests with
  | nil => rfl
  | cons test rest ih =>
    rw [firstHits, List.map_cons, List.find?_cons]
    cases xs.filter test with
    | nil => exact ih
    | cons => rfl

theorem firstHits_eq_nil_iff {tests : List (α → Bool)} {xs : List α} :
    firstHits tests xs = [] ↔ ∀ test ∈ tests, xs.filter test = [] := by
  induction tests with
  | nil => simp [firstHits]
  | cons test rest ih =>
    rw [firstHits, List.forall_mem_cons]
    cases xs.filter test with
    | nil => simp [ih]
    | cons => simp

theorem exists_test_of_firstHits_ne_nil {tests : List (α → Bool)} {xs : List α}
    (found : firstHits tests xs ≠ []) :
    ∃ before test after, tests = before ++ test :: after ∧
      (∀ earlier ∈ before, xs.filter earlier = []) ∧ firstHits tests xs = xs.filter test := by
  induction tests with
  | nil => exact absurd rfl found
  | cons test rest ih =>
    cases hits : xs.filter test with
    | nil =>
      rw [firstHits_cons_of_nil hits] at found ⊢
      obtain ⟨before, later, after, rfl, passed, same⟩ := ih found
      exact ⟨test :: before, later, after, rfl, List.forall_mem_cons.mpr ⟨hits, passed⟩, same⟩
    | cons => exact ⟨[], test, rest, rfl, by simp, by rw [firstHits, hits]⟩

namespace Store

/-- The members of a version and a kind, of one class or of any, in the order of insertion. -/
def inScope (s : Store) (scope : Scope) : List MemberRecord :=
  s.members.filter (fun m => m.key.version = scope.version && m.key.kind = scope.kind &&
    (scope.owner.isNone || m.owner = scope.owner))

/-- What makes a member the one of a name: its number, its intermediate name, its obfuscated name
or its final one. -/
def signs (s : Store) (name : String) : List (MemberRecord → Bool) :=
  [fun m => (Text.readWord? name.toList).any (fun number => m.number? = some number),
    fun m => m.key.name = name, fun m => m.obfuscated = name, fun m => s.finalName? m = some name]

/-- A member query asks for one name, and in one class if the name is qualified. -/
inductive Asks (s : Store) (kind : MemberKind) (version : String) (text : List Char) :
    Option Nat → String → Prop where
  | anywhere (filled : text ≠ []) (whole : '.' ∉ text) :
      Asks s kind version text none (String.ofList text)
  | within {qualifier member : List Char} {owner : ClassRecord} (owned : kind ≠ .parameter)
      (cut : text = qualifier ++ '.' :: member) (last : '.' ∉ member)
      (named : qualifier ≠ []) (named' : member ≠ [])
      (found : s.namedClass version (String.ofList qualifier) = .ok owner) :
      Asks s kind version text (some owner.id) (String.ofList member)

/-- The rules by which a member query is answered. The last two are about the names that it may
ask for, the others about those that it may not. -/
inductive Answers (s : Store) (kind : MemberKind) (text version : String) :
    Except Fault Resolution → Prop where
  | blank (nothing : Text.trim text.toList = []) :
      Answers s kind text version (.error (.invalidQuery "empty name"))
  | parameterOfClass (parameter : kind = .parameter) (dot : '.' ∈ Text.trim text.toList) :
      Answers s kind text version
        (.error (.invalidQuery "parameters cannot be qualified by a class"))
  | half {qualifier member : List Char} (owned : kind ≠ .parameter)
      (cut : Text.trim text.toList = qualifier ++ '.' :: member) (last : '.' ∉ member)
      (missing : qualifier = [] ∨ member = []) :
      Answers s kind text version
        (.error (.invalidQuery "class qualifier and member name must both be non-empty"))
  | noClass {qualifier member : List Char} {fault : Fault} (owned : kind ≠ .parameter)
      (cut : Text.trim text.toList = qualifier ++ '.' :: member) (last : '.' ∉ member)
      (named : qualifier ≠ []) (named' : member ≠ [])
      (refused : s.namedClass version (String.ofList qualifier) = .error fault) :
      Answers s kind text version (.error fault)
  | notFound {owner : Option Nat} {name : String}
      (asks : Asks s kind version (Text.trim text.toList) owner name)
      (absent : ∀ sign ∈ s.signs name, (s.inScope ⟨version, kind, owner⟩).filter sign = []) :
      Answers s kind text version (.error (.mappingNotFound (.member kind) text version))
  | found {owner : Option Nat} {name : String}
      (asks : Asks s kind version (Text.trim text.toList) owner name)
      (present : firstHits (s.signs name) (s.inScope ⟨version, kind, owner⟩) ≠ []) :
      Answers s kind text version
        (.ok (.members (firstHits (s.signs name) (s.inScope ⟨version, kind, owner⟩))))

theorem Indexed.findMembers_eq {s : Store} (indexed : s.Indexed) (scope : Scope)
    (key : MemberKey) : s.findMembers scope key = (s.inScope scope).filter (s.matchesKey key) := by
  have scan : (s.membersOf scope.version scope.kind).filter scope.admits = s.inScope scope := by
    rw [membersOf, List.filter_filter, inScope]
    refine List.filter_congr (fun m _ => ?_)
    simp only [Scope.admits]
    ac_rfl
  cases key with
  | intermediate name =>
    rw [indexed.findMembers_intermediate scope.version scope.kind scope.owner name, inScope,
      List.filter_filter]
    refine List.filter_congr (fun m _ => ?_)
    simp only [matchesKey]
    ac_rfl
  | number | obfuscated | final => exact congrArg (List.filter (s.matchesKey _)) scan

/-- A name that reads as no number has one key less than signs; no member has the first sign. -/
theorem firstHits_memberKeys (s : Store) (name : String) (xs : List MemberRecord) :
    firstHits ((memberKeys name).map s.matchesKey) xs = firstHits (s.signs name) xs := by
  rw [memberKeys, signs]
  cases Text.readWord? name.toList with
  | none => exact (firstHits_cons_of_nil (by simp)).symm
  | some number => rfl

theorem Indexed.searchMembers_eq {s : Store} (indexed : s.Indexed) (scope : Scope)
    (name : String) :
    s.searchMembers scope name = firstHits (s.signs name) (s.inScope scope) := by
  rw [searchMembers, ← firstHits_memberKeys, firstHits_eq_find?, List.map_map]
  congr 3
  funext key
  exact indexed.findMembers_eq scope key

theorem membersOrNotFound_of_ne_nil {query : Query} {found : List MemberRecord}
    (present : found ≠ []) : membersOrNotFound query found = .ok (.members found) := by
  cases found with
  | nil => exact absurd rfl present
  | cons => rfl

theorem Asks.resolve_eq {s : Store} {kind : MemberKind} {text version name : String}
    {owner : Option Nat} (asks : Asks s kind version (Text.trim text.toList) owner name) :
    s.resolve ⟨.member kind, text, version⟩ =
      membersOrNotFound ⟨.member kind, text, version⟩
        (s.searchMembers ⟨version, kind, owner⟩ name) := by
  cases asks with
  | anywhere filled whole =>
    have uncut := Text.cutLast?_eq_none_iff.mpr whole
    simp [resolve, resolveMember, filled, uncut]
  | within owned cut last named named' found =>
    rw [resolve_qualified owned cut last named named', resolveClass_eq, found]
    rfl

theorem Indexed.resolve_eq {s : Store} (indexed : s.Indexed) {kind : MemberKind}
    {text version : String} {answer : Except Fault Resolution}
    (answers : Answers s kind text version answer) :
    s.resolve ⟨.member kind, text, version⟩ = answer := by
  cases answers with
  | blank nothing => simp [resolve, nothing]
  | parameterOfClass parameter dot =>
    have filled : Text.trim text.toList ≠ [] := List.ne_nil_of_mem dot
    cases cut : Text.cutLast? '.' (Text.trim text.toList) with
    | none => exact absurd dot (Text.cutLast?_eq_none_iff.mp cut)
    | some => simp [resolve, resolveMember, filled, cut, parameter]
  | @half qualifier member owned cut last missing =>
    have parts : Text.cutLast? '.' (qualifier ++ '.' :: member) = some (qualifier, member) :=
      Text.cutLast?_eq_some_iff.mpr ⟨rfl, last⟩
    simp [resolve, resolveMember, cut, parts, owned, missing]
  | noClass owned cut last named named' refused =>
    rw [resolve_qualified owned cut last named named', resolveClass_eq, refused]
    rfl
  | notFound asks absent =>
    rw [asks.resolve_eq, indexed.searchMembers_eq, firstHits_eq_nil_iff.mpr absent]
    rfl
  | found asks present =>
    rw [asks.resolve_eq, indexed.searchMembers_eq, membersOrNotFound_of_ne_nil present]

theorem Asks.exists_answer {s : Store} {kind : MemberKind} {text version name : String}
    {owner : Option Nat} (asks : Asks s kind version (Text.trim text.toList) owner name) :
    ∃ answer, Answers s kind text version answer := by
  by_cases absent : firstHits (s.signs name) (s.inScope ⟨version, kind, owner⟩) = []
  · exact ⟨_, .notFound asks (firstHits_eq_nil_iff.mp absent)⟩
  · exact ⟨_, .found asks absent⟩

theorem exists_answer (s : Store) (kind : MemberKind) (text version : String) :
    ∃ answer, Answers s kind text version answer := by
  by_cases filled : Text.trim text.toList = []
  · exact ⟨_, .blank filled⟩
  cases cut : Text.cutLast? '.' (Text.trim text.toList) with
  | none => exact (Asks.anywhere filled (Text.cutLast?_eq_none_iff.mp cut)).exists_answer
  | some parts =>
    obtain ⟨whole, last⟩ := Text.cutLast?_eq_some_iff.mp cut
    by_cases parameter : kind = .parameter
    · exact ⟨_, .parameterOfClass parameter (by simp [whole])⟩
    by_cases missing : parts.1 = [] ∨ parts.2 = []
    · exact ⟨_, .half parameter whole last missing⟩
    obtain ⟨named, named'⟩ := not_or.mp missing
    cases answer : s.namedClass version (String.ofList parts.1) with
    | error fault => exact ⟨_, .noClass parameter whole last named named' answer⟩
    | ok owner => exact (Asks.within parameter whole last named named' answer).exists_answer

theorem Indexed.resolve_eq_iff {s : Store} (indexed : s.Indexed) {kind : MemberKind}
    {text version : String} {answer : Except Fault Resolution} :
    s.resolve ⟨.member kind, text, version⟩ = answer ↔ Answers s kind text version answer := by
  constructor
  · rintro rfl
    obtain ⟨answer, answers⟩ := s.exists_answer kind text version
    rwa [indexed.resolve_eq answers]
  · exact indexed.resolve_eq

theorem mem_inScope {s : Store} {scope : Scope} {m : MemberRecord} :
    m ∈ s.inScope scope ↔ m ∈ s.members ∧ m.key.version = scope.version ∧
      m.key.kind = scope.kind ∧ ∀ id ∈ scope.owner, m.owner = some id := by
  cases owner : scope.owner with
  | none => simp [inScope, owner]
  | some id => simp [inScope, owner, and_assoc]

/-- After every run from an empty store or a stored one, a query for members has the answer that the
rules give it and no other. The members that it finds are in the version, of the kind and, if the
name is qualified, in the class that were asked for, and they are all of those that one sign tells,
while the signs tried before it tell none. -/
theorem member_query_answers {s₀ : Store} (origin : Origin s₀) (steps : List Step)
    (kind : MemberKind) (text version : String) :
    let s := replay Step.run steps s₀
    (∀ answer, s.resolve ⟨.member kind, text, version⟩ = answer ↔
        Answers s kind text version answer) ∧
      ∀ records, s.resolve ⟨.member kind, text, version⟩ = .ok (.members records) →
        ∃ owner name before sign after,
          Asks s kind version (Text.trim text.toList) owner name ∧
          s.signs name = before ++ sign :: after ∧
          (∀ earlier ∈ before, (s.inScope ⟨version, kind, owner⟩).filter earlier = []) ∧
          records = (s.inScope ⟨version, kind, owner⟩).filter sign ∧ records ≠ [] ∧
          ∀ m ∈ records, m.key.version = version ∧ m.key.kind = kind ∧
            ∀ id ∈ owner, m.owner = some id := by
  intro s
  have indexed : s.Indexed := (sound_of_replay origin steps).toIndexed
  refine ⟨fun answer => indexed.resolve_eq_iff, fun records answered => ?_⟩
  cases indexed.resolve_eq_iff.mp answered with
  | @found owner name asks present =>
    obtain ⟨before, sign, after, split, passed, same⟩ := exists_test_of_firstHits_ne_nil present
    refine ⟨owner, name, before, sign, after, asks, split, passed, same, present, ?_⟩
    intro m hit
    rw [same] at hit
    exact (mem_inScope.mp (List.mem_of_mem_filter hit)).2

/-- A field that has the number of another as its obfuscated name, and two that share one. -/
def sevens : List Step :=
  match Graph.read "a Base\n\t7 field_3_d\n\td field_7_e\nb Sub\n\td field_9_f\n" with
  | .error _ => []
  | .ok graph =>
    [.operation (.importGraph ⟨0, 0⟩ "1" graph "0"),
      .operation (.rename (fun _ => false) ⟨60, 0⟩ "ann" ⟨⟨"1", .field, "field_3_d"⟩, "d", false⟩)]

/-- The number comes before the obfuscated name, which comes before the final one. -/
theorem member_query_answers_sevens :
    let s := replay Step.run sevens .empty
    s.members.map MemberRecord.obfuscated = ["7", "d", "d"] ∧
      s.members.map s.finalName? = [some "d", none, none] ∧
      s.resolve ⟨.member .field, " 7", "1"⟩ = .ok (.members ((s.members.drop 1).take 1)) ∧
      s.resolve ⟨.member .field, "d", "1"⟩ = .ok (.members (s.members.drop 1)) ∧
      s.resolve ⟨.member .field, "b.d", "1"⟩ = .ok (.members (s.members.drop 2)) := by
  intro s
  have anywhere (text : String) (filled : Text.trim text.toList ≠ [])
      (whole : '.' ∉ Text.trim text.toList)
      (present : firstHits (s.signs (String.ofList (Text.trim text.toList)))
        (s.inScope ⟨"1", .field, none⟩) ≠ []) :=
    ((member_query_answers .empty sevens .field text "1").1 _).mpr
      (.found (.anywhere filled whole) present)
  have within : Asks s .field "1" (Text.trim "b.d".toList) (some 1) (String.ofList ['d']) :=
    @Asks.within s .field "1" _ ['b'] ['d'] ⟨1, "Sub", "b", "1"⟩ (by decide) (by decide +kernel)
      (by decide) (by decide) (by decide) (by decide +kernel)
  refine ⟨by decide +kernel, by decide +kernel, ?_, ?_, ?_⟩
  · exact (anywhere " 7" (by decide +kernel) (by decide +kernel) (by decide +kernel)).trans
      (by decide +kernel)
  · exact (anywhere "d" (by decide +kernel) (by decide +kernel) (by decide +kernel)).trans
      (by decide +kernel)
  · exact (((member_query_answers .empty sevens .field "b.d" "1").1 _).mpr
      (.found within (by decide +kernel))).trans (by decide +kernel)

end Store

end SymbolAtlas
