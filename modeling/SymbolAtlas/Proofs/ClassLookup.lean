import Mathlib.Data.Finset.Max
import SymbolAtlas.Proofs.AppendOnly
import SymbolAtlas.Proofs.DocumentRoundTrip
import SymbolAtlas.Proofs.GraphIndexes
import SymbolAtlas.Store.Lookup

/-! Looking a class up by its full name. A name finds the class that has it, and with it all classes
whose names end in a dot and this name. So the full name of a class may find more than the class,
when its package is the end of another; of the names that a lookup leaves open only the longest is
sure to find one class. -/
namespace SymbolAtlas

theorem dotted_dotted (name : String) : dotted (dotted name) = dotted name := by
  rw [dotted, dotted, String.toList_ofList, List.map_map]
  refine congrArg String.ofList (List.map_congr_left (fun c _ => ?_))
  by_cases slash : c = '/' <;> simp [slash]

theorem dotted_ne_empty {name : String} (filled : name ≠ "") : dotted name ≠ "" := by
  simpa [dotted] using filled

namespace Graph

theorem kept_filled : Kept (fun g => ∀ name ∈ g.classes.byIntermediate.keys, name ≠ "") where
  opened filled inserted holds := by
    obtain ⟨classes, made, rfl⟩ := map_eq_ok.mp inserted
    unfold Index.insert at made
    dsimp only at made
    split at made
    · cases made
    split at made
    · cases made
    cases made
    intro name listed
    rw [Table.keys_insert] at listed
    split at listed
    · exact holds name listed
    · rcases List.mem_append.mp listed with known | new
      · exact holds name known
      · exact List.mem_singleton.mp new ▸ filled.2
  field f _ _ holds := by
    unfold addField
    split
    · exact holds
    · simpa only [Index.modify, Table.keys_modify] using holds
  method m _ _ holds := by
    unfold addMethod
    split
    · exact holds
    · simpa only [Index.modify, Table.keys_modify] using holds
  marked name owner holds := by
    simpa only [markStaticIn, Index.modify, Table.keys_modify] using holds
  constructed c holds := by
    simpa only [addConstructor, Index.modify, Table.keys_modify] using holds

theorem Built.filled {g : Graph} (built : g.Built) : ∀ c ∈ g.classes.toList, c.intermediate ≠ "" := by
  have names := kept_filled.built (fun name listed => absurd listed List.not_mem_nil) built
  have keyed := (kept_wired.built wired_empty built).classes.keyed
  intro c listed
  refine names _ ?_
  rw [keyed.keys]
  exact List.mem_map_of_mem listed

end Graph

theorem Operation.classes_run {s : Store} (sound : s.Sound) (op : Operation) :
    (op.run s).classes = s.classes ∨ ∃ now version g digest,
      op = .importGraph now version g digest ∧
        (op.run s).classes = s.classes ++ g.classRecords version s.classes.length := by
  rcases op.course sound with ⟨now, ran⟩ | ⟨_, nameless⟩
  · exact .inl (ran ▸ (Store.repointed_enterAll s now _).classes)
  · generalize op.run s = t at nameless
    cases nameless with
    | imported pending fresh made =>
      exact .inr ⟨_, _, _, _, rfl, (Store.takenIn_withVersion made s _ _).classes⟩
    | _ => exact .inl rfl

namespace Store

theorem classes_reload (s : Store) : s.reload.classes = s.classes := by
  unfold reload
  split
  case h_1 read => exact (parse_document_iff.mp read).1.classes.2.symm
  case h_2 => rfl

/-- Where a class comes from: a class of a graph that one of the steps imported as its version. -/
structure Imports (steps : List Step) (c : ClassRecord) (g : Graph) (x : ClassSymbol) : Prop where
  step : ∃ now digest, .operation (.importGraph now c.version g digest) ∈ steps
  listed : x ∈ g.classes.toList
  intermediate : c.intermediate = dotted x.intermediate
  obfuscated : c.obfuscated = dotted x.obfuscated

theorem imports_of_classRecords {g : Graph} {version : String} {position : Nat} {c : ClassRecord}
    (made : c ∈ g.classRecords version position) {steps : List Step} {now : Instant}
    {digest : String} (step : .operation (.importGraph now version g digest) ∈ steps) :
    ∃ x, Imports steps c g x := by
  obtain ⟨i, bound, rfl⟩ := List.mem_mapIdx.mp made
  exact ⟨_, ⟨now, digest, step⟩, List.getElem_mem bound, rfl, rfl⟩

theorem Imports.concat {steps : List Step} {c : ClassRecord} {g : Graph} {x : ClassSymbol}
    (imports : Imports steps c g x) (step : Step) : Imports (steps ++ [step]) c g x := by
  obtain ⟨now, digest, known⟩ := imports.step
  exact { imports with step := ⟨now, digest, List.mem_append_left _ known⟩ }

/-- Every class was imported: only an import adds classes, and it adds those of its graph. -/
theorem exists_imports (steps : List Step) :
    ∀ c ∈ (replay Step.run steps .empty).classes, ∃ g x, Imports steps c g x := by
  induction steps using List.reverseRecOn with
  | nil => exact fun c listed => absurd listed List.not_mem_nil
  | append_singleton steps step known =>
    let s := replay Step.run steps .empty
    have sound : s.Sound := sound_of_replay .empty steps
    have ran : replay Step.run (steps ++ [step]) .empty = step.run s := List.foldl_append
    have old : ∀ c ∈ s.classes, ∃ g x, Imports (steps ++ [step]) c g x := by
      intro c listed
      obtain ⟨g, x, imports⟩ := known c listed
      exact ⟨g, x, imports.concat step⟩
    rw [ran]
    cases step with
    | reload => exact classes_reload s ▸ old
    | operation op =>
      rcases op.classes_run sound with same | ⟨now, version, g, digest, rfl, added⟩
      · exact same ▸ old
      · intro c listed
        rcases List.mem_append.mp (added ▸ listed) with earlier | new
        · exact old c earlier
        · exact ⟨g, imports_of_classRecords new (List.mem_append_right _ List.mem_cons_self)⟩

def ImportsBuilt (steps : List Step) : Prop :=
  ∀ now version g digest, .operation (.importGraph now version g digest) ∈ steps → g.Built

/-- A class as it is stored: once, and under a dotted name. -/
structure Stored (s : Store) (c : ClassRecord) : Prop where
  nodup : s.classes.Nodup
  listed : c ∈ s.classes
  plain : dotted c.intermediate = c.intermediate
  filled : c.intermediate ≠ ""

theorem stored_of_replay {steps : List Step} (built : ImportsBuilt steps) {c : ClassRecord}
    (listed : c ∈ (replay Step.run steps .empty).classes) :
    Stored (replay Step.run steps .empty) c := by
  have sound : (replay Step.run steps .empty).Sound := sound_of_replay .empty steps
  obtain ⟨g, x, imports⟩ := exists_imports steps c listed
  obtain ⟨now, digest, step⟩ := imports.step
  have filled := (built now c.version g digest step).filled x imports.listed
  refine ⟨sound.classes.nodup, listed, ?_, ?_⟩
  · rw [imports.intermediate, dotted_dotted]
  · exact imports.intermediate ▸ dotted_ne_empty filled

/-- The name of a class is fit to ask for it: asking does not trim it, no other class of the version
has it, and no class has it on the obfuscated side. -/
structure Distinct (s : Store) (c : ClassRecord) : Prop where
  trimmed : Text.trim c.intermediate.toList = c.intermediate.toList
  single : ∀ d ∈ s.classes, d.version = c.version → d.intermediate = c.intermediate → d = c
  unshadowed : ∀ d ∈ s.classes, d.version = c.version → d.obfuscated ≠ c.intermediate

instance (s : Store) (c : ClassRecord) : Decidable (s.Distinct c) :=
  decidable_of_iff (Text.trim c.intermediate.toList = c.intermediate.toList ∧
    (∀ d ∈ s.classes, d.version = c.version → d.intermediate = c.intermediate → d = c) ∧
      ∀ d ∈ s.classes, d.version = c.version → d.obfuscated ≠ c.intermediate)
    ⟨fun parts => ⟨parts.1, parts.2.1, parts.2.2⟩,
      fun distinct => ⟨distinct.trimmed, distinct.single, distinct.unshadowed⟩⟩

/-- The longer name has the other at its end, behind a dot. -/
def Extends (longer name : String) : Prop := ("." ++ name).toList <:+ longer.toList

instance (longer name : String) : Decidable (Extends longer name) :=
  inferInstanceAs (Decidable (("." ++ name).toList <:+ longer.toList))

theorem Extends.trans {a b c : String} (first : Extends a b) (second : Extends b c) :
    Extends a c := by
  have dotless : b.toList <:+ ("." ++ b).toList := by
    rw [String.toList_append]
    exact List.suffix_append _ _
  exact (List.IsSuffix.trans second dotless).trans first

theorem Extends.length_lt {longer name : String} (extending : Extends longer name) :
    name.length < longer.length := by
  have := List.IsSuffix.length_le extending
  rw [String.toList_append, List.length_append, String.length_toList, String.length_toList,
    String.length_toList] at this
  have dot : ".".length = 1 := rfl
  omega

section

variable {s : Store} {c : ClassRecord}

theorem mem_classesBySuffix_dot {version name : String} {d : ClassRecord} :
    d ∈ s.classesBySuffix version ("." ++ name) ↔
      d ∈ s.classes ∧ d.version = version ∧ Extends d.intermediate name := by
  simp [classesBySuffix, Extends]

theorem mem_classMatches {version name : String} {d : ClassRecord} :
    d ∈ s.classMatches version name ↔ d ∈ s.classes ∧ d.version = version ∧
      (Extends d.intermediate name ∨ d.intermediate = name) := by
  rw [classMatches, List.mem_append, mem_classesBySuffix_dot, classesBySuffix]
  constructor
  · rintro (⟨listed, version, extending⟩ | exactly)
    · exact ⟨listed, version, .inl extending⟩
    · simp only [List.mem_filter, Bool.and_eq_true, decide_eq_true_eq] at exactly
      exact ⟨exactly.1.1, exactly.1.2.1, .inr exactly.2⟩
  · rintro ⟨listed, version, extending | rfl⟩
    · exact .inl ⟨listed, version, extending⟩
    · exact .inr (by simp [listed, version])

theorem Distinct.classMatches_eq (distinct : s.Distinct c) (stored : s.Stored c) :
    s.classMatches c.version c.intermediate =
      s.classesBySuffix c.version ("." ++ c.intermediate) ++ [c] := by
  have only : (s.classesBySuffix c.version c.intermediate).filter
      (fun d => d.intermediate = c.intermediate) = s.classes.filter (· == c) := by
    rw [classesBySuffix, List.filter_filter]
    refine List.filter_congr (fun d there => ?_)
    rw [Bool.eq_iff_iff]
    simp only [Bool.and_eq_true, decide_eq_true_eq, beq_iff_eq]
    constructor
    · rintro ⟨named, version, _⟩
      exact distinct.single d there version named
    · rintro rfl
      simp
  rw [classMatches, only, List.filter_beq, List.count_eq_one_of_mem stored.nodup stored.listed]
  rfl

/-- The full name finds the class alone, or is open between the class and those whose names extend
its own. -/
theorem Distinct.resolve_eq (distinct : s.Distinct c) (stored : s.Stored c) :
    s.resolve ⟨.wholeClass, c.intermediate, c.version⟩ =
      match s.classesBySuffix c.version ("." ++ c.intermediate) with
      | [] => .ok (.wholeClass c)
      | others => .error (.ambiguousClass c.intermediate c.version
          (others.map ClassRecord.intermediate ++ [c.intermediate])) := by
  have unnamed : s.classByObfuscated? c.version c.intermediate = none :=
    List.find?_eq_none.mpr (fun d there found => by
      simp only [Bool.and_eq_true, decide_eq_true_eq] at found
      exact distinct.unshadowed d there found.1 found.2)
  have visible : c.intermediate.toList.isEmpty = false := by simpa using stored.filled
  rw [resolve]
  simp only [distinct.trimmed, visible, Bool.false_eq_true, if_false, String.ofList_toList]
  rw [resolveClass, stored.plain]
  simp only [unnamed, distinct.classMatches_eq stored]
  cases s.classesBySuffix c.version ("." ++ c.intermediate) with
  | nil => rfl
  | cons first others =>
    cases others with
    | nil => rfl
    | cons => simp [Except.map]

end

/-- In a store that was built by imports, and changed in any way since, a class that is distinct is
found by its full name exactly when no name of its version extends this name. Otherwise the name is
open, and the class is the last of those to choose from. -/
theorem full_name_resolves_iff {steps : List Step} (built : ImportsBuilt steps) {c : ClassRecord} :
    let s := replay Step.run steps .empty
    c ∈ s.classes → s.Distinct c →
      (s.resolve ⟨.wholeClass, c.intermediate, c.version⟩ = .ok (.wholeClass c) ↔
        ∀ d ∈ s.classes, d.version = c.version → ¬ Extends d.intermediate c.intermediate) ∧
      ∀ d ∈ s.classes, d.version = c.version → Extends d.intermediate c.intermediate →
        ∃ others, d.intermediate ∈ others ∧
          s.resolve ⟨.wholeClass, c.intermediate, c.version⟩ =
            .error (.ambiguousClass c.intermediate c.version (others ++ [c.intermediate])) := by
  intro s listed distinct
  rw [distinct.resolve_eq (stored_of_replay built listed)]
  have found_iff {d : ClassRecord} : d ∈ s.classesBySuffix c.version ("." ++ c.intermediate) ↔
      d ∈ s.classes ∧ d.version = c.version ∧ Extends d.intermediate c.intermediate :=
    mem_classesBySuffix_dot
  cases others : s.classesBySuffix c.version ("." ++ c.intermediate) with
  | nil =>
    have free : ∀ d ∈ s.classes, d.version = c.version →
        ¬ Extends d.intermediate c.intermediate := by
      intro d there version longer
      exact absurd (others ▸ found_iff.mpr ⟨there, version, longer⟩) List.not_mem_nil
    exact ⟨iff_of_true rfl free, fun d there version longer => absurd longer (free d there version)⟩
  | cons first rest =>
    obtain ⟨there, version, longer⟩ := found_iff.mp (others ▸ List.mem_cons_self)
    refine ⟨iff_of_false nofun (fun free => free first there version longer), ?_⟩
    intro d there version longer
    exact ⟨_, List.mem_map_of_mem (others ▸ found_iff.mpr ⟨there, version, longer⟩), rfl⟩

def tails : Graph := (Graph.assemble "a b/Foo\nc a/b/Foo\n" "" "").toOption.getD .empty

def importTails : List Step := [.operation (.importGraph ⟨0, 0⟩ "1" tails "0")]

theorem importsBuilt_importTails : ImportsBuilt importTails := by
  intro now version g digest listed
  cases List.mem_singleton.mp listed
  exact built_getD_assemble ..

/-- The longer of the two full names finds its class, the shorter is open. -/
theorem full_name_resolves_iff_tails :
    let s := replay Step.run importTails .empty
    s.resolve ⟨.wholeClass, "a.b.Foo", "1"⟩ = .ok (.wholeClass ⟨1, "a.b.Foo", "c", "1"⟩) ∧
      s.resolve ⟨.wholeClass, "b.Foo", "1"⟩ ≠ .ok (.wholeClass ⟨0, "b.Foo", "a", "1"⟩) := by
  intro s
  have listed : (⟨0, "b.Foo", "a", "1"⟩ : ClassRecord) ∈ s.classes ∧
      (⟨1, "a.b.Foo", "c", "1"⟩ : ClassRecord) ∈ s.classes := by
    decide +kernel
  have distinct : ∀ c ∈ s.classes, s.Distinct c := by decide +kernel
  have longest : ∀ d ∈ s.classes, d.version = "1" → ¬ Extends d.intermediate "a.b.Foo" := by
    decide +kernel
  have longer : Extends "a.b.Foo" "b.Foo" := by decide +kernel
  constructor
  · exact (full_name_resolves_iff importsBuilt_importTails listed.2 (distinct _ listed.2)).1.mpr
      longest
  · intro resolved
    have free := (full_name_resolves_iff importsBuilt_importTails listed.1
      (distinct _ listed.1)).1.mp resolved
    exact free _ listed.2 rfl longer

/-- The advice for an ambiguous name is to ask for the first class by its full name. Here this is
ambiguous again. -/
theorem advised_name_ambiguous :
    let s := replay Step.run importTails .empty
    ImportsBuilt importTails ∧ (∃ c ∈ s.classes, c.intermediate = "b.Foo" ∧ s.Distinct c) ∧
      s.resolve ⟨.wholeClass, "Foo", "1"⟩ =
        .error (.ambiguousClass "Foo" "1" ["b.Foo", "a.b.Foo"]) ∧
      s.resolve ⟨.wholeClass, "b.Foo", "1"⟩ =
        .error (.ambiguousClass "b.Foo" "1" ["a.b.Foo", "b.Foo"]) := by
  exact ⟨importsBuilt_importTails, by decide +kernel⟩

theorem candidates_of_ambiguous {s : Store} {version name : String} {candidates : List String}
    (ambiguous : s.resolveClass version name = .error (.ambiguousClass name version candidates)) :
    candidates = (s.classMatches version (dotted name)).map ClassRecord.intermediate ∧
      s.classMatches version (dotted name) ≠ [] := by
  unfold resolveClass at ambiguous
  dsimp only at ambiguous
  split at ambiguous
  · cases ambiguous
  split at ambiguous
  · cases ambiguous
  · cases ambiguous
  case h_3 some _ =>
    cases ambiguous
    exact ⟨rfl, some⟩

/-- Some class that an ambiguous name leaves open is found by its full name: one with the longest,
since whatever extends it is open as well. -/
theorem exists_candidate_resolves {steps : List Step} (built : ImportsBuilt steps)
    {version name : String} {candidates : List String} :
    let s := replay Step.run steps .empty
    (∀ c ∈ s.classes, c.version = version → s.Distinct c) →
      s.resolveClass version name = .error (.ambiguousClass name version candidates) →
        ∃ c ∈ s.classes, c.intermediate ∈ candidates ∧
          s.resolve ⟨.wholeClass, c.intermediate, version⟩ = .ok (.wholeClass c) := by
  intro s distinct ambiguous
  obtain ⟨rfl, some⟩ := candidates_of_ambiguous ambiguous
  obtain ⟨c, found, longest⟩ := (s.classMatches version (dotted name)).toFinset.exists_max_image
    (fun c => c.intermediate.length) (List.toFinset_nonempty_iff _ |>.mpr some)
  simp only [List.mem_toFinset] at found longest
  obtain ⟨listed, rfl, named⟩ := mem_classMatches.mp found
  refine ⟨c, listed, List.mem_map_of_mem found, ?_⟩
  have alone : s.classesBySuffix c.version ("." ++ c.intermediate) = [] := by
    refine List.eq_nil_iff_forall_not_mem.mpr (fun d other => ?_)
    obtain ⟨there, version, longer⟩ := mem_classesBySuffix_dot.mp other
    have reached : Extends d.intermediate (dotted name) := by
      rcases named with extending | same
      · exact longer.trans extending
      · exact same ▸ longer
    have bound := longest d (mem_classMatches.mpr ⟨there, version, .inl reached⟩)
    exact absurd longer.length_lt (Nat.not_lt.mpr bound)
  rw [(distinct c listed rfl).resolve_eq (stored_of_replay built listed), alone]

end Store

end SymbolAtlas
