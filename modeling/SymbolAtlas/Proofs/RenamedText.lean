import SymbolAtlas.Proofs.GraphIndexes
import SymbolAtlas.Proofs.MappedTypes

/-! Mapping a descriptor, said of its text. Outside of class names an `L` opens one and the next
semicolon closes it, whatever stands between; so a text can be rewritten from left to right, name by
name, without being read. Reading a descriptor, mapping its types and writing it again comes to
exactly this rewriting. Each name of the text is looked up once, and nothing that was put in is
looked up again. -/
namespace SymbolAtlas

namespace Index

variable {α : Type} [Named α]

/-- An index that was filled by insertions, with its entries changed in place. -/
inductive Made : Index α → Prop where
  | empty : Made .empty
  | insert {ix new : Index α} (made : Made ix) (entry : α) (inserted : ix.insert entry = .ok new) :
      Made new
  | modify {ix : Index α} (made : Made ix) (name : String) {f : α → α}
      (same : ∀ x, Named.intermediate (f x) = Named.intermediate x ∧
        Named.obfuscated (f x) = Named.obfuscated x) : Made (ix.modify name f)

theorem Made.paired {ix : Index α} (made : ix.Made) : ix.Paired := by
  induction made with
  | empty => exact paired_empty
  | insert _ entry inserted ih =>
    rcases ih.insert_cases entry with ⟨_, name, refused⟩ | ⟨_, new, accepted, paired, _⟩
    · cases refused.symm.trans inserted
    · cases accepted.symm.trans inserted
      exact paired
  | modify _ name same ih => exact ih.modify same name

end Index

theorem Text.append_sep_inj {sep : Char} {before before' after after' : List Char}
    (free : sep ∉ before) (free' : sep ∉ before')
    (same : before ++ sep :: after = before' ++ sep :: after') :
    before = before' ∧ after = after' := by
  rcases List.append_eq_append_iff.mp same with ⟨m, rfl, rest⟩ | ⟨m, rfl, rest⟩
  all_goals
    cases m with
    | nil => simp_all
    | cons c m =>
      obtain ⟨rfl, -⟩ := List.cons.inj rest
      simp at free free'

/-- A text with each class name in it exchanged. An `L` that is in no name opens one, and the name
goes on to the next semicolon. -/
inductive Renamed (turns : String → String → Prop) : List Char → List Char → Prop where
  | done : Renamed turns [] []
  | plain {c : Char} (outside : c ≠ 'L') {s s' : List Char} (rest : Renamed turns s s') :
      Renamed turns (c :: s) (c :: s')
  | name {name : List Char} (closed : ';' ∉ name) {new : String}
      (turned : turns (String.ofList name) new) {s s' : List Char} (rest : Renamed turns s s') :
      Renamed turns ('L' :: (name ++ ';' :: s)) ('L' :: (new.toList ++ ';' :: s'))

namespace Renamed

variable {turns : String → String → Prop}

theorem append {s s' t t' : List Char} (first : Renamed turns s s') (second : Renamed turns t t') :
    Renamed turns (s ++ t) (s' ++ t') := by
  induction first with
  | done => exact second
  | plain outside _ ih => exact .plain outside ih
  | name closed turned _ ih =>
    simp only [List.cons_append, List.append_assoc]
    exact .name closed turned ih

theorem same {s : List Char} (outside : 'L' ∉ s) : Renamed turns s s := by
  induction s with
  | nil => exact .done
  | cons c s ih =>
    rw [List.mem_cons, not_or] at outside
    exact .plain (Ne.symm outside.1) (ih outside.2)

theorem of_name {name s out : List Char} (closed : ';' ∉ name)
    (renamed : Renamed turns ('L' :: (name ++ ';' :: s)) out) :
    ∃ new s', turns (String.ofList name) new ∧ Renamed turns s s' ∧
      out = 'L' :: (new.toList ++ ';' :: s') := by
  generalize whole : 'L' :: (name ++ ';' :: s) = text at renamed
  cases renamed with
  | done => cases whole
  | plain outside => exact absurd (List.cons.inj whole).1.symm outside
  | @name name' closed' new turned s₁ s' rest =>
    obtain ⟨rfl, rfl⟩ := Text.append_sep_inj closed closed' (List.cons.inj whole).2
    exact ⟨new, s', turned, rest, rfl⟩

theorem unique (once : ∀ name new other, turns name new → turns name other → new = other)
    {s out other : List Char} (first : Renamed turns s out) (second : Renamed turns s other) :
    out = other := by
  induction first generalizing other with
  | done =>
    cases second
    rfl
  | plain outside _ ih =>
    generalize whole : _ :: _ = text at second
    cases second with
    | done => cases whole
    | plain _ rest =>
      obtain ⟨rfl, rfl⟩ := List.cons.inj whole
      rw [ih rest]
    | name => exact absurd (List.cons.inj whole).1 outside
  | name closed turned _ ih =>
    obtain ⟨new, s', turned', rest, rfl⟩ := of_name closed second
    rw [once _ _ _ turned turned', ih rest]

end Renamed

namespace Graph

/-- What a name of a class turns into: the intermediate name of the class that has it as its
obfuscated name, or the name itself if there is no such class. -/
def Turns (g : Graph) (name new : String) : Prop :=
  (∃ c ∈ g.classes.toList, c.obfuscated = name ∧ c.intermediate = new) ∨
    (∀ c ∈ g.classes.toList, c.obfuscated ≠ name) ∧ new = name

theorem turns_iff {g : Graph} (made : g.classes.Made) {name new : String} :
    g.Turns name new ↔ g.mapClass name = new := by
  have finds := made.paired.finds
  constructor
  · rintro (⟨c, listed, rfl, rfl⟩ | ⟨unlisted, rfl⟩)
    · exact mapClass_listed finds listed
    · exact mapClass_unlisted finds unlisted
  · rintro rfl
    by_cases known : ∃ c ∈ g.classes.toList, c.obfuscated = name
    · obtain ⟨c, listed, rfl⟩ := known
      exact .inl ⟨c, listed, rfl, (mapClass_listed finds listed).symm⟩
    · have unlisted : ∀ c ∈ g.classes.toList, c.obfuscated ≠ name :=
        fun c listed same => known ⟨c, listed, same⟩
      exact .inr ⟨unlisted, mapClass_unlisted finds unlisted⟩

theorem depth_mapType (g : Graph) (t : TypeRef) : (g.mapType t).depth = t.depth := by
  unfold mapType
  split
  · exact TypeRef.depth_object _ _
  · rfl

theorem renamed_mapType {g : Graph} (made : g.classes.Made) {t : TypeRef} (proper : t.Proper) :
    Renamed g.Turns t.code (g.mapType t).code := by
  cases proper with
  | @primitive depth c known =>
    rw [mapType_primitive g depth known]
    have outside : c ≠ 'L' := TypeRef.ne_of_isPrimitive known rfl
    exact .same (by simp [TypeRef.primitive, Ne.symm outside])
  | @object depth name closed =>
    rw [mapType_object]
    have brackets : Renamed g.Turns (List.replicate depth '[') (List.replicate depth '[') :=
      .same (by simp)
    exact brackets.append (.name closed ((turns_iff made).mpr rfl) .done)

theorem renamed_mapDescriptor {g : Graph} (made : g.classes.Made) {d : Descriptor}
    (readable : d.Readable) : Renamed g.Turns d.code (g.mapDescriptor d).code := by
  have arguments : ∀ ts : List TypeRef, (∀ t ∈ ts, t.Proper) →
      Renamed g.Turns (ts.flatMap TypeRef.code) ((ts.map g.mapType).flatMap TypeRef.code) := by
    intro ts proper
    induction ts with
    | nil => exact .done
    | cons t ts ih =>
      rw [List.forall_mem_cons] at proper
      exact (renamed_mapType made proper.1).append (ih proper.2)
  have result : Renamed g.Turns d.result.code (g.mapType d.result).code := by
    rcases readable.result with nothing | proper
    · rw [nothing]
      exact .same (by decide)
    · exact renamed_mapType made proper
  exact .plain (by decide)
    ((arguments d.arguments readable.arguments).append (.plain (by decide) result))

/-- The type of a parameter is the argument's type with its class name exchanged. -/
def Takes (g : Graph) (t : TypeRef) (p : Parameter) : Prop :=
  p.type.depth = t.depth ∧ (t.Proper → Renamed g.Turns t.code p.type.code)

theorem takes_parameters {g : Graph} (made : g.classes.Made) (m : Method) :
    List.Forall₂ g.Takes m.descriptor.arguments (g.parameters m) := by
  refine List.forall₂_iff_get.mpr ⟨by simp [parameters], fun i there _ => ?_⟩
  simp only [parameters, List.get_eq_getElem, List.getElem_mapIdx]
  exact ⟨depth_mapType g _, renamed_mapType made⟩

theorem index_parameters (g : Graph) (m : Method) :
    (g.parameters m).map Parameter.index = List.range m.arity := by
  refine List.ext_getElem (by simp [parameters, Method.arity]) (fun i there _ => ?_)
  simp [parameters]

/-- The text of a mapped descriptor is the text that was read with its class names exchanged, and a
method has one parameter for each of its arguments, in order and of the same depth. -/
theorem mapped_text_renamed {g : Graph} (made : g.classes.Made) {text : String} {d : Descriptor}
    (read : Descriptor.read text = .ok d) :
    (∀ s, Renamed g.Turns text.toList s ↔ s = (g.mapDescriptor d).encode.toList) ∧
      ∀ m : Method, (g.parameters m).map Parameter.index = List.range m.arity ∧
        List.Forall₂ g.Takes m.descriptor.arguments (g.parameters m) := by
  obtain ⟨rfl, readable⟩ := Descriptor.read_eq_ok_iff.mp read
  have renamed : Renamed g.Turns d.encode.toList (g.mapDescriptor d).encode.toList := by
    simpa only [Descriptor.encode, String.toList_ofList] using renamed_mapDescriptor made readable
  have once : ∀ name new other, g.Turns name new → g.Turns name other → new = other :=
    fun name new other first second =>
      ((turns_iff made).mp first).symm.trans ((turns_iff made).mp second)
  refine ⟨fun s => ⟨fun other => other.unique once renamed, ?_⟩, fun m => ?_⟩
  · rintro rfl
    exact renamed
  · exact ⟨index_parameters g m, takes_parameters made m⟩

theorem kept_made : Kept (fun g => g.classes.Made) where
  opened _ inserted made := by
    obtain ⟨classes, accepted, rfl⟩ := map_eq_ok.mp inserted
    exact made.insert _ accepted
  field f _ _ made := by
    unfold addField
    split
    · exact made
    · exact made.modify _ (fun _ => ⟨rfl, rfl⟩)
  method m _ _ made := by
    unfold addMethod
    split
    · exact made
    · exact made.modify _ (fun _ => ⟨rfl, rfl⟩)
  marked _ _ made := made.modify _ (fun _ => ⟨rfl, rfl⟩)
  constructed _ made := made.modify _ (fun _ => ⟨rfl, rfl⟩)

theorem made_edited {lines : List (List Char)} {g : Graph} (read : readLines lines = .ok g)
    (edits : List Edit) : (g.edited edits).classes.Made := by
  refine kept_made.edited (fun inserted made => ?_) (kept_made.readLines .empty read) edits
  obtain ⟨classes, accepted, rfl⟩ := map_eq_ok.mp inserted
  exact made.insert _ accepted

/-- Two classes in a chain, and one with parentheses and brackets in its name. -/
def bracketed : List (List Char) := ["a b", "b c", "x)[Ly( La"].map String.toList

/-- Names that were put in are not looked up again, and an `L` in a name opens none. -/
theorem mapped_text_renamed_bracketed :
    ∃ g d, readLines bracketed = .ok g ∧
      Descriptor.read "(La;[[Lb;ILx)[Ly(;LLa;)[Lb;" = .ok d ∧
      Renamed g.Turns "(La;[[Lb;ILx)[Ly(;LLa;)[Lb;".toList "(Lb;[[Lc;ILLa;LLa;)[Lc;".toList := by
  let g := (readLines bracketed).toOption.getD .empty
  let d := (Descriptor.read "(La;[[Lb;ILx)[Ly(;LLa;)[Lb;").toOption.getD ⟨[], .void⟩
  have read : readLines bracketed = .ok g := by decide +kernel
  have known : Descriptor.read "(La;[[Lb;ILx)[Ly(;LLa;)[Lb;" = .ok d := by decide +kernel
  have written : "(Lb;[[Lc;ILLa;LLa;)[Lc;".toList = (g.mapDescriptor d).encode.toList := by
    decide +kernel
  exact ⟨g, d, read, known, ((mapped_text_renamed (made_edited read []) known).1 _).mpr written⟩

end Graph

end SymbolAtlas
