import SymbolAtlas.Proofs.GraphChanges
import SymbolAtlas.Proofs.KeepFirst
import SymbolAtlas.Proofs.PairedIndex

/-! The classes of a graph against the lines that it was read from. The lines fall into sections: a
line without a leading tab and the lines with one that follow it. Each section describes one class,
in the order of the sections; what repeats a name in its section is dropped, by one rule for fields
and another for methods. The reader takes the lines one by one and puts each member into a class
that it looks up by name; that this class is the one of the section is what the proof is about. -/
namespace SymbolAtlas

theorem Text.map_snd_zipIdx (first : Nat) (lines : List (List Char)) :
    ((lines.zipIdx first).filterMap (fun l =>
      if allBlank l.1 then none else some (l.2, l.1))).map Prod.snd =
      lines.filter (fun line => !allBlank line) := by
  induction lines generalizing first with
  | nil => rfl
  | cons line lines ih =>
    rw [List.zipIdx_cons, List.filterMap_cons]
    by_cases blank : allBlank line = true <;> simp [blank, ih]

theorem Text.map_snd_numbered (lines : List (List Char)) :
    (numbered lines).map Prod.snd = lines.filter (fun line => !allBlank line) :=
  map_snd_zipIdx 1 lines

/-- A line that opens a class, and the texts of the member lines below it without their tabs. -/
structure Section where
  header : List Char
  members : List (List Char)
  deriving DecidableEq, Repr

namespace Section

def lines (x : Section) : List (List Char) := x.header :: x.members.map ('\t' :: ·)

/-- A member line with a parenthesis tells of a method, one without of a field. -/
def methodTexts (x : Section) : List (List Char) := x.members.filter (·.contains '(')

def fieldTexts (x : Section) : List (List Char) := x.members.filter (fun text => !text.contains '(')

def extend (x : Section) (text : List Char) : Section := ⟨x.header, x.members ++ [text]⟩

theorem lines_extend (x : Section) (text : List Char) :
    (x.extend text).lines = x.lines ++ ['\t' :: text] := by
  simp [lines, extend]

end Section

namespace Graph

/-- The lines of a section tell of exactly this class. A field goes that has either name in common
with a field kept before it; a method goes only for its intermediate name. -/
structure Describes (x : Section) (c : ClassSymbol) : Prop where
  unindented : x.header.head? ≠ some '\t'
  names : x.header.splitOn ' ' = [c.obfuscated.toList, c.intermediate.toList]
  named : c.obfuscated ≠ "" ∧ c.intermediate ≠ ""
  fields : ∃ all, List.Forall₂ (FieldLine c.intermediate) x.fieldTexts all ∧
    c.fields.toList = keepFirst
      (fun f g => f.intermediate = g.intermediate || f.obfuscated = g.obfuscated) all
  methods : ∃ all, List.Forall₂ (MethodLine c.intermediate) x.methodTexts all ∧
    c.methods.values = keepFirst (fun m n => m.intermediate = n.intermediate) all

structure Open (x : Section) (c : ClassSymbol) : Prop extends Describes x c where
  fieldIndex : c.fields.Paired
  methodTable : c.methods.NamedBy Method.intermediate

theorem open_header {line : List Char} {c : ClassSymbol} (unindented : line.head? ≠ some '\t')
    (read : readHeader line = .ok c) : Open ⟨line, []⟩ c := by
  obtain ⟨obfuscated, intermediate, tokens, filled, rfl⟩ := readHeader_eq_ok_iff.mp read
  exact {
    unindented
    names := by simpa [ClassSymbol.bare] using tokens
    named := by simpa [ClassSymbol.bare] using filled
    fields := ⟨[], .nil, rfl⟩
    methods := ⟨[], .nil, rfl⟩
    fieldIndex := Index.paired_empty
    methodTable := Table.namedBy_empty _ }

section

variable {x : Section} {c : ClassSymbol} {text : List Char}

theorem Open.field (opened : Open x c) (plain : text.contains '(' = false) {f : Field}
    (line : FieldLine c.intermediate text f) :
    match c.fields.insert f with
    | .error _ => Open (x.extend text) c
    | .ok fields => Open (x.extend text) { c with fields } := by
  obtain ⟨all, pairs, kept⟩ := opened.fields
  have fieldTexts : (x.extend text).fieldTexts = x.fieldTexts ++ [text] := by
    simp only [Section.fieldTexts, Section.extend, List.filter_append, List.filter_cons, plain]
    rfl
  have methodTexts : (x.extend text).methodTexts = x.methodTexts := by
    simp only [Section.methodTexts, Section.extend, List.filter_append, List.filter_cons, plain]
    exact List.append_nil _
  have told : List.Forall₂ (FieldLine c.intermediate) (x.extend text).fieldTexts (all ++ [f]) :=
    fieldTexts ▸ forall₂_concat pairs line
  rcases opened.fieldIndex.insert_cases f with ⟨⟨g, known, shared⟩, name, refused⟩ |
    ⟨fresh, fields, taken, paired, added⟩
  · rw [refused]
    refine { opened with fields := ⟨_, told, ?_⟩, methods := methodTexts ▸ opened.methods }
    rw [keepFirst_concat, if_pos, kept]
    rw [← kept, List.any_eq_true]
    exact ⟨g, known, shared⟩
  · rw [taken]
    refine { opened with
      fields := ⟨_, told, ?_⟩, methods := methodTexts ▸ opened.methods, fieldIndex := paired }
    rw [keepFirst_concat, if_neg, ← kept]
    · exact added
    · rw [← kept, Bool.not_eq_true, List.any_eq_false]
      exact fun g known => Bool.eq_false_iff.mp (fresh g known)

theorem Open.method (opened : Open x c) (paren : text.contains '(' = true) {m : Method}
    (line : MethodLine c.intermediate text m) :
    Open (x.extend text) (if c.methods.contains m.intermediate then c
      else { c with methods := c.methods.insert m.intermediate m }) := by
  obtain ⟨all, pairs, kept⟩ := opened.methods
  have fieldTexts : (x.extend text).fieldTexts = x.fieldTexts := by
    simp only [Section.fieldTexts, Section.extend, List.filter_append, List.filter_cons, paren]
    exact List.append_nil _
  have methodTexts : (x.extend text).methodTexts = x.methodTexts ++ [text] := by
    simp only [Section.methodTexts, Section.extend, List.filter_append, List.filter_cons, paren]
    rfl
  have told : List.Forall₂ (MethodLine c.intermediate) (x.extend text).methodTexts (all ++ [m]) :=
    methodTexts ▸ forall₂_concat pairs line
  have known_iff : c.methods.contains m.intermediate = true ↔
      (keepFirst (fun m n : Method => m.intermediate = n.intermediate) all).any
        (fun n => m.intermediate = n.intermediate) = true := by
    rw [opened.methodTable.contains_iff, kept, List.any_eq_true]
    simp only [decide_eq_true_eq, eq_comm (a := m.intermediate)]
  by_cases known : c.methods.contains m.intermediate = true
  · rw [if_pos known]
    refine { opened with fields := fieldTexts ▸ opened.fields, methods := ⟨_, told, ?_⟩ }
    rw [keepFirst_concat, if_pos (known_iff.mp known), kept]
  · rw [if_neg known]
    have absent := Bool.eq_false_iff.mpr known
    refine { opened with
      fields := fieldTexts ▸ opened.fields
      methods := ⟨_, told, ?_⟩
      methodTable := opened.methodTable.insert absent }
    rw [keepFirst_concat, if_neg (fun taken => known (known_iff.mpr taken)), ← kept]
    exact Table.values_insert_new absent m

end

/-- What the reader holds after some lines: a class for every section, and the class of the section
it is in. -/
inductive Mirrors : List (List Char) → Reading → Prop where
  | start : Mirrors [] .start
  | inside {r : Reading} {sections : List Section} {classes : List ClassSymbol} {x : Section}
      {c : ClassSymbol} (closed : List.Forall₂ Describes sections classes) (opened : Open x c)
      (paired : r.graph.classes.Paired) (entries : r.graph.classes.toList = classes ++ [c])
      (current : r.current = some c.intermediate) :
      Mirrors (sections.flatMap Section.lines ++ x.lines) r

theorem Mirrors.sections {lines : List (List Char)} {r : Reading} (mirrors : Mirrors lines r) :
    r.graph.classes.Paired ∧ ∃ sections, lines = sections.flatMap Section.lines ∧
      List.Forall₂ Describes sections r.graph.classes.toList := by
  cases mirrors with
  | start => exact ⟨Index.paired_empty, [], rfl, .nil⟩
  | @inside _ sections classes x c closed opened paired entries current =>
    refine ⟨paired, sections ++ [x], by simp, ?_⟩
    rw [entries]
    exact forall₂_concat closed opened.toDescribes

theorem Mirrors.header {lines : List (List Char)} {r next : Reading} (mirrors : Mirrors lines r)
    {line : List Char} (unindented : line.head? ≠ some '\t') (read : r.header line = .ok next) :
    Mirrors (lines ++ [line]) next := by
  obtain ⟨paired, sections, rfl, closed⟩ := mirrors.sections
  obtain ⟨c, opened, read⟩ := bind_eq_ok.mp read
  obtain ⟨graph, inserted, read⟩ := bind_eq_ok.mp read
  cases read
  obtain ⟨classes, taken, rfl⟩ := map_eq_ok.mp inserted
  rcases paired.insert_cases c with ⟨_, name, refused⟩ | ⟨_, new, accepted, paired', added⟩
  · rw [refused] at taken
    cases taken
  · cases accepted.symm.trans taken
    exact .inside closed (open_header unindented opened) paired' added rfl

theorem Mirrors.member {lines : List (List Char)} {r next : Reading} (mirrors : Mirrors lines r)
    {text : List Char} {name : String} {owner : ClassSymbol} (found : r.owner? = some (name, owner))
    (read : r.member name owner text = .ok next) : Mirrors (lines ++ ['\t' :: text]) next := by
  cases mirrors with
  | start => cases found
  | @inside _ sections classes x c closed opened paired entries current =>
    obtain ⟨last, changed⟩ := paired.keyed.last entries
    have here : r.owner? = some (c.intermediate, c) :=
      Reading.owner?_eq_some_iff.mpr ⟨current, last⟩
    cases here.symm.trans found
    rw [List.append_assoc, ← x.lines_extend]
    unfold Reading.member at read
    split at read
    case isTrue paren =>
      obtain ⟨m, told, rfl⟩ := map_eq_ok.mp read
      have grown := opened.method paren (readMethod_eq_ok_iff.mp told)
      unfold addMethod
      split
      case isTrue known =>
        rw [if_pos known] at grown
        exact .inside closed grown paired entries current
      case isFalse fresh =>
        rw [if_neg fresh] at grown
        let grow (c : ClassSymbol) : ClassSymbol :=
          { c with methods := c.methods.insert m.intermediate m }
        exact .inside closed grown (paired.modify (f := grow) (fun _ => ⟨rfl, rfl⟩) _)
          (changed grow) current
    case isFalse plain =>
      obtain ⟨f, told, rfl⟩ := map_eq_ok.mp read
      have grown := opened.field (Bool.eq_false_iff.mpr plain) (readField_eq_ok_iff.mp told)
      unfold addField
      split
      case h_1 fault refused =>
        rw [refused] at grown
        exact .inside closed grown paired entries current
      case h_2 fields taken =>
        rw [taken] at grown
        let grow (c : ClassSymbol) : ClassSymbol := { c with fields }
        exact .inside closed grown (paired.modify (f := grow) (fun _ => ⟨rfl, rfl⟩) _)
          (changed grow) current

theorem Mirrors.line {lines : List (List Char)} {r next : Reading} (mirrors : Mirrors lines r)
    {line : List Char} (read : r.line line = .ok next) : Mirrors (lines ++ [line]) next := by
  unfold Reading.line at read
  split at read
  case h_1 text =>
    cases found : r.owner? with
    | none =>
      rw [found] at read
      cases read
    | some owner =>
      rw [found] at read
      exact mirrors.member found read
  case h_2 line other =>
    refine mirrors.header (fun tab => ?_) read
    obtain ⟨text, rfl⟩ := List.head?_eq_some_iff.mp tab
    exact other text rfl

/-- The lines that tell of classes and members: without their ends, and blank lines left out. -/
def contentLines (lines : List (List Char)) : List (List Char) :=
  (lines.map dropLineEnd).filter (fun line => !Text.allBlank line)

theorem mirrors_of_readLines {lines : List (List Char)} {g : Graph}
    (read : readLines lines = .ok g) : ∃ r : Reading, r.graph = g ∧ Mirrors (contentLines lines) r := by
  obtain ⟨last, ended, rfl⟩ := map_eq_ok.mp read
  refine ⟨last, rfl, ?_⟩
  have mirrors := related_of_foldlM (fun done r => Mirrors (done.map Prod.snd) r)
    (fun done r l next mirrors step => by
      rw [List.map_append]
      exact mirrors.line (mapError_eq_ok.mp step)) [] Mirrors.start ended
  rwa [List.nil_append, Text.map_snd_numbered] at mirrors

/-- Every method of a graph that was read is told by a line. -/
theorem exists_methodLine {lines : List (List Char)} {g : Graph} (read : readLines lines = .ok g)
    {c : ClassSymbol} (listed : c ∈ g.classes.toList) {m : Method}
    (member : m ∈ c.methods.values) : ∃ text, MethodLine c.intermediate text m := by
  obtain ⟨r, rfl, mirrors⟩ := mirrors_of_readLines read
  obtain ⟨_, sections, _, described⟩ := mirrors.sections
  obtain ⟨x, _, describes⟩ := origin_of_forall₂ described listed
  obtain ⟨all, told, kept⟩ := describes.methods
  obtain ⟨text, _, tells⟩ := origin_of_forall₂ told (mem_of_mem_keepFirst (kept ▸ member))
  exact ⟨text, tells⟩

/-- Lines that are read as a graph fall into sections, and these describe the classes of the graph
one by one. -/
theorem sections_describe_classes {lines : List (List Char)} {g : Graph}
    (read : readLines lines = .ok g) :
    ∃ sections, contentLines lines = sections.flatMap Section.lines ∧
      List.Forall₂ Describes sections g.classes.toList := by
  obtain ⟨r, rfl, mirrors⟩ := mirrors_of_readLines read
  exact mirrors.sections.2

/-- Two classes. In the first a field repeats the obfuscated name of another and a method the
intermediate one; the field that goes is no field of the second. -/
def overlapping : List (List Char) :=
  ["a net/Base", "\tb field_1_b", "\tb field_2_c", "\td (La;)V func_3_d", "\te (I)V func_3_d", "",
    "b net/Sub\r", "\tb field_2_c"].map String.toList

theorem sections_describe_classes_overlapping :
    ∃ g sections, readLines overlapping = .ok g ∧
      contentLines overlapping = sections.flatMap Section.lines ∧
      List.Forall₂ Describes sections g.classes.toList ∧
      g.classes.toList.map (fun c => (c.obfuscated, c.fields.toList.map Field.intermediate,
        c.methods.values.map Method.obfuscated)) =
        [("a", ["field_1_b"], ["d"]), ("b", ["field_2_c"], [])] := by
  have found : (readLines overlapping).toOption.map (fun g => g.classes.toList.map
      (fun c => (c.obfuscated, c.fields.toList.map Field.intermediate,
        c.methods.values.map Method.obfuscated))) =
      some [("a", ["field_1_b"], ["d"]), ("b", ["field_2_c"], [])] := by
    decide +kernel
  cases read : readLines overlapping with
  | error fault =>
    rw [read] at found
    cases found
  | ok g =>
    rw [read] at found
    obtain ⟨sections, content, described⟩ := sections_describe_classes read
    exact ⟨g, sections, rfl, content, described, Option.some.inj found⟩

end Graph

end SymbolAtlas
