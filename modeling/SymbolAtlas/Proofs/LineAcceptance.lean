import SymbolAtlas.Proofs.ClassSections

/-! Which lines are read as a graph. A line is judged by its shape and by the lines before it: a
header must be new on both sides, and a member must have some header above it. Reading succeeds when
every line fits behind those before it; otherwise its fault names the first line that does not, by
its place among all lines, and what follows that line is of no account. -/
namespace SymbolAtlas

/-- The lines that are not blank, the first of all having this number. -/
def Text.numberedFrom (first : Nat) (lines : List (List Char)) : List (Nat × List Char) :=
  (lines.zipIdx first).filterMap (fun l => if allBlank l.1 then none else some (l.2, l.1))

theorem Text.numberedFrom_append {first : Nat} {ls others : List (List Char)} :
    numberedFrom first (ls ++ others) =
      numberedFrom first ls ++ numberedFrom (first + ls.length) others := by
  rw [numberedFrom, List.zipIdx_append, List.filterMap_append]
  rfl

theorem Text.numberedFrom_cons {first : Nat} {ls : List (List Char)} (line : List Char) :
    numberedFrom first (line :: ls) =
      (if allBlank line then [] else [(first, line)]) ++ numberedFrom (first + 1) ls := by
  rw [numberedFrom, List.zipIdx_cons, List.filterMap_cons]
  by_cases blank : allBlank line = true <;> simp [blank, numberedFrom]

theorem Text.numbered_append_cons (before after : List (List Char)) (line : List Char) :
    numbered (before ++ line :: after) = numbered before ++
      ((if allBlank line then [] else [(before.length + 1, line)]) ++
        numberedFrom (before.length + 2) after) := by
  have parts : numbered (before ++ line :: after) =
      numbered before ++ numberedFrom (1 + before.length) (line :: after) := numberedFrom_append
  rw [parts, numberedFrom_cons, Nat.add_comm 1]

namespace Graph

/-- A line that opens a class of these names. -/
structure HeaderLine (obfuscated intermediate line : List Char) : Prop where
  unindented : line.head? ≠ some '\t'
  names : line.splitOn ' ' = [obfuscated, intermediate]
  filled : obfuscated ≠ [] ∧ intermediate ≠ []

/-- A line that tells of a member, without its tab. -/
inductive MemberLine (text : List Char) : Prop where
  | method {obfuscated descriptor intermediate : List Char} (paren : '(' ∈ text)
      (words : Text.words text = [obfuscated, descriptor, intermediate])
      (readable : ∃ d, Descriptor.read (String.ofList descriptor) = .ok d)
  | field {obfuscated intermediate : List Char} (plain : '(' ∉ text)
      (words : Text.words text = [obfuscated, intermediate])

/-- A line that fits behind these. -/
inductive Fits (earlier : List (List Char)) : List Char → Prop where
  | header {line obfuscated intermediate : List Char}
      (header : HeaderLine obfuscated intermediate line)
      (fresh : ∀ other ∈ earlier, ∀ o i, HeaderLine o i other → o ≠ obfuscated ∧ i ≠ intermediate) :
      Fits earlier line
  | member {text : List Char} (below : ∃ other ∈ earlier, ∃ o i, HeaderLine o i other)
      (member : MemberLine text) : Fits earlier ('\t' :: text)

/-- The line ends are no part of the lines, and blank lines are passed over. -/
def Admits (before : List (List Char)) (line : List Char) : Prop :=
  Text.allBlank (dropLineEnd line) = true ∨ Fits (contentLines before) (dropLineEnd line)

/-- Each line is admitted by those before it. -/
def Admissible (lines : List (List Char)) : Prop :=
  ∀ before line after, lines = before ++ line :: after → Admits before line

theorem admissible_nil : Admissible [] := by
  intro before line after parts
  simp at parts

theorem Admissible.concat {lines : List (List Char)} (admissible : Admissible lines)
    {line : List Char} (admits : Admits lines line) : Admissible (lines ++ [line]) := by
  intro before other after parts
  rcases List.eq_nil_or_concat after with rfl | ⟨after, last, rfl⟩
  · obtain ⟨rfl, same⟩ := List.append_inj' parts rfl
    cases same
    exact admits
  · rw [List.concat_eq_append, ← List.cons_append, ← List.append_assoc] at parts
    exact admissible before other after (List.append_inj' parts rfl).1

theorem Describes.exists_headerLine_iff {x : Section} {c : ClassSymbol} (describes : Describes x c)
    {o i : List Char} : (∃ line ∈ x.lines, HeaderLine o i line) ↔
      c.obfuscated.toList = o ∧ c.intermediate.toList = i := by
  constructor
  · rintro ⟨line, listed, header⟩
    rcases List.mem_cons.mp listed with rfl | indented
    · have names := describes.names.symm.trans header.names
      simpa using names
    · obtain ⟨text, _, rfl⟩ := List.mem_map.mp indented
      exact absurd rfl header.unindented
  · rintro ⟨rfl, rfl⟩
    refine ⟨x.header, List.mem_cons_self, describes.unindented, describes.names, ?_⟩
    simpa using describes.named

section

variable {content : List (List Char)} {r : Reading}

theorem Mirrors.exists_headerLine_iff (mirrors : Mirrors content r) {o i : List Char} :
    (∃ line ∈ content, HeaderLine o i line) ↔
      ∃ c ∈ r.graph.classes.toList, c.obfuscated.toList = o ∧ c.intermediate.toList = i := by
  obtain ⟨_, sections, rfl, described⟩ := mirrors.sections
  generalize r.graph.classes.toList = classes at described
  clear mirrors
  induction described with
  | nil => simp
  | cons describes _ ih =>
    simp only [List.flatMap_cons, List.mem_append, or_and_right, exists_or,
      describes.exists_headerLine_iff, ih, List.mem_cons, exists_eq_left]

theorem Mirrors.owner?_iff (mirrors : Mirrors content r) :
    (∃ owner, r.owner? = some owner) ↔ ∃ other ∈ content, ∃ o i, HeaderLine o i other := by
  have classes : (∃ other ∈ content, ∃ o i, HeaderLine o i other) ↔
      ∃ c, c ∈ r.graph.classes.toList := by
    constructor
    · rintro ⟨other, listed, o, i, header⟩
      obtain ⟨c, known, _⟩ := mirrors.exists_headerLine_iff.mp ⟨other, listed, header⟩
      exact ⟨c, known⟩
    · rintro ⟨c, known⟩
      obtain ⟨other, listed, header⟩ := mirrors.exists_headerLine_iff.mpr ⟨c, known, rfl, rfl⟩
      exact ⟨other, listed, _, _, header⟩
  rw [classes]
  cases mirrors with
  | start =>
    constructor
    · rintro ⟨owner, found⟩
      cases found
    · rintro ⟨c, known⟩
      cases known
  | @inside _ _ older _ c _ _ paired entries current =>
    have last := (paired.keyed.last entries).1
    exact iff_of_true ⟨_, Reading.owner?_eq_some_iff.mpr ⟨current, last⟩⟩ ⟨c, by simp [entries]⟩

theorem sharesName_bare_iff {obfuscated intermediate : List Char} {c : ClassSymbol} :
    Index.sharesName (ClassSymbol.bare (String.ofList obfuscated) (String.ofList intermediate)) c =
      true ↔ c.obfuscated.toList = obfuscated ∨ c.intermediate.toList = intermediate := by
  simp only [Index.sharesName, Named.intermediate, Named.obfuscated, ClassSymbol.bare,
    Bool.or_eq_true, decide_eq_true_eq, ← String.toList_inj, String.toList_ofList]
  rw [or_comm, eq_comm, eq_comm (a := intermediate)]

theorem Mirrors.header_succeeds_iff (mirrors : Mirrors content r) {line : List Char}
    (unindented : line.head? ≠ some '\t') :
    (∃ next, r.header line = .ok next) ↔ Fits content line := by
  have paired := mirrors.sections.1
  constructor
  · rintro ⟨next, read⟩
    obtain ⟨c, opened, read⟩ := bind_eq_ok.mp read
    obtain ⟨graph, inserted, _⟩ := bind_eq_ok.mp read
    obtain ⟨classes, taken, _⟩ := map_eq_ok.mp inserted
    obtain ⟨obfuscated, intermediate, names, filled, rfl⟩ := readHeader_eq_ok_iff.mp opened
    refine .header ⟨unindented, names, filled⟩ (fun other listed o i header => ?_)
    obtain ⟨c, known, rfl, rfl⟩ := mirrors.exists_headerLine_iff.mp ⟨other, listed, header⟩
    rcases paired.insert_cases (ClassSymbol.bare (.ofList obfuscated) (.ofList intermediate)) with
      ⟨_, _, refused⟩ | ⟨fresh, _⟩
    · cases refused.symm.trans taken
    · rw [← not_or, ← sharesName_bare_iff, fresh c known]
      exact Bool.false_ne_true
  · intro fits
    cases fits with
    | member => exact absurd rfl unindented
    | @header _ obfuscated intermediate header fresh =>
      have opened := readHeader_eq_ok_iff.mpr ⟨_, _, header.names, header.filled, rfl⟩
      rcases paired.insert_cases (ClassSymbol.bare (.ofList obfuscated) (.ofList intermediate)) with
        ⟨⟨c, known, shared⟩, _⟩ | ⟨_, classes, taken, _⟩
      · obtain ⟨other, listed, there⟩ := mirrors.exists_headerLine_iff.mpr ⟨c, known, rfl, rfl⟩
        have apart := fresh other listed _ _ there
        exact absurd (sharesName_bare_iff.mp shared) (not_or.mpr apart)
      · exact ⟨_, bind_eq_ok.mpr ⟨_, opened, bind_eq_ok.mpr
          ⟨_, map_eq_ok.mpr ⟨classes, taken, rfl⟩, rfl⟩⟩⟩

theorem Reading.member_succeeds_iff {name : String} {owner : ClassSymbol} {text : List Char} :
    (∃ next, r.member name owner text = .ok next) ↔ MemberLine text := by
  unfold Reading.member
  by_cases paren : text.contains '(' = true
  · rw [if_pos paren]
    have present := List.contains_iff_mem.mp paren
    constructor
    · rintro ⟨next, read⟩
      obtain ⟨m, told, _⟩ := map_eq_ok.mp read
      obtain ⟨descriptor, known, words⟩ := (readMethod_eq_ok_iff.mp told).words
      exact .method present words ⟨_, by rwa [String.ofList_toList]⟩
    · intro line
      cases line with
      | field plain => exact absurd present plain
      | method _ words readable =>
        obtain ⟨d, known⟩ := readable
        rw [readMethod, words]
        simp only [known]
        exact ⟨_, rfl⟩
  · rw [if_neg paren]
    have absent := fun present => paren (List.contains_iff_mem.mpr present)
    constructor
    · rintro ⟨next, read⟩
      obtain ⟨f, told, _⟩ := map_eq_ok.mp read
      exact .field absent (readField_eq_ok_iff.mp told).words
    · intro line
      cases line with
      | method present => exact absurd present absent
      | field _ words =>
        rw [readField, words]
        exact ⟨_, rfl⟩

theorem Mirrors.line_succeeds_iff (mirrors : Mirrors content r) {line : List Char} :
    (∃ next, r.line line = .ok next) ↔ Fits content line := by
  unfold Reading.line
  split
  case h_1 text =>
    constructor
    · rintro ⟨next, read⟩
      cases found : r.owner? with
      | none =>
        rw [found] at read
        cases read
      | some owner =>
        rw [found] at read
        exact .member (mirrors.owner?_iff.mp ⟨owner, found⟩)
          (Reading.member_succeeds_iff.mp ⟨next, read⟩)
    · intro fits
      cases fits with
      | header header => exact absurd rfl header.unindented
      | member below member =>
        obtain ⟨owner, found⟩ := mirrors.owner?_iff.mpr below
        rw [found]
        exact Reading.member_succeeds_iff.mpr member
  case h_2 line other =>
    refine mirrors.header_succeeds_iff (fun tab => ?_)
    obtain ⟨text, rfl⟩ := List.head?_eq_some_iff.mp tab
    exact other text rfl

end

section

variable {r : Reading} {cause : Fault}

theorem blames_of_insert {α : Type} [Named α] {ix : Index α} {entry : α}
    (refused : ix.insert entry = .error cause) : cause.blamesLine = true := by
  unfold Index.insert at refused
  dsimp only at refused
  split at refused
  · cases refused
    rfl
  · split at refused
    · cases refused
      rfl
    · cases refused

theorem blames_of_line {line : List Char} (refused : r.line line = .error cause) :
    cause.blamesLine = true := by
  unfold Reading.line at refused
  split at refused
  · split at refused
    · unfold Reading.member at refused
      split at refused
      · exact blames_of_readMethod (map_eq_error.mp refused)
      · exact blames_of_readField (map_eq_error.mp refused)
    · cases refused
      rfl
  · rcases bind_eq_error.mp refused with unread | ⟨c, _, refused⟩
    · exact blames_of_readHeader unread
    · rcases bind_eq_error.mp refused with taken | ⟨_, _, made⟩
      · exact blames_of_insert (map_eq_error.mp taken)
      · cases made

end

def reading (lines : List (List Char)) : Except Fault Reading :=
  (Text.numbered (lines.map dropLineEnd)).foldlM Reading.numberedLine .start

section

variable {before : List (List Char)} {line : List Char} {r : Reading}

theorem reading_append_cons (read : reading before = .ok r) (after : List (List Char)) :
    reading (before ++ line :: after) =
      ((if Text.allBlank (dropLineEnd line) then []
        else [(before.length + 1, dropLineEnd line)]).foldlM Reading.numberedLine r >>=
          (Text.numberedFrom (before.length + 2) (after.map dropLineEnd)).foldlM
            Reading.numberedLine) := by
  rw [reading] at read
  rw [reading, List.map_append, List.map_cons, Text.numbered_append_cons, List.foldlM_append, read,
    List.length_map]
  exact List.foldlM_append

theorem reading_concat_blank (read : reading before = .ok r)
    (blank : Text.allBlank (dropLineEnd line) = true) : reading (before ++ [line]) = .ok r := by
  rw [reading_append_cons read, if_pos blank]
  rfl

theorem reading_concat (read : reading before = .ok r)
    (visible : Text.allBlank (dropLineEnd line) = false) {next : Reading}
    (taken : r.line (dropLineEnd line) = .ok next) : reading (before ++ [line]) = .ok next := by
  rw [reading_append_cons read, visible]
  simp [Reading.numberedLine, Except.mapError, taken, Text.numberedFrom]

theorem reading_stops (read : reading before = .ok r)
    (visible : Text.allBlank (dropLineEnd line) = false) {cause : Fault}
    (refused : r.line (dropLineEnd line) = .error cause) (after : List (List Char)) :
    reading (before ++ line :: after) = .error (.atLine (before.length + 1) cause) := by
  rw [reading_append_cons read, visible]
  simp only [Reading.numberedLine, Bool.false_eq_true, if_false, List.foldlM_cons, refused]
  rfl

theorem contentLines_concat (before : List (List Char)) (line : List Char) :
    contentLines (before ++ [line]) = contentLines before ++
      (if Text.allBlank (dropLineEnd line) then [] else [dropLineEnd line]) := by
  by_cases blank : Text.allBlank (dropLineEnd line) = true <;> simp [contentLines, blank]

end

/-- What comes of reading lines: all are read, or one of them is the first to be refused. -/
inductive Outcome (lines : List (List Char)) : Prop where
  | taken (admissible : Admissible lines) {r : Reading} (read : reading lines = .ok r)
      (mirrors : Mirrors (contentLines lines) r)
  | refused {before after : List (List Char)} {line : List Char} {cause : Fault}
      (parts : lines = before ++ line :: after) (admissible : Admissible before)
      (bad : ¬ Admits before line) (blames : cause.blamesLine = true)
      (fault : ∀ rest, reading (before ++ line :: rest) =
        .error (.atLine (before.length + 1) cause))

theorem outcome (lines : List (List Char)) : Outcome lines := by
  induction lines using List.reverseRecOn with
  | nil => exact .taken admissible_nil rfl .start
  | append_singleton before line known =>
    cases known with
    | refused parts admissible bad blames fault =>
      exact .refused (by rw [parts, List.append_assoc, List.cons_append]) admissible bad blames fault
    | @taken admissible r read mirrors =>
      by_cases blank : Text.allBlank (dropLineEnd line) = true
      · refine .taken (admissible.concat (.inl blank)) (reading_concat_blank read blank) ?_
        rwa [contentLines_concat, if_pos blank, List.append_nil]
      · have visible := Bool.eq_false_iff.mpr blank
        have fits_iff : (∃ next, r.line (dropLineEnd line) = .ok next) ↔ _ :=
          mirrors.line_succeeds_iff
        cases step : r.line (dropLineEnd line) with
        | ok next =>
          refine .taken (admissible.concat (.inr (fits_iff.mp ⟨next, step⟩)))
            (reading_concat read visible step) ?_
          rw [contentLines_concat, if_neg blank]
          exact mirrors.line step
        | error cause =>
          refine .refused rfl admissible (fun admits => ?_) (blames_of_line step)
            (reading_stops read visible step)
          rcases admits with empty | fits
          · exact blank empty
          · obtain ⟨next, taken⟩ := fits_iff.mpr fits
            cases step.symm.trans taken

/-- Lines are read as a graph when each is admitted by those before it. Otherwise there is a first
line that is not, and the fault is that line's alone: it bears the line's number, blank lines
counted, and is the same whatever stands behind. -/
theorem readLines_succeeds_iff (lines : List (List Char)) :
    ((∃ g, readLines lines = .ok g) ↔ Admissible lines) ∧
      (Admissible lines ∨ ∃ before line after cause, lines = before ++ line :: after ∧
        Admissible before ∧ ¬ Admits before line ∧ cause.blamesLine = true ∧
          ∀ rest, readLines (before ++ line :: rest) =
            .error (.atLine (before.length + 1) cause)) := by
  cases outcome lines with
  | taken admissible read =>
    exact ⟨iff_of_true ⟨_, map_eq_ok.mpr ⟨_, read, rfl⟩⟩ admissible, .inl admissible⟩
  | refused parts admissible bad blames fault =>
    have stops rest := map_eq_error (f := Reading.graph) |>.mpr (fault rest)
    refine ⟨iff_of_false ?_ (fun all => bad (all _ _ _ parts)),
      .inr ⟨_, _, _, _, parts, admissible, bad, blames, stops⟩⟩
    rintro ⟨g, read⟩
    subst parts
    cases read.symm.trans (stops _)

/-- The blank line counts, and the header that is not new does not matter any more. -/
example : readLines (["a net/Base", "", "\tb field_1_b\r", "\tc (", "a net/Sub"].map String.toList) =
    .error (.atLine 4 (.malformedLine "c (" "method line needs 3 tokens, found 2")) := by
  decide +kernel

end Graph

end SymbolAtlas
