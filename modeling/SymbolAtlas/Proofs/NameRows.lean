import SymbolAtlas.Naming.Apply
import SymbolAtlas.Proofs.Fallible
import SymbolAtlas.Proofs.TextLines

/-! Lists of names. Below the heading every line that is not blank is a row, and it is one as soon
as there is a comma in it. So a list that is written row by row reads as these rows, whatever the
further columns, the blank lines and the line ends are; and a list that cannot be read has a line
without a comma, the first of which is reported. -/
namespace SymbolAtlas

namespace Text

def lineEnd (returns : Bool) : List Char := if returns then ['\r', '\n'] else ['\n']

/-- A line that is ended either way is the first of its text. A carriage return of its own goes if
nothing stands between it and the line feed. -/
theorem lines_lineEnd {line : List Char} (free : '\n' ∉ line) (returns : Bool)
    (rest : List Char) :
    ∃ first, lines (line ++ (lineEnd returns ++ rest)) = first :: lines rest ∧
      (first = line ∨ first ++ ['\r'] = line) := by
  cases returns with
  | false =>
    refine ⟨dropReturn line, lines_cons free rest, ?_⟩
    rw [dropReturn]
    split
    case isTrue own => exact .inr (List.dropLast_append_getLast? '\r' own)
    case isFalse => exact .inl rfl
  | true =>
    have shape : line ++ (lineEnd true ++ rest) = line ++ ['\r'] ++ '\n' :: rest := by
      simp [lineEnd]
    refine ⟨dropReturn (line ++ ['\r']), ?_, .inl ?_⟩
    · rw [shape, lines_cons (by simp [free])]
    · rw [dropReturn, if_pos List.getLast?_concat, List.dropLast_concat]

end Text

namespace NameRow

/-- A line that tells a row: its first two columns without the blanks around them. -/
def RowLine (line : List Char) (row : NameRow) : Prop :=
  ∃ intermediate final further, line = intermediate ++ ',' :: (final ++ further) ∧
    ',' ∉ intermediate ∧ ',' ∉ final ∧ (further = [] ∨ further.head? = some ',') ∧
    row = ⟨String.ofList (Text.trim intermediate), String.ofList (Text.trim final)⟩

def noRow (number : Nat) (line : List Char) : Fault :=
  .atLine number (.malformedLine (String.ofList line) "expected `searge,name,...`")

section

variable {line : List Char} {row : NameRow}

theorem ofLine_of_row (told : RowLine line row) (number : Nat) : ofLine number line = .ok row := by
  obtain ⟨intermediate, final, further, rfl, first, second, ends, rfl⟩ := told
  rw [ofLine, Text.splitOn_append first]
  rcases ends with rfl | more
  · rw [List.append_nil, Text.splitOn_of_free second]
  · obtain ⟨others, rfl⟩ := List.head?_eq_some_iff.mp more
    rw [Text.splitOn_append second]

theorem ofLine_of_free (free : ',' ∉ line) (number : Nat) :
    ofLine number line = .error (noRow number line) := by
  rw [ofLine, Text.splitOn_of_free free]
  rfl

theorem exists_rowLine (comma : ',' ∈ line) : ∃ row, RowLine line row := by
  obtain ⟨intermediate, rest, rfl, first⟩ := List.eq_append_cons_of_mem comma
  by_cases more : ',' ∈ rest
  · obtain ⟨final, others, rfl, second⟩ := List.eq_append_cons_of_mem more
    exact ⟨_, intermediate, final, ',' :: others, rfl, first, second, .inr rfl, rfl⟩
  · exact ⟨_, intermediate, rest, [], by rw [List.append_nil], first, more, .inl rfl, rfl⟩

theorem RowLine.comma (told : RowLine line row) : ',' ∈ line := by
  obtain ⟨intermediate, final, further, rfl, _⟩ := told
  simp

theorem rowLine_of_ofLine {number : Nat} (read : ofLine number line = .ok row) :
    RowLine line row := by
  by_cases comma : ',' ∈ line
  · obtain ⟨other, told⟩ := exists_rowLine comma
    cases (ofLine_of_row told number).symm.trans read
    exact told
  · cases (ofLine_of_free comma number).symm.trans read

theorem RowLine.visible (told : RowLine line row) : Text.allBlank line = false := by
  refine Bool.eq_false_iff.mpr (fun blank => ?_)
  have comma := List.all_eq_true.mp blank ',' told.comma
  revert comma
  decide

theorem RowLine.of_return (told : RowLine (line ++ ['\r']) row) : RowLine line row := by
  obtain ⟨intermediate, final, further, parts, first, second, ends, rfl⟩ := told
  rcases List.eq_nil_or_concat further with rfl | ⟨further, last, rfl⟩
  · rcases List.eq_nil_or_concat final with rfl | ⟨final, last, rfl⟩
    · have clash := (List.append_inj' parts rfl).2
      simp at clash
    · have moved : intermediate ++ ',' :: (final.concat last ++ []) =
          intermediate ++ ',' :: final ++ [last] := by simp
      rw [moved] at parts
      obtain ⟨rfl, same⟩ := List.append_inj' parts rfl
      cases same
      rw [List.concat_eq_append] at second ⊢
      refine ⟨intermediate, final, [], by simp, first, fun here => second (by simp [here]),
        .inl rfl, ?_⟩
      rw [Text.trim_append (by decide)]
  · have moved : intermediate ++ ',' :: (final ++ further.concat last) =
        intermediate ++ ',' :: (final ++ further) ++ [last] := by simp
    rw [moved] at parts
    obtain ⟨rfl, same⟩ := List.append_inj' parts rfl
    cases same
    refine ⟨intermediate, final, further, by simp, first, second, ?_, rfl⟩
    cases further with
    | nil => exact .inl rfl
    | cons c further =>
      rcases ends with empty | comma
      · cases empty
      · exact .inr comma

end

theorem readAll_eq (text : String) :
    readAll text = (Text.numberedFrom 2 (Text.lines text.toList).tail).mapM
      (fun l => ofLine l.1 l.2) := by
  have below : (Text.numbered (Text.lines text.toList)).filter (fun l => l.1 != 1) =
      Text.numberedFrom 2 (Text.lines text.toList).tail := by
    cases Text.lines text.toList with
    | nil => rfl
    | cons first others =>
      have heading : ((if Text.allBlank first then [] else [(1, first)]) : List _).filter
          (fun l => l.1 != 1) = [] := by
        split <;> rfl
      have later : ∀ l ∈ Text.numberedFrom 2 others, (l.1 != 1) = true := by
        intro l listed
        have within := Text.numberedFrom_bounds listed
        simp only [bne_iff_ne]
        omega
      have parts : Text.numbered (first :: others) = (if Text.allBlank first then []
          else [(1, first)]) ++ Text.numberedFrom 2 others := Text.numberedFrom_cons first
      rw [parts, List.filter_append, heading, List.nil_append, List.filter_eq_self.mpr later]
      rfl
  rw [readAll, below]

structure Reads (text : String) : Prop where
  fails_iff : (∃ fault, readAll text = .error fault) ↔
    ∃ line ∈ (Text.lines text.toList).tail, Text.allBlank line = false ∧ ',' ∉ line
  /-- The first line without a comma is reported, with its number among all lines. -/
  first_bad : ∀ heading before line after,
    Text.lines text.toList = heading :: (before ++ line :: after) →
    (∀ earlier ∈ before, Text.allBlank earlier = true ∨ ',' ∈ earlier) →
    Text.allBlank line = false → ',' ∉ line →
    readAll text = .error (noRow (before.length + 2) line)
  rows_iff : ∀ rows, readAll text = .ok rows ↔ List.Forall₂ RowLine
    ((Text.lines text.toList).tail.filter (fun line => !Text.allBlank line)) rows

theorem rows_iff (text : String) (rows : List NameRow) :
    readAll text = .ok rows ↔ List.Forall₂ RowLine
      ((Text.lines text.toList).tail.filter (fun line => !Text.allBlank line)) rows := by
  rw [← Text.map_snd_numberedFrom 2, List.forall₂_map_left_iff, readAll_eq]
  constructor
  · exact fun read => (mapM_ok read).imp (fun _ _ => rowLine_of_ofLine)
  · exact fun told => mapM_of_forall₂ (told.imp (fun l _ here => ofLine_of_row here l.1))

theorem fails_iff (text : String) :
    (∃ fault, readAll text = .error fault) ↔
      ∃ line ∈ (Text.lines text.toList).tail, Text.allBlank line = false ∧ ',' ∉ line := by
  constructor
  · rintro ⟨fault, failed⟩
    rw [readAll_eq] at failed
    obtain ⟨⟨number, line⟩, listed, refused⟩ := mapM_error failed
    obtain ⟨below, visible⟩ := Text.mem_of_mem_numberedFrom listed
    refine ⟨line, below, visible, fun comma => ?_⟩
    obtain ⟨row, told⟩ := exists_rowLine comma
    cases (ofLine_of_row told number).symm.trans refused
  · rintro ⟨line, below, visible, free⟩
    cases read : readAll text with
    | error fault => exact ⟨fault, rfl⟩
    | ok rows =>
      have told := (rows_iff text rows).mp read
      obtain ⟨row, _, here⟩ : ∃ row ∈ rows, RowLine line row := by
        have turned : List.Forall₂ (fun row line => RowLine line row) rows
            ((Text.lines text.toList).tail.filter (fun line => !Text.allBlank line)) := told.flip
        exact origin_of_forall₂ turned (List.mem_filter.mpr ⟨below, by simp [visible]⟩)
      exact absurd here.comma free

theorem first_bad {text : String} {heading line : List Char} {before after : List (List Char)}
    (parts : Text.lines text.toList = heading :: (before ++ line :: after))
    (good : ∀ earlier ∈ before, Text.allBlank earlier = true ∨ ',' ∈ earlier)
    (visible : Text.allBlank line = false) (free : ',' ∉ line) :
    readAll text = .error (noRow (before.length + 2) line) := by
  have taken : ∃ rows, (Text.numberedFrom 2 before).mapM (fun l => ofLine l.1 l.2) = .ok rows := by
    refine mapM_succeeds_iff.mpr (fun l listed => ?_)
    obtain ⟨earlier, seen⟩ := Text.mem_of_mem_numberedFrom listed
    have comma := (good l.2 earlier).resolve_left (by simp [seen])
    obtain ⟨row, told⟩ := exists_rowLine comma
    exact ⟨row, ofLine_of_row told l.1⟩
  obtain ⟨rows, taken⟩ := taken
  rw [readAll_eq, parts, List.tail_cons, Text.numberedFrom_append, Text.numberedFrom_cons, visible,
    List.mapM_append, taken, Nat.add_comm 2]
  simp only [Bool.false_eq_true, if_false, List.singleton_append, List.mapM_cons,
    ofLine_of_free free]
  rfl

/-- A line below the heading: a row with further columns, or nothing but blanks. -/
inductive ListLine where
  | row (row : NameRow) (further : List Char)
  | blank (text : List Char)

namespace ListLine

def chars : ListLine → List Char
  | .row r further => r.intermediate.toList ++ ',' :: (r.final.toList ++ further)
  | .blank text => text

def rows : ListLine → List NameRow
  | .row r _ => [r]
  | .blank _ => []

end ListLine

structure Column (name : String) : Prop where
  comma : ',' ∉ name.toList
  line : '\n' ∉ name.toList
  trimmed : Text.trim name.toList = name.toList

inductive ListLine.Plain : ListLine → Prop where
  | row {row : NameRow} {further : List Char} (intermediate : Column row.intermediate)
      (final : Column row.final) (line : '\n' ∉ further)
      (columns : further = [] ∨ further.head? = some ',') : Plain (.row row further)
  | blank {text : List Char} (line : '\n' ∉ text) (blank : Text.allBlank text = true) :
      Plain (.blank text)

/-- The heading, and below it the lines, each behind the end of the line before it. -/
def listText (heading : List Char) (body : List (Bool × ListLine)) : List Char :=
  heading ++ body.flatMap (fun l => Text.lineEnd l.1 ++ l.2.chars)

theorem listText_cons (heading : List Char) (l : Bool × ListLine) (body : List (Bool × ListLine)) :
    listText heading (l :: body) =
      heading ++ (Text.lineEnd l.1 ++ listText l.2.chars body) := by
  simp [listText]

section

variable {l : ListLine}

theorem ListLine.Plain.free (plain : l.Plain) : '\n' ∉ l.chars := by
  cases plain with
  | row intermediate final line columns => simp [chars, intermediate.line, final.line, line]
  | blank line => exact line

theorem ListLine.Plain.tells (plain : l.Plain) {line : List Char}
    (read : line = l.chars ∨ line ++ ['\r'] = l.chars) :
    List.Forall₂ RowLine ([line].filter (fun line => !Text.allBlank line)) l.rows := by
  cases plain with
  | @row row further intermediate final _ columns =>
    have told : RowLine (ListLine.row row further).chars row := by
      refine ⟨_, _, further, rfl, intermediate.comma, final.comma, columns, ?_⟩
      rw [intermediate.trimmed, final.trimmed, String.ofList_toList, String.ofList_toList]
    have here : RowLine line row := by
      rcases read with rfl | returned
      · exact told
      · exact .of_return (returned ▸ told)
    have counts : [line].filter (fun line => !Text.allBlank line) = [line] := by
      simp [here.visible]
    rw [counts]
    exact .cons here .nil
  | @blank text _ blank =>
    have nothing : Text.allBlank line = true := by
      rcases read with rfl | returned
      · exact blank
      · have both := Text.allBlank_append line ['\r']
        rw [returned] at both
        exact (Bool.and_eq_true_iff.mp (both.symm.trans blank)).1
    have skips : [line].filter (fun line => !Text.allBlank line) = [] := by simp [nothing]
    rw [skips]
    exact .nil

theorem rows_of_plain (plain : l.Plain) {body : List (Bool × ListLine)}
    (all : ∀ x ∈ body, x.2.Plain) :
    List.Forall₂ RowLine
      ((Text.lines (listText l.chars body)).filter (fun line => !Text.allBlank line))
      (l.rows ++ body.flatMap (fun x => x.2.rows)) := by
  induction body generalizing l with
  | nil =>
    rw [listText, List.flatMap_nil, List.append_nil, List.flatMap_nil, List.append_nil]
    by_cases filled : l.chars = []
    · have rows := plain.tells (.inl rfl)
      rw [filled] at rows ⊢
      exact rows
    · rw [Text.lines_single plain.free filled]
      exact plain.tells (.inl rfl)
  | cons x body ih =>
    rw [List.forall_mem_cons] at all
    obtain ⟨first, lines, read⟩ := Text.lines_lineEnd plain.free x.1 (listText x.2.chars body)
    have later := ih all.1 all.2
    rw [listText_cons, lines, ← List.singleton_append, List.filter_append, List.flatMap_cons]
    exact List.rel_append (plain.tells read) later

end

/-- A list that is written from rows reads as these rows. Any text fails exactly if a line below its
heading is neither blank nor has a comma, and the first such line is reported; otherwise each line
that is not blank tells a row. -/
theorem lists_read :
    (∀ heading body, '\n' ∉ heading → (∀ l ∈ body, l.2.Plain) →
      readAll (String.ofList (listText heading body)) =
        .ok (body.flatMap (fun l => l.2.rows))) ∧
    ∀ text, Reads text := by
  refine ⟨fun heading body free plain => ?_, fun text => ?_⟩
  · rw [rows_iff, String.toList_ofList]
    cases body with
    | nil =>
      have single : (Text.lines (listText heading [])).tail = [] := by
        rw [listText, List.flatMap_nil, List.append_nil]
        by_cases filled : heading = []
        · rw [filled, Text.lines_nil, List.tail_nil]
        · rw [Text.lines_single free filled, List.tail_cons]
      rw [single]
      exact .nil
    | cons x body =>
      rw [List.forall_mem_cons] at plain
      obtain ⟨first, lines, _⟩ := Text.lines_lineEnd free x.1 (listText x.2.chars body)
      rw [listText_cons, lines, List.tail_cons, List.flatMap_cons]
      exact rows_of_plain plain.1 plain.2
  · exact {
      fails_iff := fails_iff text
      first_bad := fun _ _ _ _ => first_bad
      rows_iff := rows_iff text }

/-- A row with a quoted comma, a blank line, and a row whose second column is empty. -/
def quoted : List (Bool × ListLine) :=
  [(false, .row ⟨"field_70170_p", "world"⟩ ",2,\"The world, obviously\"".toList),
    (true, .blank " \t".toList), (true, .row ⟨"func_1_a", ""⟩ []), (false, .blank [])]

/-- Both rows are read, and in the other text the third line is reported. -/
theorem lists_read_quoted :
    '\n' ∉ "searge,name,side,desc".toList ∧ (∀ l ∈ quoted, l.2.Plain) ∧
    readAll (String.ofList (listText "searge,name,side,desc".toList quoted)) =
      .ok [⟨"field_70170_p", "world"⟩, ⟨"func_1_a", ""⟩] ∧
    readAll "searge,name\n\r\nonlyone\n,\n" = .error (noRow 3 "onlyone".toList) := by
  have free : '\n' ∉ "searge,name,side,desc".toList := by decide
  have plain : ∀ l ∈ quoted, l.2.Plain := by
    simp only [quoted, List.forall_mem_cons, List.not_mem_nil, false_imp_iff, implies_true,
      and_true]
    exact ⟨.row ⟨by decide, by decide, by decide⟩ ⟨by decide, by decide, by decide⟩ (by decide)
        (.inr (by decide)),
      .blank (by decide) (by decide),
      .row ⟨by decide, by decide, by decide⟩ ⟨by decide, by decide, by decide⟩ (by decide)
        (.inl rfl),
      .blank (by decide) (by decide)⟩
  refine ⟨free, plain, lists_read.1 _ quoted free plain, ?_⟩
  exact (lists_read.2 _).first_bad "searge,name".toList [[]] "onlyone".toList [[',']]
    (by decide +kernel) (by decide) (by decide) (by decide)

end NameRow

end SymbolAtlas
