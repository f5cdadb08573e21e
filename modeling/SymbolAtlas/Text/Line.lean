/-! Lines and words of a text, and cutting a text at a separator. Blank are the characters with
Unicode's White_Space, which is wider than core's `Char.isWhitespace`; a text is freed of them at its
ends or between its words. Lines and cuts lose no character but a line end or the separator. -/
namespace SymbolAtlas.Text

/-- Exactly the 25 characters with the property White_Space. -/
def isBlank (c : Char) : Bool :=
  let n := c.toNat
  (0x9 ≤ n && n ≤ 0xD) || n == 0x20 || n == 0x85 || n == 0xA0 || n == 0x1680 ||
    (0x2000 ≤ n && n ≤ 0x200A) || n == 0x2028 || n == 0x2029 || n == 0x202F || n == 0x205F ||
    n == 0x3000

/-- The text without the longest run at its end on which `p` holds. -/
def dropEndWhile (p : Char → Bool) (s : List Char) : List Char :=
  (s.reverse.dropWhile p).reverse

theorem mem_of_mem_dropEndWhile {p : Char → Bool} {s : List Char} {c : Char}
    (member : c ∈ dropEndWhile p s) : c ∈ s := by
  have kept := (List.dropWhile_sublist p).mem (List.mem_reverse.mp member)
  exact List.mem_reverse.mp kept

def trim (s : List Char) : List Char :=
  dropEndWhile isBlank (s.dropWhile isBlank)

/-- The maximal runs without blanks, from left to right. -/
def words (s : List Char) : List (List Char) :=
  (s.splitOnP isBlank).filter (fun w => !w.isEmpty)

/-- Nothing but blanks; the empty text counts. -/
def allBlank (s : List Char) : Bool := s.all isBlank

/-- A line without the carriage return that belongs to its end. -/
def dropReturn (line : List Char) : List Char :=
  if line.getLast? = some '\r' then line.dropLast else line

/-- Lines in order. A line feed ends a line, with a carriage return if one stands right in front of
it. What follows the last line feed is a line unless it is empty, and is kept as it is. -/
def lines (s : List Char) : List (List Char) :=
  let parts := s.splitOn '\n'
  parts.dropLast.map dropReturn ++ parts.getLast?.toList.filter (fun last => !last.isEmpty)

theorem mem_dropReturn {line : List Char} {c : Char} (member : c ∈ dropReturn line) : c ∈ line := by
  unfold dropReturn at member
  split at member
  · exact (List.dropLast_sublist _).mem member
  · exact member

theorem not_mem_of_mem_splitOn {sep : Char} {s part : List Char} (listed : part ∈ s.splitOn sep) :
    sep ∉ part := by
  induction s generalizing part with
  | nil =>
    rw [List.splitOn_nil, List.mem_singleton] at listed
    simp [listed]
  | cons c rest ih =>
    rw [List.splitOn, List.splitOnP_cons_eq_if_modifyHead] at listed
    split at listed
    · rcases List.mem_cons.mp listed with rfl | later
      · exact List.not_mem_nil
      · exact ih later
    case isFalse other =>
      cases parts : rest.splitOnP (· == sep) with
      | nil =>
        rw [parts] at listed
        cases listed
      | cons first others =>
        have known : ∀ p ∈ first :: others, sep ∉ p := fun p member => ih (by
          rw [List.splitOn, parts]
          exact member)
        rw [parts, List.modifyHead_cons] at listed
        rcases List.mem_cons.mp listed with rfl | later
        · have apart : sep ≠ c := fun same => other (by simp [same])
          simp [apart, known first List.mem_cons_self]
        · exact known part (List.mem_cons_of_mem _ later)

theorem splitOn_of_free {line : List Char} {sep : Char} (free : sep ∉ line) :
    line.splitOn sep = [line] :=
  List.splitOnP_eq_singleton (fun c member => by
    simpa using fun same : c = sep => free (same ▸ member))

theorem splitOn_append_cons (before after : List Char) (sep : Char) :
    (before ++ sep :: after).splitOn sep = before.splitOn sep ++ after.splitOn sep :=
  List.splitOnP_append_cons before after (p := (· == sep)) (beq_self_eq_true sep)

theorem splitOn_append {line : List Char} {sep : Char} (free : sep ∉ line) (rest : List Char) :
    (line ++ sep :: rest).splitOn sep = line :: rest.splitOn sep := by
  rw [splitOn_append_cons, splitOn_of_free free, List.singleton_append]

theorem newline_not_mem_lines {s line : List Char} (listed : line ∈ lines s) : '\n' ∉ line := by
  rcases List.mem_append.mp listed with ended | last
  · obtain ⟨part, member, rfl⟩ := List.mem_map.mp ended
    have free := not_mem_of_mem_splitOn ((List.dropLast_sublist _).mem member)
    exact fun broken => free (mem_dropReturn broken)
  · have member := (List.mem_filter.mp last).1
    rw [Option.mem_toList] at member
    exact not_mem_of_mem_splitOn (List.mem_of_getLast? member)

/-- The lines that are not blank, each with its number. Blank lines count too, from one. -/
def numbered (lines : List (List Char)) : List (Nat × List Char) :=
  (lines.zipIdx 1).filterMap (fun l => if allBlank l.1 then none else some (l.2, l.1))

def after? : (start s : List Char) → Option (List Char)
  | [], s => some s
  | _ :: _, [] => none
  | a :: start, c :: s => if a = c then after? start s else none

theorem after?_eq_some_iff {start s rest : List Char} :
    after? start s = some rest ↔ s = start ++ rest := by
  induction start generalizing s with
  | nil => simp [after?]
  | cons a start ih =>
    cases s with
    | nil => simp [after?]
    | cons c s =>
      by_cases h : a = c
      · simp [after?, h, ih]
      · simp [after?, h, Ne.symm h]

def cutLast? (sep : Char) : List Char → Option (List Char × List Char)
  | [] => none
  | c :: rest =>
    match cutLast? sep rest with
    | some (before, after) => some (c :: before, after)
    | none => if c = sep then some ([], rest) else none

theorem cutLast?_eq_none_iff {sep : Char} {s : List Char} : cutLast? sep s = none ↔ sep ∉ s := by
  induction s with
  | nil => simp [cutLast?]
  | cons c rest ih =>
    rw [cutLast?]
    cases cut : cutLast? sep rest with
    | none =>
      have absent := ih.mp cut
      by_cases here : c = sep
      · simp [here]
      · simp [here, absent, Ne.symm here]
    | some parts =>
      have present : sep ∈ rest := Decidable.of_not_not fun absent => by
        rw [ih.mpr absent] at cut
        cases cut
      simp [present]

theorem cutLast?_eq_some_iff {sep : Char} {s before after : List Char} :
    cutLast? sep s = some (before, after) ↔ s = before ++ sep :: after ∧ sep ∉ after := by
  induction s generalizing before with
  | nil => simp [cutLast?]
  | cons c rest ih =>
    rw [cutLast?]
    cases cut : cutLast? sep rest with
    | none =>
      have absent := cutLast?_eq_none_iff.mp cut
      cases before with
      | nil =>
        by_cases here : c = sep
        · simp only [here, if_true, Option.some.injEq, Prod.mk.injEq, true_and, List.nil_append,
            List.cons.injEq]
          exact ⟨fun same => ⟨same, same ▸ absent⟩, fun same => same.1⟩
        · simp [here]
      | cons b before =>
        have nowhere : rest ≠ before ++ sep :: after := fun same => absent (same ▸ by simp)
        by_cases here : c = sep <;> simp [here, nowhere]
    | some parts =>
      obtain ⟨first, last⟩ := parts
      cases before with
      | nil =>
        have present : sep ∈ rest := by
          refine Decidable.of_not_not fun absent => ?_
          rw [cutLast?_eq_none_iff.mpr absent] at cut
          cases cut
        simp only [Option.some.injEq, Prod.mk.injEq, reduceCtorEq, false_and, List.nil_append,
          List.cons.injEq, false_iff, not_and, Decidable.not_not]
        rintro ⟨-, rfl⟩
        exact present
      | cons b before =>
        have here : cutLast? sep rest = some (before, after) ↔
            rest = before ++ sep :: after ∧ sep ∉ after := ih
        rw [cut] at here
        simp only [Option.some.injEq, Prod.mk.injEq] at here
        simp [here, and_assoc]

end SymbolAtlas.Text
