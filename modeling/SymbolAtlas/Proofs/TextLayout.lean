import SymbolAtlas.Proofs.TextLines

/-! How a text is laid out: whether its lines end with carriage returns, and which blank lines stand
between them. The lines that count come out of it all the same, up to their numbers. -/
namespace SymbolAtlas

namespace Text

/-- Each line feed has a carriage return put in front of it. -/
def withReturns (s : List Char) : List Char :=
  s.flatMap (fun c => if c = '\n' then ['\r', '\n'] else [c])

def Ended (s : List Char) : Prop := s = [] ∨ s.getLast? = some '\n'

def EndsLine (s : List Char) : Prop := ∃ rest, s = '\n' :: rest ∨ s = '\r' :: '\n' :: rest

/-- Where a line is once so many lines were put behind the first ones. -/
def pushed (first more number : Nat) : Nat := if number ≤ first then number else number + more

/-- A text in other layouts, and where its lines are then. Blank lines can be put at the end, where
no line moves, and between any two lines. -/
inductive Relaid (s : List Char) : (Nat → Nat) → List Char → Prop where
  | same : Relaid s id s
  | returns {place : Nat → Nat} {t : List Char} (laid : Relaid s place t) :
      Relaid s place (withReturns t)
  | appended {place : Nat → Nat} {t : List Char} (blanks : List Char) (laid : Relaid s place t)
      (blank : allBlank blanks = true) (apart : Ended t ∨ EndsLine blanks) :
      Relaid s place (t ++ blanks)
  | spaced {place : Nat → Nat} (before blanks : List Char) {after : List Char}
      (laid : Relaid s place (before ++ after)) (whole : Ended before)
      (blank : allBlank blanks = true) (lines : Ended blanks) :
      Relaid s (fun n => pushed (before.count '\n') (blanks.count '\n') (place n))
        (before ++ blanks ++ after)

/-- The lines that count, without their ends and with their numbers. -/
def visible (s : List Char) : List (Nat × List Char) :=
  numbered ((lines s).map Graph.dropLineEnd)

section

variable {line s : List Char}

theorem dropLineEnd_concat_return (line : List Char) :
    Graph.dropLineEnd (line ++ ['\r']) = Graph.dropLineEnd line :=
  dropEndWhile_append line (List.forall_mem_singleton.mpr rfl)

theorem dropLineEnd_dropReturn (line : List Char) :
    Graph.dropLineEnd (dropReturn line) = Graph.dropLineEnd line := by
  rw [dropReturn]
  split
  case isTrue returns =>
    have parts := List.dropLast_append_getLast? '\r' returns
    rw [← dropLineEnd_concat_return, parts]
  case isFalse => rfl

theorem exists_lineEnd (line : List Char) :
    ∃ run, line = Graph.dropLineEnd line ++ run ∧ allBlank run = true := by
  obtain ⟨run, parts, ends⟩ := exists_dropped (fun c => c == '\r' || c == '\n') line
  refine ⟨run, parts, List.all_eq_true.mpr (fun c member => ?_)⟩
  have either := ends c member
  rw [Bool.or_eq_true, beq_iff_eq, beq_iff_eq] at either
  rcases either with rfl | rfl
  · decide
  · decide

theorem trim_dropLineEnd (line : List Char) : trim (Graph.dropLineEnd line) = trim line := by
  obtain ⟨run, parts, blank⟩ := exists_lineEnd line
  have same := trim_append (s := Graph.dropLineEnd line) blank
  rw [← parts] at same
  exact same.symm

theorem allBlank_dropLineEnd (line : List Char) :
    allBlank (Graph.dropLineEnd line) = allBlank line := by
  obtain ⟨run, parts, blank⟩ := exists_lineEnd line
  have same := allBlank_append (Graph.dropLineEnd line) run
  rw [← parts, blank, Bool.and_true] at same
  exact same.symm

theorem eq_nil_of_ended (free : '\n' ∉ line) (ended : Ended line) : line = [] :=
  ended.resolve_right (fun last => free (List.mem_of_getLast? last))

theorem ended_of_append {rest : List Char} (ended : Ended (line ++ '\n' :: rest)) : Ended rest := by
  rcases List.eq_nil_or_concat rest with rfl | ⟨front, c, rfl⟩
  · exact .inl rfl
  · rcases ended with empty | last
    · simp at empty
    · rw [List.concat_eq_append, List.append_cons, ← List.append_assoc,
        List.getLast?_concat] at last
      exact .inr (by simpa using last)

theorem lines_append (ended : Ended s) (t : List Char) : lines (s ++ t) = lines s ++ lines t := by
  induction s using lineInduction with
  | last line free =>
    have empty := eq_nil_of_ended free ended
    rw [empty, lines_nil]
    rfl
  | line line rest free ih =>
    rw [List.append_assoc, List.cons_append, lines_cons free, lines_cons free,
      ih (ended_of_append ended), List.cons_append]

theorem length_lines (ended : Ended s) : (lines s).length = s.count '\n' := by
  induction s using lineInduction with
  | last line free =>
    have empty := eq_nil_of_ended free ended
    rw [empty]
    rfl
  | line line rest free ih =>
    rw [lines_cons free, List.length_cons, ih (ended_of_append ended), List.count_append,
      List.count_eq_zero_of_not_mem free, List.count_cons_self, Nat.zero_add]

theorem exists_ended_append (s : List Char) :
    ∃ before last, s = before ++ last ∧ Ended before ∧ '\n' ∉ last := by
  induction s using lineInduction with
  | last line free => exact ⟨[], line, rfl, .inl rfl, free⟩
  | line line rest free ih =>
    obtain ⟨before, last, rfl, ended, free⟩ := ih
    refine ⟨line ++ '\n' :: before, last, by simp, ?_, free⟩
    rcases ended with rfl | whole
    · exact .inr (List.getLast?_concat ..)
    · exact .inr (by simp [List.getLast?_append, List.getLast?_cons, whole])

theorem allBlank_of_mem_lines (blank : allBlank s = true) (listed : line ∈ lines s) :
    allBlank line = true := by
  induction s using lineInduction with
  | last only free =>
    by_cases filled : only = []
    · rw [filled, lines_nil] at listed
      cases listed
    · rw [lines_single free filled, List.mem_singleton] at listed
      rwa [listed]
  | line first rest free ih =>
    rw [allBlank_append, Bool.and_eq_true] at blank
    rw [lines_cons free] at listed
    rcases List.mem_cons.mp listed with rfl | later
    · exact allBlank_dropReturn blank.1
    · have behind : allBlank rest = true := blank.2
      exact ih behind later

end

section

variable {first : Nat} {ls others : List (List Char)}

theorem numberedFrom_add (more : Nat) :
    numberedFrom (first + more) ls = (numberedFrom first ls).map (fun l => (l.1 + more, l.2)) := by
  induction ls generalizing first with
  | nil => rfl
  | cons line ls ih =>
    rw [numberedFrom_cons, numberedFrom_cons, Nat.add_right_comm, ih, List.map_append]
    congr 1
    split <;> rfl

/-- Lines that are blank together stand under the same numbers. -/
theorem numberedFrom_map {f : List Char → List Char}
    (same : ∀ line, allBlank (f line) = allBlank line) :
    numberedFrom first (ls.map f) = (numberedFrom first ls).map (fun l => (l.1, f l.2)) := by
  induction ls generalizing first with
  | nil => rfl
  | cons line ls ih =>
    rw [List.map_cons, numberedFrom_cons, numberedFrom_cons, same, ih, List.map_append]
    congr 1
    split <;> rfl

/-- A line keeps its number, unless it stands behind the lines that were put in. -/
theorem numberedFrom_pushed {more : List (List Char)}
    (blank : ∀ line ∈ more, allBlank line = true) :
    numberedFrom 1 (ls ++ more ++ others) =
      (numberedFrom 1 (ls ++ others)).map (fun l => (pushed ls.length more.length l.1, l.2)) := by
  have front : (numberedFrom 1 ls).map (fun l => (pushed ls.length more.length l.1, l.2)) =
      numberedFrom 1 ls := by
    refine (List.map_congr_left (fun l listed => ?_)).trans (List.map_id _)
    have within := numberedFrom_bounds listed
    rw [pushed, if_pos (by omega)]
    rfl
  have back : (numberedFrom (1 + ls.length) others).map
      (fun l => (pushed ls.length more.length l.1, l.2)) =
      numberedFrom (1 + ls.length + more.length) others := by
    rw [numberedFrom_add more.length]
    refine List.map_congr_left (fun l listed => ?_)
    have within := numberedFrom_bounds listed
    rw [pushed, if_neg (by omega)]
  rw [List.append_assoc, numberedFrom_append, numberedFrom_append, numberedFrom_blank blank,
    List.nil_append, numberedFrom_append, List.map_append, front, back]

end

section

variable {s t blanks : List Char}

theorem visible_withReturns (s : List Char) : visible (withReturns s) = visible s := by
  have lines_eq : (lines (withReturns s)).map Graph.dropLineEnd =
      (lines s).map Graph.dropLineEnd := by
    have plain {line : List Char} (free : '\n' ∉ line) : withReturns line = line := by
      induction line with
      | nil => rfl
      | cons c line ih =>
        rw [List.mem_cons, not_or] at free
        rw [withReturns, List.flatMap_cons, if_neg (Ne.symm free.1), ← withReturns, ih free.2]
        rfl
    induction s using lineInduction with
    | last line free => rw [plain free]
    | line line rest free ih =>
      have ended : withReturns (line ++ '\n' :: rest) =
          line ++ ['\r'] ++ '\n' :: withReturns rest := by
        have front := plain free
        rw [withReturns] at front
        rw [withReturns, List.flatMap_append, front, List.flatMap_cons, ← withReturns]
        simp
      rw [ended, lines_cons (by simp [free]), lines_cons free, List.map_cons, List.map_cons, ih,
        dropLineEnd_dropReturn, dropLineEnd_concat_return, dropLineEnd_dropReturn]
  rw [visible, lines_eq, visible]

theorem allBlank_of_mem_shown (blank : allBlank blanks = true) :
    ∀ line ∈ (lines blanks).map Graph.dropLineEnd, allBlank line = true := by
  intro line listed
  obtain ⟨raw, known, rfl⟩ := List.mem_map.mp listed
  rw [allBlank_dropLineEnd]
  exact allBlank_of_mem_lines blank known

theorem visible_append_blank (ended : Ended s) (blank : allBlank blanks = true) :
    visible (s ++ blanks) = visible s := by
  have rest : numberedFrom (1 + ((lines s).map Graph.dropLineEnd).length)
      ((lines blanks).map Graph.dropLineEnd) = [] :=
    numberedFrom_blank (allBlank_of_mem_shown blank)
  rw [visible, lines_append ended, List.map_append]
  refine numberedFrom_append.trans ?_
  rw [rest, List.append_nil]
  rfl

theorem visible_append_end {tail : List Char} (ends : tail = ['\n'] ∨ tail = ['\r', '\n']) :
    visible (s ++ tail) = visible s := by
  obtain ⟨before, last, rfl, ended, free⟩ := exists_ended_append s
  obtain ⟨line, shape, free', same⟩ : ∃ line, last ++ tail = line ++ '\n' :: [] ∧ '\n' ∉ line ∧
      Graph.dropLineEnd line = Graph.dropLineEnd last := by
    rcases ends with rfl | rfl
    · exact ⟨last, rfl, free, rfl⟩
    · exact ⟨last ++ ['\r'], by simp, by simp [free], dropLineEnd_concat_return last⟩
  have closed : (lines (last ++ tail)).map Graph.dropLineEnd = [Graph.dropLineEnd last] := by
    rw [shape, lines_cons free', lines_nil, List.map_singleton, dropLineEnd_dropReturn, same]
  rw [List.append_assoc, visible, visible, lines_append ended, lines_append ended,
    List.map_append, List.map_append, closed]
  by_cases filled : last = []
  · have nothing (n : Nat) : numberedFrom n [Graph.dropLineEnd []] = [] :=
      numberedFrom_blank (by decide)
    rw [filled, lines_nil]
    refine numberedFrom_append.trans ?_
    rw [nothing, List.map_nil, List.append_nil, List.append_nil]
    rfl
  · rw [lines_single free filled]
    rfl

theorem visible_append (blank : allBlank blanks = true) (apart : Ended s ∨ EndsLine blanks) :
    visible (s ++ blanks) = visible s := by
  rcases apart with ended | ⟨rest, ends⟩
  · exact visible_append_blank ended blank
  · obtain ⟨tail, rfl, either⟩ : ∃ tail, blanks = tail ++ rest ∧
        (tail = ['\n'] ∨ tail = ['\r', '\n']) := by
      rcases ends with rfl | rfl
      · exact ⟨['\n'], rfl, .inl rfl⟩
      · exact ⟨['\r', '\n'], rfl, .inr rfl⟩
    rw [allBlank_append, Bool.and_eq_true] at blank
    have ended : Ended (s ++ tail) := by
      rcases either with rfl | rfl
      · exact .inr List.getLast?_concat
      · exact .inr (by simp [List.getLast?_append])
    rw [← List.append_assoc, visible_append_blank ended blank.2, visible_append_end either]

/-- In each layout the same lines count. -/
theorem Relaid.visible {place : Nat → Nat} (laid : Relaid s place t) :
    visible t = (visible s).map (fun l => (place l.1, l.2)) := by
  induction laid with
  | same => exact (List.map_id _).symm
  | returns _ ih => rw [visible_withReturns, ih]
  | appended _ _ blank apart ih => rw [visible_append blank apart, ih]
  | @spaced place before blanks after _ whole blank ended ih =>
    have counts {u : List Char} (whole : Ended u) :
        u.count '\n' = ((lines u).map Graph.dropLineEnd).length := by
      rw [List.length_map, length_lines whole]
    have parts : Text.visible (before ++ after) =
        numberedFrom 1 ((lines before).map Graph.dropLineEnd ++
          (lines after).map Graph.dropLineEnd) := by
      rw [Text.visible, lines_append whole, List.map_append]
      rfl
    have spaced : Text.visible (before ++ blanks ++ after) =
        numberedFrom 1 ((lines before).map Graph.dropLineEnd ++
          (lines blanks).map Graph.dropLineEnd ++ (lines after).map Graph.dropLineEnd) := by
      rw [Text.visible, List.append_assoc, lines_append whole, lines_append ended, List.map_append,
        List.map_append, List.append_assoc]
      rfl
    rw [spaced, numberedFrom_pushed (allBlank_of_mem_shown blank), ← parts, ih, counts whole,
      counts ended, List.map_map]
    rfl

end

end Text

end SymbolAtlas
