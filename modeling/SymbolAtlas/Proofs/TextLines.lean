import Mathlib.Data.List.DropRight
import SymbolAtlas.Proofs.LineAcceptance

/-! Texts line by line. A text is its first line and the text behind the line feed, so what its
lines are is said by three equations, and every property of the lines of a text goes by induction
over them. Blanks at either end of a line are of no account for its words, and the characters of a
line end are blanks themselves. -/
namespace SymbolAtlas.Text

theorem dropEndWhile_append {p : Char → Bool} (s : List Char) {run : List Char}
    (all : ∀ c ∈ run, p c = true) : dropEndWhile p (s ++ run) = dropEndWhile p s := by
  rw [dropEndWhile, List.reverse_append, List.dropWhile_append_of_pos, dropEndWhile]
  simpa using all

theorem exists_dropped (p : Char → Bool) (s : List Char) :
    ∃ run, s = dropEndWhile p s ++ run ∧ ∀ c ∈ run, p c = true :=
  ⟨s.rtakeWhile p, List.rdropWhile_append_rtakeWhile.symm, fun _ => List.mem_rtakeWhile_imp⟩

section

variable {s run : List Char}

theorem trim_append (all : allBlank run = true) : trim (s ++ run) = trim s := by
  have blank := List.all_eq_true.mp all
  rw [trim, List.dropWhile_append]
  split
  case isTrue empty =>
    have rest : run.dropWhile isBlank = [] := List.dropWhile_eq_nil_iff.mpr blank
    rw [rest, trim, List.isEmpty_iff.mp empty]
  case isFalse => exact dropEndWhile_append _ blank

theorem allBlank_append (s run : List Char) :
    allBlank (s ++ run) = (allBlank s && allBlank run) :=
  List.all_append

theorem trim_of_allBlank (all : allBlank s = true) : trim s = [] := by
  have nothing := trim_append (s := []) all
  exact nothing

theorem words_cons_blank {c : Char} (blank : isBlank c = true) (s : List Char) :
    words (c :: s) = words s := by
  rw [words, List.splitOnP_cons_eq_if_modifyHead, if_pos blank]
  rfl

theorem words_append (all : allBlank run = true) : words (s ++ run) = words s := by
  induction run generalizing s with
  | nil => rw [List.append_nil]
  | cons c run ih =>
    obtain ⟨blank, rest⟩ := Bool.and_eq_true_iff.mp all
    have split := List.splitOnP_append_cons s [] (p := isBlank) blank
    rw [← List.singleton_append, ← List.append_assoc, ih rest, words, split]
    simp [words]

theorem words_trim (s : List Char) : words (trim s) = words s := by
  have front : words (s.dropWhile isBlank) = words s := by
    induction s with
    | nil => rfl
    | cons c s ih =>
      rw [List.dropWhile_cons]
      split
      case isTrue blank => rw [ih, words_cons_blank blank]
      case isFalse => rfl
  obtain ⟨run, parts, all⟩ := exists_dropped isBlank (s.dropWhile isBlank)
  have back := words_append (s := trim s) (List.all_eq_true.mpr all)
  rw [trim, ← parts, front] at back
  exact back.symm

end

theorem lines_nil : lines [] = [] := rfl

theorem lines_single {line : List Char} (free : '\n' ∉ line) (filled : line ≠ []) :
    lines line = [line] := by
  simp [lines, splitOn_of_free free, filled]

theorem lines_cons {line : List Char} (free : '\n' ∉ line) (rest : List Char) :
    lines (line ++ '\n' :: rest) = dropReturn line :: lines rest := by
  have more : rest.splitOn '\n' ≠ [] := List.splitOnP_ne_nil _ _
  rw [lines, splitOn_append free, List.dropLast_cons_of_ne_nil more,
    List.getLast?_cons_of_ne_nil more]
  rfl

/-- Texts are made of a last line, and of lines in front of it that are ended. -/
@[elab_as_elim]
theorem lineInduction {motive : List Char → Prop}
    (last : ∀ line, '\n' ∉ line → motive line)
    (line : ∀ line rest, '\n' ∉ line → motive rest → motive (line ++ '\n' :: rest))
    (s : List Char) : motive s := by
  suffices general : ∀ start, '\n' ∉ start → motive (start ++ s) from general [] List.not_mem_nil
  induction s with
  | nil => exact fun start free => by simpa using last start free
  | cons c s ih =>
    intro start free
    by_cases ends : c = '\n'
    · subst ends
      exact line start s free (ih [] List.not_mem_nil)
    · have more := ih (start ++ [c]) (by simp [free, Ne.symm ends])
      rwa [List.append_assoc] at more

theorem allBlank_dropReturn {line : List Char} (blank : allBlank line = true) :
    allBlank (dropReturn line) = true :=
  List.all_eq_true.mpr (fun c member => List.all_eq_true.mp blank c (mem_dropReturn member))

section

variable {first : Nat} {ls others : List (List Char)}

theorem numberedFrom_blank (blank : ∀ line ∈ ls, allBlank line = true) :
    numberedFrom first ls = [] := by
  induction ls generalizing first with
  | nil => rfl
  | cons line ls ih =>
    rw [List.forall_mem_cons] at blank
    rw [numberedFrom_cons, if_pos blank.1, ih blank.2, List.append_nil]

theorem numberedFrom_bounds {l : Nat × List Char} (listed : l ∈ numberedFrom first ls) :
    first ≤ l.1 ∧ l.1 < first + ls.length := by
  obtain ⟨⟨line, n⟩, member, shown⟩ := List.mem_filterMap.mp listed
  have within := List.mem_zipIdx member
  split at shown
  · cases shown
  · cases shown
    omega

theorem map_snd_numberedFrom (first : Nat) (ls : List (List Char)) :
    (numberedFrom first ls).map Prod.snd = ls.filter (fun line => !allBlank line) :=
  map_snd_zipIdx first ls

theorem mem_of_mem_numberedFrom {l : Nat × List Char} (listed : l ∈ numberedFrom first ls) :
    l.2 ∈ ls ∧ allBlank l.2 = false := by
  have known : l.2 ∈ ls.filter (fun line => !allBlank line) := by
    rw [← map_snd_numberedFrom first]
    exact List.mem_map_of_mem listed
  simpa using known

end

end SymbolAtlas.Text
