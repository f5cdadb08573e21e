import SymbolAtlas.Text.Alphabet

/-! Quoted texts of the settings. There are two marks and two sizes: between `"` a backslash starts
an escape, between `'` it is a character like any other; a text between three marks may run over
lines. The opening marks have been read; line ends are single line feeds. -/
namespace SymbolAtlas.Settings

structure Quotes where
  mark : Char
  /-- Three marks on each side. -/
  tall : Bool
  deriving DecidableEq, Repr

def isSpace (c : Char) : Bool := c == ' ' || c == '\t'

/-- Any character but control characters; a tab is allowed. -/
def isPlain (c : Char) : Bool := c == '\t' || (0x20 ≤ c.toNat && c.toNat != 0x7F)

def codePoint? (count : Nat) (s : List Char) : Option (List Char × List Char) := do
  let digits ← (s.take count).mapM Text.hexValue?
  let n := digits.foldl (fun n d => n * 16 + d) 0
  if digits.length = count && n.isValidChar then some ([Char.ofNat n], s.drop count) else none

/-- A line end right after the backslash, up to the next character that is seen. -/
def foldedLine? (s : List Char) : Option (List Char × List Char) :=
  match s.dropWhile isSpace with
  | '\n' :: rest => some ([], rest.dropWhile (fun c => isSpace c || c == '\n'))
  | _ => none

/-- What stands for the text after a backslash, and the rest. -/
def escape? (tall : Bool) : List Char → Option (List Char × List Char)
  | 'b' :: rest => some (['\x08'], rest)
  | 't' :: rest => some (['\t'], rest)
  | 'n' :: rest => some (['\n'], rest)
  | 'f' :: rest => some (['\x0c'], rest)
  | 'r' :: rest => some (['\r'], rest)
  | '"' :: rest => some (['"'], rest)
  | '\\' :: rest => some (['\\'], rest)
  | 'u' :: rest => codePoint? 4 rest
  | 'U' :: rest => codePoint? 8 rest
  | s => if tall then foldedLine? s else none

namespace Quotes

/-- The end of a quoted text, with the marks that still belong to it: of a longer run the last
three close a tall text, and at most two come before them. -/
def close? (q : Quotes) : List Char → Option (List Char × List Char)
  | [] => none
  | c :: rest =>
    if c != q.mark then none
    else if !q.tall then some ([], rest)
    else
      let run := rest.takeWhile (· == q.mark)
      if run.length < 2 then none
      else
        let kept := min (run.length - 2) 2
        some (List.replicate kept q.mark, rest.drop (kept + 2))

/-- A character that stands for itself. -/
def admits (q : Quotes) (c : Char) : Bool := isPlain c || (q.tall && c == '\n')

end Quotes

theorem codePoint?_length {count : Nat} {s text rest : List Char}
    (h : codePoint? count s = some (text, rest)) : rest.length ≤ s.length := by
  simp only [codePoint?, Option.bind_eq_bind, Option.bind_eq_some_iff] at h
  obtain ⟨_, _, h⟩ := h
  split at h
  · simp only [Option.some.injEq, Prod.mk.injEq] at h
    obtain ⟨_, rfl⟩ := h
    simp
  · simp at h

theorem foldedLine?_length {s text rest : List Char} (h : foldedLine? s = some (text, rest)) :
    rest.length ≤ s.length := by
  unfold foldedLine? at h
  split at h
  · rename_i tail shape
    simp only [Option.some.injEq, Prod.mk.injEq] at h
    obtain ⟨_, rfl⟩ := h
    have outer := (List.dropWhile_sublist (l := s) isSpace).length_le
    have inner := (List.dropWhile_sublist (l := tail) (fun c => isSpace c || c == '\n')).length_le
    rw [shape, List.length_cons] at outer
    omega
  · simp at h

theorem escape?_length {tall : Bool} {s text rest : List Char}
    (h : escape? tall s = some (text, rest)) : rest.length ≤ s.length := by
  unfold escape? at h
  split at h
  case h_8 => exact Nat.le_succ_of_le (codePoint?_length h)
  case h_9 => exact Nat.le_succ_of_le (codePoint?_length h)
  case h_10 =>
    split at h
    · exact foldedLine?_length h
    · simp at h
  all_goals
    simp only [Option.some.injEq, Prod.mk.injEq] at h
    obtain ⟨_, rfl⟩ := h
    simp

theorem Quotes.close?_length {q : Quotes} {s text rest : List Char}
    (h : q.close? s = some (text, rest)) : rest.length < s.length := by
  unfold close? at h
  split at h
  · simp at h
  · simp only at h
    split at h
    · simp at h
    split at h
    · simp only [Option.some.injEq, Prod.mk.injEq] at h
      obtain ⟨_, rfl⟩ := h
      simp
    split at h
    · simp at h
    · simp only [Option.some.injEq, Prod.mk.injEq] at h
      obtain ⟨_, rfl⟩ := h
      simp only [List.length_cons, List.length_drop]
      omega

def Quotes.read (q : Quotes) (s : List Char) : Option (List Char × List Char) :=
  match q.close? s with
  | some ending => some ending
  | none =>
    match s with
    | [] => none
    | c :: rest =>
      if c = '\\' && q.mark = '"' then
        match _h : escape? q.tall rest with
        | none => none
        | some (meaning, rest) => (q.read rest).map (fun r => (meaning ++ r.1, r.2))
      else if q.admits c then (q.read rest).map (fun r => (c :: r.1, r.2))
      else none
termination_by s.length
decreasing_by
  all_goals simp only [List.length_cons]
  · have := escape?_length _h
    omega
  · omega

theorem Quotes.read_length {q : Quotes} {s text rest : List Char}
    (h : q.read s = some (text, rest)) : rest.length < s.length := by
  fun_induction Quotes.read q s generalizing text with
  | case1 s ending closed =>
    obtain rfl : ending = (text, rest) := by simpa using h
    exact close?_length closed
  | case2 => simp at h
  | case3 => simp at h
  | case4 c s _ meaning after escaped _ ih =>
    simp only [Option.map_eq_some_iff, Prod.mk.injEq] at h
    obtain ⟨⟨t, r⟩, found, _, rfl⟩ := h
    have : r.length < _ := ih found
    have := escape?_length escaped
    show r.length < s.length + 1
    omega
  | case5 c s _ _ _ ih =>
    simp only [Option.map_eq_some_iff, Prod.mk.injEq] at h
    obtain ⟨⟨t, r⟩, found, _, rfl⟩ := h
    have : r.length < _ := ih found
    show r.length < s.length + 1
    omega
  | case6 => simp at h

end SymbolAtlas.Settings
