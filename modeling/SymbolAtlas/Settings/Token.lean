import SymbolAtlas.Settings.Quoted

/-! The words and marks of a settings text. Spaces, tabs and comments stand between them and mean
nothing; a line end is a token of its own. -/
namespace SymbolAtlas.Settings

inductive Token where
  | lineEnd
  | equals
  | opening
  | closing
  | comma
  /-- A bare word. -/
  | word (text : String)
  | quoted (text : String) (tall : Bool)
  deriving DecidableEq, Repr

def isWordChar (c : Char) : Bool :=
  ('a' ≤ c && c ≤ 'z') || ('A' ≤ c && c ≤ 'Z') || ('0' ≤ c && c ≤ '9') || c == '_' || c == '-'

/-- Opening marks after the first one. A line end right after three marks is not text. -/
def openQuotes (mark : Char) (s : List Char) : Quotes × List Char :=
  match s with
  | a :: b :: rest =>
    if a = mark && b = mark then
      match rest with
      | '\n' :: rest => (⟨mark, true⟩, rest)
      | rest => (⟨mark, true⟩, rest)
    else (⟨mark, false⟩, s)
  | s => (⟨mark, false⟩, s)

def quoted? (mark : Char) (s : List Char) : Option (Token × List Char) :=
  let (quotes, s) := openQuotes mark s
  (quotes.read s).map (fun r => (.quoted (String.ofList r.1) quotes.tall, r.2))

/-- The token that starts with `c`, and what follows it in `s`. -/
def token? (c : Char) (s : List Char) : Option (Token × List Char) :=
  match c with
  | '\n' => some (.lineEnd, s)
  | '=' => some (.equals, s)
  | '[' => some (.opening, s)
  | ']' => some (.closing, s)
  | ',' => some (.comma, s)
  | '"' => quoted? '"' s
  | '\'' => quoted? '\'' s
  | c =>
    if isWordChar c then
      some (.word (String.ofList (c :: s.takeWhile isWordChar)), s.dropWhile isWordChar)
    else none

theorem openQuotes_length (mark : Char) (s : List Char) :
    (openQuotes mark s).2.length ≤ s.length := by
  unfold openQuotes
  split
  · split
    · split
      · simp only [List.length_cons]
        omega
      · simp only [List.length_cons]
        omega
    · exact Nat.le_refl _
  · exact Nat.le_refl _

theorem quoted?_length {mark : Char} {s rest : List Char} {token : Token}
    (h : quoted? mark s = some (token, rest)) : rest.length ≤ s.length := by
  simp only [quoted?, Option.map_eq_some_iff, Prod.mk.injEq] at h
  obtain ⟨⟨text, r⟩, found, _, rfl⟩ := h
  have opened := openQuotes_length mark s
  exact Nat.le_trans (Nat.le_of_lt (Quotes.read_length found)) opened

theorem token?_length {c : Char} {s rest : List Char} {token : Token}
    (h : token? c s = some (token, rest)) : rest.length ≤ s.length := by
  unfold token? at h
  split at h
  case h_6 => exact quoted?_length h
  case h_7 => exact quoted?_length h
  case h_8 =>
    split at h
    · simp only [Option.some.injEq, Prod.mk.injEq] at h
      obtain ⟨_, rfl⟩ := h
      exact (List.dropWhile_sublist isWordChar).length_le
    · simp at h
  all_goals
    simp only [Option.some.injEq, Prod.mk.injEq] at h
    obtain ⟨_, rfl⟩ := h
    exact Nat.le_refl _

/-- A comment ends before the first control character; that it is a line end is seen there. -/
def tokens? : List Char → Option (List Token)
  | [] => some []
  | c :: s =>
    if isSpace c then tokens? s
    else if c = '#' then tokens? (s.dropWhile isPlain)
    else
      match _h : token? c s with
      | none => none
      | some (token, rest) => (tokens? rest).map (token :: ·)
termination_by s => s.length
decreasing_by
  all_goals simp only [List.length_cons]
  · omega
  · have := (List.dropWhile_sublist (l := s) isPlain).length_le
    omega
  · have := token?_length _h
    omega

end SymbolAtlas.Settings
