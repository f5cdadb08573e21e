import SymbolAtlas.Json.Escape
import SymbolAtlas.Text.Alphabet
import SymbolAtlas.Text.Line

/-! Reading JSON with a stack of open arrays and objects. One step takes one token, so nesting costs
no recursion and a text of any depth is read. -/
namespace SymbolAtlas.Json

inductive Token where
  | openArray
  | closeArray
  | openObject
  | closeObject
  | comma
  | colon
  /-- A value without parts. -/
  | scalar (value : Json)

def isSpace (c : Char) : Bool := c == ' ' || c == '\t' || c == '\n' || c == '\r'

/-- The rest after an optional part that must hold digits, with whether the part was there. -/
def fraction? : List Char → Option (Bool × List Char)
  | '.' :: rest =>
    if (rest.takeWhile Text.isDecimal).isEmpty then none
    else some (true, rest.dropWhile Text.isDecimal)
  | s => some (false, s)

def dropSign : List Char → List Char
  | '+' :: rest => rest
  | '-' :: rest => rest
  | s => s

def exponent? : List Char → Option (Bool × List Char)
  | [] => some (false, [])
  | c :: rest =>
    if c = 'e' || c = 'E' then
      let rest := dropSign rest
      if (rest.takeWhile Text.isDecimal).isEmpty then none
      else some (true, rest.dropWhile Text.isDecimal)
    else some (false, c :: rest)

/-- A number without its sign. Leading zeros are refused. -/
def magnitude? (signed : Bool) (s : List Char) : Option (Json × List Char) := do
  let digits := s.takeWhile Text.isDecimal
  if digits.isEmpty || (digits.head? == some '0' && digits.length != 1) then none
  else
    let (fractional, rest) ← fraction? (s.dropWhile Text.isDecimal)
    let (exponential, rest) ← exponent? rest
    if signed || fractional || exponential then return (.otherNumber, rest)
    else return (.natural (Text.decimalValue digits), rest)

/-- A literal word whose first letter has been read. -/
def word? (letters : List Char) (value : Json) (s : List Char) : Option (Json × List Char) :=
  (Text.after? letters s).map (value, ·)

def scalar? (c : Char) (s : List Char) : Option (Json × List Char) :=
  if c = '"' then (readLiteral .start s).map (fun r => (.string r.1, r.2))
  else if c = 'n' then word? ['u', 'l', 'l'] .null s
  else if c = 't' then word? ['r', 'u', 'e'] (.bool true) s
  else if c = 'f' then word? ['a', 'l', 's', 'e'] (.bool false) s
  else if c = '-' then magnitude? true s
  else if Text.isDecimal c then magnitude? false (c :: s)
  else none

/-- The token that starts with `c`, and what follows it in `s`. -/
def token? (c : Char) (s : List Char) : Option (Token × List Char) :=
  match c with
  | '[' => some (.openArray, s)
  | ']' => some (.closeArray, s)
  | '{' => some (.openObject, s)
  | '}' => some (.closeObject, s)
  | ',' => some (.comma, s)
  | ':' => some (.colon, s)
  | c => (scalar? c s).map (fun r => (.scalar r.1, r.2))

/-- An array or object that is still open, its parts last first. -/
inductive Frame where
  | items (done : List Json)
  | members (done : List (Literal × Json))
  /-- An object whose last key waits for its value. -/
  | member (key : Literal) (done : List (Literal × Json))

inductive Mode where
  | value
  /-- A value, or the end of an array that is empty so far. -/
  | firstItem
  | key
  /-- A key, or the end of an object that is empty so far. -/
  | firstKey
  | colon
  /-- A comma, or the end of what is open. -/
  | next
  /-- Nothing: the value is complete. -/
  | done (value : Json)

structure Machine where
  frames : List Frame
  mode : Mode

namespace Machine

def start : Machine := ⟨[], .value⟩

/-- Puts a complete value where it belongs. -/
def deliver (frames : List Frame) (value : Json) : Option Machine :=
  match frames with
  | [] => some ⟨[], .done value⟩
  | .items done :: frames => some ⟨.items (value :: done) :: frames, .next⟩
  | .member key done :: frames => some ⟨.members ((key, value) :: done) :: frames, .next⟩
  | .members _ :: _ => none

/-- A token where a value must start. -/
def enter (frames : List Frame) : Token → Option Machine
  | .openArray => some ⟨.items [] :: frames, .firstItem⟩
  | .openObject => some ⟨.members [] :: frames, .firstKey⟩
  | .scalar value => deliver frames value
  | _ => none

/-- Ends the innermost array or object if the token is its closing bracket. -/
def close (frames : List Frame) (token : Token) : Option Machine :=
  match frames, token with
  | .items done :: frames, .closeArray => deliver frames (.array done.reverse)
  | .members done :: frames, .closeObject => deliver frames (.object done.reverse)
  | _, _ => none

def takeKey (frames : List Frame) (token : Token) : Option Machine :=
  match frames, token with
  | .members done :: frames, .scalar (.string key) => some ⟨.member key done :: frames, .colon⟩
  | _, _ => none

def step (m : Machine) (token : Token) : Option Machine :=
  match m.mode with
  | .value => enter m.frames token
  | .firstItem => (close m.frames token).or (enter m.frames token)
  | .key => takeKey m.frames token
  | .firstKey => (close m.frames token).or (takeKey m.frames token)
  | .colon =>
    match token with
    | .colon => some ⟨m.frames, .value⟩
    | _ => none
  | .next =>
    match token, m.frames with
    | .comma, .items _ :: _ => some ⟨m.frames, .value⟩
    | .comma, .members _ :: _ => some ⟨m.frames, .key⟩
    | _, _ => close m.frames token
  | .done _ => none

def result? (m : Machine) : Option Json :=
  match m.mode with
  | .done value => some value
  | _ => none

end Machine

theorem dropDecimals_length (s : List Char) :
    (s.dropWhile Text.isDecimal).length ≤ s.length :=
  (List.dropWhile_sublist Text.isDecimal).length_le

theorem fraction?_length {s rest : List Char} {b : Bool} (h : fraction? s = some (b, rest)) :
    rest.length ≤ s.length := by
  unfold fraction? at h
  split at h
  · rename_i tail
    have := dropDecimals_length tail
    split at h
    · simp at h
    · simp only [Option.some.injEq, Prod.mk.injEq] at h
      obtain ⟨_, rfl⟩ := h
      simp only [List.length_cons]
      omega
  · simp only [Option.some.injEq, Prod.mk.injEq] at h
    obtain ⟨_, rfl⟩ := h
    exact Nat.le_refl _

theorem dropSign_length (s : List Char) : (dropSign s).length ≤ s.length := by
  unfold dropSign
  split <;> simp

theorem exponent?_length {s rest : List Char} {b : Bool} (h : exponent? s = some (b, rest)) :
    rest.length ≤ s.length := by
  unfold exponent? at h
  split at h
  · simp_all
  · rename_i c tail
    have := dropDecimals_length (dropSign tail)
    have := dropSign_length tail
    simp only at h
    split at h
    · split at h
      · simp at h
      · simp only [Option.some.injEq, Prod.mk.injEq] at h
        obtain ⟨_, rfl⟩ := h
        simp only [List.length_cons]
        omega
    · simp only [Option.some.injEq, Prod.mk.injEq] at h
      obtain ⟨_, rfl⟩ := h
      exact Nat.le_refl _

theorem magnitude?_length {signed : Bool} {s rest : List Char} {value : Json}
    (h : magnitude? signed s = some (value, rest)) : rest.length < s.length := by
  unfold magnitude? at h
  simp only at h
  split at h
  · simp at h
  · rename_i shape
    have parts :=
      congrArg List.length (List.takeWhile_append_dropWhile (p := Text.isDecimal) (l := s))
    have positive : 0 < (s.takeWhile Text.isDecimal).length := by
      cases t : s.takeWhile Text.isDecimal with
      | nil => simp [t] at shape
      | cons => simp
    rw [List.length_append] at parts
    simp only [Option.bind_eq_bind, Option.bind_eq_some_iff] at h
    obtain ⟨⟨f, r⟩, hf, ⟨e, r'⟩, he, h⟩ := h
    have := fraction?_length hf
    have : r'.length ≤ r.length := exponent?_length he
    simp only at h
    split at h <;>
    · simp only [Option.pure_def, Option.some.injEq, Prod.mk.injEq] at h
      obtain ⟨_, rfl⟩ := h
      omega

theorem word?_length {letters s rest : List Char} {value v : Json}
    (h : word? letters value s = some (v, rest)) : rest.length ≤ s.length := by
  simp only [word?, Option.map_eq_some_iff, Prod.mk.injEq] at h
  obtain ⟨r, hr, _, rfl⟩ := h
  simp [Text.after?_eq_some_iff.mp hr]

theorem scalar?_length {c : Char} {s rest : List Char} {value : Json}
    (h : scalar? c s = some (value, rest)) : rest.length ≤ s.length := by
  unfold scalar? at h
  split at h
  · simp only [Option.map_eq_some_iff, Prod.mk.injEq] at h
    obtain ⟨⟨l, r⟩, hr, _, rfl⟩ := h
    exact Nat.le_of_lt (readLiteral_length hr)
  split at h
  · exact word?_length h
  split at h
  · exact word?_length h
  split at h
  · exact word?_length h
  split at h
  · exact Nat.le_of_lt (magnitude?_length h)
  split at h
  · exact Nat.le_of_lt_succ (magnitude?_length h)
  · simp at h

theorem token?_length {c : Char} {s rest : List Char} {token : Token}
    (h : token? c s = some (token, rest)) : rest.length ≤ s.length := by
  unfold token? at h
  split at h
  case h_7 =>
    simp only [Option.map_eq_some_iff, Prod.mk.injEq] at h
    obtain ⟨⟨v, r⟩, hr, _, rfl⟩ := h
    exact scalar?_length hr
  all_goals
    simp only [Option.some.injEq, Prod.mk.injEq] at h
    obtain ⟨_, rfl⟩ := h
    exact Nat.le_refl _

/-- Blanks between tokens are skipped; the text must end with a complete value. -/
def run (m : Machine) : List Char → Option Json
  | [] => m.result?
  | c :: s =>
    if isSpace c then run m s
    else
      match _h : token? c s with
      | none => none
      | some (token, rest) =>
        match m.step token with
        | none => none
        | some m => run m rest
termination_by s => s.length
decreasing_by
  all_goals simp only [List.length_cons]
  · omega
  · have := token?_length _h
    omega

def read? (text : String) : Option Json := run .start text.toList

end SymbolAtlas.Json
