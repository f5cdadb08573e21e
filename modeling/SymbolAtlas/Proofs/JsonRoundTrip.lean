import SymbolAtlas.Json.Printer
import SymbolAtlas.Json.Reader

/-! What the printer writes, the reader reads back: every value, in every layout whose separators
are blanks. The reader is followed through its stack. A value that has been written is delivered to
the innermost open frame, whatever lies below it and whatever text comes next, as long as that text
does not prolong a number. -/
namespace SymbolAtlas.Json

/-- Only blanks stand between tokens. -/
structure Layout.Blank (layout : Layout) : Prop where
  newline : ∀ depth, ∀ c ∈ layout.newline depth, isSpace c = true
  colon : ∃ blanks, layout.colon = ':' :: blanks ∧ ∀ c ∈ blanks, isSpace c = true

theorem Layout.blank_pretty : Layout.pretty.Blank where
  newline depth c member := by
    rcases List.mem_cons.mp member with rfl | member
    · rfl
    · rw [List.eq_of_mem_replicate member]
      rfl
  colon := ⟨[' '], rfl, by simp [isSpace]⟩

theorem Layout.blank_compact : Layout.compact.Blank where
  newline _ _ member := by cases member
  colon := ⟨[], rfl, fun _ member => by cases member⟩

/-- The text does not go on with a character that a number could. -/
def Stops (s : List Char) : Prop :=
  ∀ c ∈ s.head?, Text.isDecimal c = false ∧ c ≠ '.' ∧ c ≠ 'e' ∧ c ≠ 'E'

theorem stops_nil : Stops [] := by simp [Stops]

theorem stops_cons {c : Char}
    (other : Text.isDecimal c = false ∧ c ≠ '.' ∧ c ≠ 'e' ∧ c ≠ 'E') (rest : List Char) :
    Stops (c :: rest) := by
  intro d first
  cases first
  exact other

theorem stops_blanks {blanks rest : List Char} (spaces : ∀ c ∈ blanks, isSpace c = true)
    (stops : Stops rest) : Stops (blanks ++ rest) := by
  cases blanks with
  | nil => exact stops
  | cons c blanks =>
    apply stops_cons
    have space := spaces c List.mem_cons_self
    simp only [isSpace, Bool.or_eq_true, beq_iff_eq] at space
    rcases space with ((rfl | rfl) | rfl) | rfl <;> decide

/-! Literals. -/

theorem hexValue?_hexDigit : ∀ n < 16, Text.hexValue? (hexDigit n) = some n := by decide

theorem readLiteral_push {c : Char} {text : List Char} {rest : List Char} (quote : c ≠ '"')
    (escape : c ≠ '\\') (control : ¬ c.toNat < 0x20) :
    readLiteral ⟨some text, none⟩ (c :: rest) = readLiteral ⟨some (c :: text), none⟩ rest := by
  have kept : (c = '\\' || c.toNat < 0x20) = false := by simp [escape, control]
  rw [readLiteral]
  · simp only [kept, Bool.false_eq_true, ↓reduceIte]
    rfl
  · exact quote
  · exact fun _ _ _ _ _ same _ => escape same
  · exact fun _ _ same _ => escape same

theorem readLiteral_unit {c : Char} {text : List Char} {rest : List Char}
    (control : c.toNat < 0x20) :
    readLiteral ⟨some text, none⟩
        ('\\' :: 'u' :: '0' :: '0' :: hexDigit (c.toNat / 16) :: hexDigit (c.toNat % 16) :: rest) =
      readLiteral ⟨some (c :: text), none⟩ rest := by
  have unit : unit? '0' '0' (hexDigit (c.toNat / 16)) (hexDigit (c.toNat % 16)) =
      some c.toNat := by
    have zero : Text.hexValue? '0' = some 0 := rfl
    simp only [unit?, zero, hexValue?_hexDigit _ (show c.toNat / 16 < 16 by omega),
      hexValue?_hexDigit _ (show c.toNat % 16 < 16 by omega), Option.bind_eq_bind,
      Option.bind_some, Option.pure_def, Option.some.injEq]
    omega
  have plain : Decoding.pushUnit ⟨some text, none⟩ c.toNat = ⟨some (c :: text), none⟩ := by
    have high : ¬ 0xD800 ≤ c.toNat := by omega
    have low : ¬ 0xDC00 ≤ c.toNat := by omega
    simp [Decoding.pushUnit, Decoding.push, high, low]
  rw [readLiteral, unit]
  simp only [plain]

theorem readLiteral_escapeChar (c : Char) (text rest : List Char) :
    readLiteral ⟨some text, none⟩ (escapeChar c ++ rest) =
      readLiteral ⟨some (c :: text), none⟩ rest := by
  unfold escapeChar
  iterate 7
    split
    case isTrue same =>
      subst same
      rfl
  split
  case isTrue control => exact readLiteral_unit control
  case isFalse quote escape _ _ _ _ _ control => exact readLiteral_push quote escape control

theorem readLiteral_flatMap (s text rest : List Char) :
    readLiteral ⟨some text, none⟩ (s.flatMap escapeChar ++ '"' :: rest) =
      some (some (String.ofList (text.reverse ++ s)), rest) := by
  induction s generalizing text with
  | nil => simp [readLiteral, Decoding.literal]
  | cons c s ih =>
    rw [List.flatMap_cons, List.append_assoc, readLiteral_escapeChar, ih]
    simp

theorem readLiteral_writeLiteral (literal : Literal) (rest : List Char) :
    ∃ tail, writeLiteral literal ++ rest = '"' :: tail ∧
      readLiteral .start tail = some (literal, rest) := by
  cases literal with
  | none => exact ⟨_, rfl, rfl⟩
  | some s =>
    refine ⟨s.toList.flatMap escapeChar ++ '"' :: rest, by simp [writeLiteral], ?_⟩
    rw [Decoding.start, readLiteral_flatMap]
    simp

/-! Numbers. -/

theorem exists_toDigits_eq_cons (n : Nat) : ∃ c digits, Nat.toDigits 10 n = c :: digits :=
  List.exists_cons_of_ne_nil Nat.toDigits_ne_nil

theorem head?_toDigits_eq_zero {n : Nat} : (Nat.toDigits 10 n).head? = some '0' ↔ n = 0 := by
  induction n using Nat.base_induction 10 (by decide) with
  | single m digit => rw [Nat.toDigits_of_lt_base digit]; decide +revert
  | digit m k digit positive ih =>
    obtain ⟨c, digits, written⟩ := exists_toDigits_eq_cons m
    rw [← Nat.toDigits_append_toDigits (by decide) positive digit, written, List.cons_append,
      List.head?_cons, ← List.head?_cons (l := digits), ← written, ih]
    omega

theorem Stops.takeWhile {s : List Char} (stops : Stops s) : s.takeWhile Text.isDecimal = [] := by
  cases s with
  | nil => rfl
  | cons c s => simp [stops c rfl]

theorem Stops.dropWhile {s : List Char} (stops : Stops s) : s.dropWhile Text.isDecimal = s := by
  cases s with
  | nil => rfl
  | cons c s => simp [stops c rfl]

theorem Stops.fraction? {s : List Char} (stops : Stops s) : fraction? s = some (false, s) := by
  cases s with
  | nil => rfl
  | cons c s =>
    obtain ⟨_, point, _⟩ := stops c rfl
    rw [Json.fraction?]
    simp [point]

theorem Stops.exponent? {s : List Char} (stops : Stops s) : exponent? s = some (false, s) := by
  cases s with
  | nil => rfl
  | cons c s =>
    obtain ⟨_, _, small, capital⟩ := stops c rfl
    simp [Json.exponent?, small, capital]

theorem magnitude?_digits {digits rest : List Char} (signed : Bool)
    (decimal : ∀ c ∈ digits, Text.isDecimal c = true) (nonempty : digits ≠ [])
    (leading : digits.head? = some '0' → digits.length = 1) (stops : Stops rest) :
    magnitude? signed (digits ++ rest) =
      some (if signed then .otherNumber else .natural (Text.decimalValue digits), rest) := by
  have taken : (digits ++ rest).takeWhile Text.isDecimal = digits := by
    rw [List.takeWhile_append_of_pos decimal, stops.takeWhile, List.append_nil]
  have dropped : (digits ++ rest).dropWhile Text.isDecimal = rest := by
    rw [List.dropWhile_append_of_pos decimal, stops.dropWhile]
  have shape : (digits.isEmpty || (digits.head? == some '0' && digits.length != 1)) = false := by
    simpa [nonempty] using leading
  rw [magnitude?, taken, dropped]
  simp only [shape, stops.fraction?, stops.exponent?, Bool.false_eq_true, ↓reduceIte,
    Option.bind_eq_bind, Option.bind_some]
  cases signed <;> rfl

theorem magnitude?_toDigits (n : Nat) {rest : List Char} (stops : Stops rest) :
    magnitude? false (Nat.toDigits 10 n ++ rest) = some (.natural n, rest) := by
  rw [magnitude?_digits false _ Nat.toDigits_ne_nil _ stops]
  · simp [Text.decimalValue]
  · exact fun c member => Nat.isDigit_of_mem_toDigits (by decide) (by decide) member
  · intro zero
    rw [head?_toDigits_eq_zero.mp zero]
    rfl

theorem scalar?_of_isDecimal {c : Char} (digit : Text.isDecimal c = true) (s : List Char) :
    scalar? c s = magnitude? false (c :: s) := by
  have other : ∀ d, Text.isDecimal d = false → c ≠ d := by
    rintro d no rfl
    simp [digit] at no
  simp only [scalar?, digit, ↓reduceIte, other '"' rfl, other 'n' rfl, other 't' rfl, other 'f' rfl,
    other '-' rfl]

def isFlat : Json → Bool
  | .array _ => false
  | .object _ => false
  | _ => true

theorem scalar?_write (layout : Layout) (depth : Nat) {value : Json} {rest : List Char}
    (flat : value.isFlat = true) (stops : Stops rest) :
    ∃ c tail, write layout depth value ++ rest = c :: tail ∧
      scalar? c tail = some (value, rest) := by
  cases value with
  | null => exact ⟨_, _, rfl, rfl⟩
  | bool value => cases value <;> exact ⟨_, _, rfl, rfl⟩
  | natural n =>
    obtain ⟨c, digits, written⟩ := exists_toDigits_eq_cons n
    have read := magnitude?_toDigits n stops
    have digit : Text.isDecimal c = true :=
      Nat.isDigit_of_mem_toDigits (b := 10) (n := n) (by decide) (by decide) (by simp [written])
    rw [written] at read
    refine ⟨c, digits ++ rest, by rw [write, written, List.cons_append], ?_⟩
    rw [scalar?_of_isDecimal digit]
    exact read
  | otherNumber =>
    have zero : ∀ c ∈ ['0'], Text.isDecimal c = true := List.forall_mem_singleton.mpr rfl
    exact ⟨'-', '0' :: rest, rfl, magnitude?_digits true zero (by decide) (by decide) stops⟩
  | string literal =>
    obtain ⟨tail, written, read⟩ := readLiteral_writeLiteral literal rest
    exact ⟨'"', tail, by rw [write, written], by simp [scalar?, read]⟩
  | array items => cases flat
  | object members => cases flat

/-! Tokens. -/

theorem run_blanks {blanks : List Char} (spaces : ∀ c ∈ blanks, isSpace c = true) (m : Machine)
    (s : List Char) : run m (blanks ++ s) = run m s := by
  induction blanks with
  | nil => rfl
  | cons c blanks ih =>
    rw [List.cons_append, run, if_pos (spaces c List.mem_cons_self)]
    exact ih (fun c member => spaces c (List.mem_cons_of_mem _ member))

theorem run_token {c : Char} {s rest : List Char} {token : Token} (space : isSpace c = false)
    (read : token? c s = some (token, rest)) (m : Machine) :
    run m (c :: s) = (m.step token).bind (fun m => run m rest) := by
  rw [run, if_neg (by simp [space])]
  split
  case h_1 none => simp [read] at none
  case h_2 found =>
    rw [read] at found
    cases found
    cases m.step token <;> rfl

theorem run_scalar {c : Char} {s rest : List Char} {value : Json}
    (read : scalar? c s = some (value, rest)) (m : Machine) :
    run m (c :: s) = (m.step (.scalar value)).bind (fun m => run m rest) := by
  have none : ∀ d, scalar? d s = none → c ≠ d := by
    rintro d refused rfl
    simp [read] at refused
  apply run_token
  · simp only [isSpace, Bool.or_eq_false_iff, beq_eq_false_iff_ne]
    exact ⟨⟨⟨none _ rfl, none _ rfl⟩, none _ rfl⟩, none _ rfl⟩
  · unfold token?
    split
    case h_7 => rw [read]; rfl
    all_goals exact absurd rfl (none _ rfl)

def Token.starts : Token → Bool
  | .openArray => true
  | .openObject => true
  | .scalar _ => true
  | _ => false

namespace Machine

def Begins (mode : Mode) : Prop := mode = .value ∨ mode = .firstItem

theorem step_starts {mode : Mode} (begins : Begins mode) (frames : List Frame) {token : Token}
    (starts : token.starts = true) : step ⟨frames, mode⟩ token = enter frames token := by
  rcases begins with rfl | rfl
  · rfl
  · have shut : close frames token = none := by
      rcases frames with _ | ⟨_ | _ | _, _⟩ <;> cases token <;> first | rfl | cases starts
    simp [step, shut]

theorem step_closeArray (frames : List Frame) :
    step ⟨.items [] :: frames, .firstItem⟩ .closeArray = deliver frames (.array []) :=
  Option.or_none

theorem step_closeObject (frames : List Frame) :
    step ⟨.members [] :: frames, .firstKey⟩ .closeObject = deliver frames (.object []) :=
  Option.or_none

end Machine

open Machine

theorem run_flat (layout : Layout) (depth : Nat) {mode : Mode} (begins : Begins mode)
    (frames : List Frame) {rest : List Char} (stops : Stops rest) {value : Json}
    (flat : value.isFlat = true) :
    run ⟨frames, mode⟩ (write layout depth value ++ rest) =
      (deliver frames value).bind (fun m => run m rest) := by
  obtain ⟨c, tail, written, read⟩ := scalar?_write layout depth flat stops
  rw [written, run_scalar read, step_starts begins frames rfl, enter]

theorem run_key {layout : Layout} (blank : layout.Blank) {mode : Mode}
    (opens : mode = .key ∨ mode = .firstKey) (key : Literal) (done : List (Literal × Json))
    (frames : List Frame) (rest : List Char) :
    run ⟨.members done :: frames, mode⟩ (writeLiteral key ++ (layout.colon ++ rest)) =
      run ⟨.member key done :: frames, .value⟩ rest := by
  obtain ⟨tail, written, read⟩ := readLiteral_writeLiteral key (layout.colon ++ rest)
  obtain ⟨blanks, colon, spaces⟩ := blank.colon
  have scalar : scalar? '"' tail = some (.string key, layout.colon ++ rest) := by
    simp [scalar?, read]
  have taken : step ⟨.members done :: frames, mode⟩ (.scalar (.string key)) =
      some ⟨.member key done :: frames, .colon⟩ := by
    rcases opens with rfl | rfl <;> rfl
  rw [written, run_scalar scalar, taken, Option.bind_some, colon, List.cons_append,
    run_token rfl rfl]
  exact run_blanks spaces _ rest

theorem stops_writeItems (layout : Layout) (depth : Nat) (items : List Json) {rest : List Char}
    (stops : Stops rest) : Stops (writeItems layout depth items ++ rest) := by
  cases items with
  | nil => exact stops
  | cons item items =>
    rw [writeItems]
    exact stops_cons (by decide) _

theorem stops_writeMembers (layout : Layout) (depth : Nat) (members : List (Literal × Json))
    {rest : List Char} (stops : Stops rest) :
    Stops (writeMembers layout depth members ++ rest) := by
  cases members with
  | nil => exact stops
  | cons member members =>
    rw [writeMembers]
    exact stops_cons (by decide) _

section

variable {layout : Layout} (blank : layout.Blank)

include blank

mutual

theorem run_write (depth : Nat) {mode : Mode} (begins : Begins mode) (frames : List Frame)
    {rest : List Char} (stops : Stops rest) : (value : Json) →
    run ⟨frames, mode⟩ (write layout depth value ++ rest) =
      (deliver frames value).bind (fun m => run m rest)
  | .array [] => by
    rw [write, List.cons_append, run_token rfl rfl, step_starts begins frames rfl, enter,
      Option.bind_some, List.cons_append, List.nil_append, run_token rfl rfl, step_closeArray]
  | .array (item :: items) => by
    have stop := stops_blanks (blank.newline depth)
      (stops_cons (c := ']') (by decide) rest)
    simp only [write, List.cons_append, List.append_assoc, List.nil_append]
    rw [run_token rfl rfl, step_starts begins frames rfl, enter, Option.bind_some,
      run_blanks (blank.newline (depth + 1)),
      run_write (depth + 1) (.inr rfl) _ (stops_writeItems layout (depth + 1) items stop) item]
    exact run_writeItems depth [item] frames rest items
  | .object [] => by
    rw [write, List.cons_append, run_token rfl rfl, step_starts begins frames rfl, enter,
      Option.bind_some, List.cons_append, List.nil_append, run_token rfl rfl, step_closeObject]
  | .object ((key, value) :: members) => by
    have stop := stops_blanks (blank.newline depth)
      (stops_cons (c := '}') (by decide) rest)
    simp only [write, List.cons_append, List.append_assoc, List.nil_append]
    rw [run_token rfl rfl, step_starts begins frames rfl, enter, Option.bind_some,
      run_blanks (blank.newline (depth + 1)), run_key blank (.inr rfl),
      run_write (depth + 1) (.inl rfl) _ (stops_writeMembers layout (depth + 1) members stop) value]
    exact run_writeMembers depth [(key, value)] frames rest members
  | .null => run_flat layout depth begins frames stops rfl
  | .bool _ => run_flat layout depth begins frames stops rfl
  | .natural _ => run_flat layout depth begins frames stops rfl
  | .otherNumber => run_flat layout depth begins frames stops rfl
  | .string _ => run_flat layout depth begins frames stops rfl

theorem run_writeItems (depth : Nat) (done : List Json) (frames : List Frame) (rest : List Char) :
    (items : List Json) →
    run ⟨.items done :: frames, .next⟩
        (writeItems layout (depth + 1) items ++ (layout.newline depth ++ ']' :: rest)) =
      (deliver frames (.array (done.reverse ++ items))).bind (fun m => run m rest)
  | [] => by
    rw [writeItems, List.nil_append, run_blanks (blank.newline depth), run_token rfl rfl,
      List.append_nil]
    rfl
  | item :: items => by
    have stop := stops_blanks (blank.newline depth)
      (stops_cons (c := ']') (by decide) rest)
    simp only [writeItems, List.cons_append, List.append_assoc]
    rw [run_token rfl rfl]
    change run ⟨.items done :: frames, .value⟩ _ = _
    rw [run_blanks (blank.newline (depth + 1)),
      run_write (depth + 1) (.inl rfl) _ (stops_writeItems layout (depth + 1) items stop) item]
    refine (run_writeItems depth (item :: done) frames rest items).trans ?_
    rw [List.reverse_cons, List.append_assoc, List.singleton_append]

theorem run_writeMembers (depth : Nat) (done : List (Literal × Json)) (frames : List Frame)
    (rest : List Char) : (members : List (Literal × Json)) →
    run ⟨.members done :: frames, .next⟩
        (writeMembers layout (depth + 1) members ++ (layout.newline depth ++ '}' :: rest)) =
      (deliver frames (.object (done.reverse ++ members))).bind (fun m => run m rest)
  | [] => by
    rw [writeMembers, List.nil_append, run_blanks (blank.newline depth), run_token rfl rfl,
      List.append_nil]
    rfl
  | (key, value) :: members => by
    have stop := stops_blanks (blank.newline depth)
      (stops_cons (c := '}') (by decide) rest)
    simp only [writeMembers, List.cons_append, List.append_assoc]
    rw [run_token rfl rfl]
    change run ⟨.members done :: frames, .key⟩ _ = _
    rw [run_blanks (blank.newline (depth + 1)), run_key blank (.inl rfl),
      run_write (depth + 1) (.inl rfl) _ (stops_writeMembers layout (depth + 1) members stop) value]
    refine (run_writeMembers depth ((key, value) :: done) frames rest members).trans ?_
    rw [List.reverse_cons, List.append_assoc, List.singleton_append]

end

end

/-- Whatever is written is read back, half surrogates and numbers without a value included. -/
theorem read?_write {layout : Layout} (blank : layout.Blank) (value : Json) :
    read? (String.ofList (write layout 0 value)) = some value := by
  have written := run_write blank 0 (.inl rfl) [] stops_nil value
  rw [List.append_nil] at written
  rw [read?, String.toList_ofList, start, written, deliver, Option.bind_some, run]
  rfl

end SymbolAtlas.Json
