import Mathlib.Data.List.Induction
import Mathlib.Tactic.IntervalCases
import SymbolAtlas.Instant.Reader
import SymbolAtlas.Proofs.Fallible

/-! Times as they come back from their texts. A day has one date and the date leads back to the day;
the numbers of a date are written with leading zeros and so read up to where they end. Whatever is
read is a time that can be written and read again. -/
namespace SymbolAtlas.Instant

/-! ### The calendar -/

/-- A day within four hundred years: centuries, spans of four years, years and days. -/
structure DayOfEra (day century span year rest : Int) : Prop where
  whole : day = 36524 * century + 1461 * span + 365 * year + rest
  centuries : 0 ≤ century ∧ century ≤ 3
  spans : 0 ≤ span ∧ span ≤ 24
  years : 0 ≤ year ∧ year ≤ 3
  days : 0 ≤ rest ∧ rest ≤ 365
  /-- The day that only a leap year has. The first three centuries end without one. -/
  leap : rest = 365 → year = 3 ∧ (span = 24 → century = 3)

theorem exists_dayOfEra {day : Int} (first : 0 ≤ day) (last : day < 146097) :
    ∃ century span year rest, DayOfEra day century span year rest := by
  obtain ⟨century, hCentury⟩ : ∃ c, c = min 3 (day / 36524) := ⟨_, rfl⟩
  obtain ⟨span, hSpan⟩ : ∃ q, q = (day - 36524 * century) / 1461 := ⟨_, rfl⟩
  obtain ⟨year, hYear⟩ : ∃ j, j = min 3 ((day - 36524 * century - 1461 * span) / 365) := ⟨_, rfl⟩
  refine ⟨century, span, year, day - 36524 * century - 1461 * span - 365 * year,
    ?_, ?_, ?_, ?_, ?_, ?_⟩
  all_goals omega

namespace DayOfEra

variable {day century span year rest : Int}

theorem yearOfEra_eq (parts : DayOfEra day century span year rest) :
    (day - day / 1460 + day / 36524 - day / 146096) / 365 = 100 * century + 4 * span + year := by
  obtain ⟨whole, ⟨_, _⟩, ⟨_, _⟩, ⟨_, _⟩, ⟨_, _⟩, leap⟩ := parts
  have centuries : day / 36524 - day / 146096 = century := by
    have low : 36524 * century ≤ day := by omega
    have high : day ≤ 36524 * century + 36524 := by omega
    have last : day = 36524 * century + 36524 → century = 3 := by omega
    omega
  have spans : day / 1460 =
      25 * century + span + (24 * century + span + 365 * year + rest) / 1460 := by omega
  omega

theorem marchYearStart_eq (parts : DayOfEra day century span year rest) :
    marchYearStart (100 * century + 4 * span + year) + rest = day := by
  obtain ⟨whole, _, _, _, _, _⟩ := parts
  unfold marchYearStart
  omega

theorem isLeapYear (parts : DayOfEra day century span year rest) (last : rest = 365) (era : Int) :
    isLeapYear (100 * century + 4 * span + year + 400 * era + 1) = true := by
  obtain ⟨third, rare⟩ := parts.leap last
  have spans := parts.spans
  clear parts
  subst third
  simp only [Instant.isLeapYear, Bool.and_eq_true, Bool.or_eq_true, beq_iff_eq, bne_iff_ne]
  refine ⟨by omega, ?_⟩
  by_cases century' : span = 24
  · have third := rare century'
    subst third century'
    exact .inr (by omega)
  · exact .inl (by omega)

end DayOfEra

theorem marchYearStart_era (year era : Int) :
    marchYearStart (year + 400 * era) = marchYearStart year + 146097 * era := by
  unfold marchYearStart
  omega

theorem exists_dayOfYear (day : Int) : ∃ (year : Int) (rest : Nat),
    day + epochDay = marchYearStart year + rest ∧ rest ≤ 365 ∧
      (rest = 365 → isLeapYear (year + 1) = true) ∧
      Date.ofDay day =
        let month := (5 * rest + 2) / 153
        ⟨if month < 10 then year else year + 1, if month < 10 then month + 3 else month - 9,
          rest - marchMonthStart month + 1⟩ := by
  obtain ⟨century, span, year, rest, parts⟩ :=
    exists_dayOfEra (Int.emod_nonneg (day + epochDay) (show (146097 : Int) ≠ 0 by decide))
      (Int.emod_lt_of_pos (day + epochDay) (by decide))
  have found := parts.yearOfEra_eq
  have start := parts.marchYearStart_eq
  have whole := Int.emod_add_mul_ediv (day + epochDay) 146097
  refine ⟨100 * century + 4 * span + year + 400 * ((day + epochDay) / 146097), rest.toNat,
    ?_, ?_, ?_, ?_⟩
  · rw [marchYearStart_era, Int.toNat_of_nonneg parts.days.1]
    omega
  · have := parts.days.2
    omega
  · intro last
    have last : rest = 365 := by
      have := parts.days.1
      omega
    exact parts.isLeapYear last _
  · have days : ((day + epochDay) % 146097 -
        marchYearStart (100 * century + 4 * span + year)).toNat = rest.toNat := by omega
    unfold Date.ofDay
    dsimp only
    rw [found, days]

/-- Within a year that starts in March a day is in the month whose start is the last before it. -/
theorem marchMonth_spec {rest : Nat} (inside : rest ≤ 365) :
    (5 * rest + 2) / 153 ≤ 11 ∧ marchMonthStart ((5 * rest + 2) / 153) ≤ rest ∧
      rest < marchMonthStart ((5 * rest + 2) / 153 + 1) := by
  unfold marchMonthStart
  omega

theorem toDay_ofDay (day : Int) : (Date.ofDay day).toDay = day := by
  obtain ⟨year, rest, whole, inside, _, made⟩ := exists_dayOfYear day
  obtain ⟨last, start, _⟩ := marchMonth_spec inside
  rw [made]
  generalize (5 * rest + 2) / 153 = month at last start ⊢
  dsimp only [Date.toDay]
  by_cases early : month < 10
  · have month' : ¬ month + 3 ≤ 2 := by omega
    simp only [early, if_true, month', if_false, Nat.add_sub_cancel]
    omega
  · have month' : month - 9 ≤ 2 := by omega
    have back : month - 9 + 9 = month := by omega
    simp only [early, if_false, month', if_true, back, Nat.add_sub_cancel]
    have year' : year + 1 - 1 = year := by omega
    rw [year']
    omega

structure Date.Listed (d : Date) : Prop where
  month : 1 ≤ d.month ∧ d.month ≤ 12
  day : 1 ≤ d.day ∧ d.day ≤ daysInMonth d.year d.month

/-- The months from March on have their lengths; the year's last day makes February a leap one. -/
theorem marchMonth_length {year : Int} {month rest : Nat} (last : month ≤ 11)
    (inside : rest ≤ 365) (ending : rest < marchMonthStart (month + 1))
    (leap : rest = 365 → isLeapYear (year + 1) = true) :
    rest - marchMonthStart month + 1 ≤ daysInMonth (if month < 10 then year else year + 1)
      (if month < 10 then month + 3 else month - 9) := by
  by_cases february : month = 11
  · subst february
    have start : marchMonthStart 11 = 337 := rfl
    change rest - marchMonthStart 11 + 1 ≤ if isLeapYear (year + 1) then 29 else 28
    split
    · omega
    case isFalse plain =>
      have : rest ≠ 365 := fun same => plain (leap same)
      omega
  · interval_cases month
    all_goals simp [marchMonthStart, daysInMonth] at ending ⊢
    all_goals omega

theorem listed_ofDay (day : Int) : (Date.ofDay day).Listed := by
  obtain ⟨year, rest, _, inside, leap, made⟩ := exists_dayOfYear day
  obtain ⟨last, start, ending⟩ := marchMonth_spec inside
  rw [made]
  generalize (5 * rest + 2) / 153 = month at last start ending ⊢
  refine ⟨?_, Nat.le_add_left 1 _, marchMonth_length last inside ending leap⟩
  dsimp only
  split <;> omega

/-! ### Numbers -/

structure Spells (n : Nat) (digits : List Char) : Prop where
  nonempty : digits ≠ []
  decimal : ∀ c ∈ digits, Text.isDecimal c = true
  value : Text.decimalValue digits = n

theorem spells_padded (width n : Nat) : Spells n (padded width n) where
  nonempty empty := Nat.toDigits_ne_nil (List.append_eq_nil_iff.mp empty).2
  decimal c member := by
    rcases List.mem_append.mp member with zero | digit
    · rw [(List.mem_replicate.mp zero).2]
      rfl
    · exact Nat.isDigit_of_mem_toDigits (by decide) (by decide) digit
  value := by
    simp [padded, Text.decimalValue, Nat.ofDigitChars_append, Nat.ofDigitChars_replicate_zero]

theorem length_padded {width n : Nat} (positive : 0 < width) (fits : n < 10 ^ width) :
    (padded width n).length = width := by
  have short := (Nat.length_toDigits_le_iff (by decide) positive).mpr fits
  rw [padded, List.length_append, List.length_replicate]
  omega

theorem not_isBlank_of_isDecimal {c : Char} (decimal : Text.isDecimal c = true) :
    Text.isBlank c = false := by
  simp only [Text.isDecimal, Bool.and_eq_true, decide_eq_true_eq, Char.le_def,
    UInt32.le_iff_toNat_le] at decimal
  have low : 48 ≤ c.toNat := decimal.1
  have high : c.toNat ≤ 57 := decimal.2
  simp only [Text.isBlank, Bool.or_eq_false_iff, Bool.and_eq_false_iff, decide_eq_false_iff_not,
    beq_eq_false_iff_ne]
  omega

namespace Spells

variable {n : Nat} {digits rest : List Char}

theorem takeWhile_append (spells : Spells n digits)
    (stops : ∀ c ∈ rest.head?, Text.isDecimal c = false) :
    (digits ++ rest).takeWhile Text.isDecimal = digits := by
  rw [List.takeWhile_append_of_pos spells.decimal]
  cases rest with
  | nil => exact List.append_nil _
  | cons c rest => simp [stops c rfl]

theorem dropWhile_append (spells : Spells n digits)
    (stops : ∀ c ∈ rest.head?, Text.isDecimal c = false) :
    (digits ++ rest).dropWhile Text.isDecimal = rest := by
  rw [List.dropWhile_append_of_pos spells.decimal]
  cases rest with
  | nil => rfl
  | cons c rest => simp [stops c rfl]

theorem take_append (spells : Spells n digits) {width : Nat} (fits : digits.length ≤ width)
    (stops : digits.length = width ∨ ∀ c ∈ rest.head?, Text.isDecimal c = false) :
    ((digits ++ rest).take width).takeWhile Text.isDecimal = digits := by
  rw [List.take_append, List.take_of_length_le fits]
  refine spells.takeWhile_append (fun c member => ?_)
  rw [List.head?_take] at member
  rcases stops with full | stops
  · simp [full] at member
  · split at member
    · cases member
    · exact stops c member

theorem number?_append (spells : Spells n digits) {width : Nat} (fits : digits.length ≤ width)
    (stops : digits.length = width ∨ ∀ c ∈ rest.head?, Text.isDecimal c = false) :
    number? width (digits ++ rest) = some (n, rest) := by
  rw [number?, spells.take_append fits stops]
  simp [spells.nonempty, spells.value]

theorem skip_append (spells : Spells n digits) : skip (digits ++ rest) = digits ++ rest := by
  cases digits with
  | nil => exact absurd rfl spells.nonempty
  | cons c digits =>
    have plain := not_isBlank_of_isDecimal (spells.decimal c List.mem_cons_self)
    simp [skip, plain]

theorem part?_append (spells : Spells n digits) (two : digits.length = 2) :
    part? (digits ++ rest) = some (n, rest) := by
  rw [part?, spells.skip_append]
  exact spells.number?_append two.le (.inl two)

/-- Fewer than nine digits of a fraction count as if zeros followed. -/
theorem fraction?_append (spells : Spells n digits) (fits : digits.length ≤ 9)
    (stops : ∀ c ∈ rest.head?, Text.isDecimal c = false) :
    fraction? ('.' :: (digits ++ rest)) = some (10 ^ (9 - digits.length) * n, rest) := by
  have value := spells.value
  rw [fraction?, spells.take_append fits (.inr stops), spells.dropWhile_append stops]
  rw [Text.decimalValue] at value ⊢
  simp [spells.nonempty, Nat.ofDigitChars_append, Nat.ofDigitChars_replicate_zero, value]

end Spells

theorem year?_digits {n : Nat} {digits : List Char} (spells : Spells n digits) (rest : List Char) :
    year? (digits ++ rest) = (number? 4 (digits ++ rest)).map (fun r => ((r.1 : Int), r.2)) := by
  cases digits with
  | nil => exact absurd rfl spells.nonempty
  | cons c digits =>
    have digit := spells.decimal c List.mem_cons_self
    unfold year?
    split
    case h_1 same =>
      cases same
      cases digit
    case h_2 same =>
      cases same
      cases digit
    case h_3 => rfl

theorem year?_yearText (year : Int) {rest : List Char}
    (stops : ∀ c ∈ rest.head?, Text.isDecimal c = false) :
    year? (skip (yearText year ++ rest)) = some (year, rest) := by
  have longer (digits : List Char) : digits.length ≤ (digits ++ rest).length := by simp
  unfold yearText
  split
  case isTrue short =>
    simp only [Bool.and_eq_true, decide_eq_true_eq] at short
    have spells := spells_padded 4 year.toNat
    have four : (padded 4 year.toNat).length = 4 := length_padded (by decide) (by omega)
    rw [spells.skip_append, year?_digits spells, spells.number?_append four.le (.inl four)]
    simp [Int.toNat_of_nonneg short.1]
  case isFalse signed =>
    have spells := spells_padded 4 year.natAbs
    split
    case isTrue negative =>
      have read : year? ('-' :: (padded 4 year.natAbs ++ rest)) =
          some (-(year.natAbs : Int), rest) := by
        rw [year?, spells.number?_append (longer _) (.inr stops)]
        rfl
      refine read.trans ?_
      rw [Int.ofNat_natAbs_of_nonpos (Int.le_of_lt negative), Int.neg_neg]
    case isFalse positive =>
      have read : year? ('+' :: (padded 4 year.natAbs ++ rest)) =
          some ((year.natAbs : Int), rest) := by
        rw [year?, spells.number?_append (longer _) (.inr stops)]
        rfl
      refine read.trans ?_
      rw [Int.natAbs_of_nonneg (Int.not_lt.mp positive)]

theorem fraction?_fractionText (t : Instant) :
    fraction? (t.fractionText ++ ['Z']) = some (t.nano % 1000000000, ['Z']) := by
  have stops : ∀ c ∈ ['Z'].head?, Text.isDecimal c = false := by
    rintro c ⟨⟩
    rfl
  have read (width n : Nat) (positive : 0 < width) (fits : n < 10 ^ width) (short : width ≤ 9) :
      fraction? ('.' :: (padded width n ++ ['Z'])) = some (10 ^ (9 - width) * n, ['Z']) := by
    have length := length_padded positive fits
    rw [(spells_padded width n).fraction?_append (by omega) stops, length]
  unfold fractionText
  dsimp only
  generalize whole : t.nano % 1000000000 = nano
  have bound : nano < 1000000000 := by omega
  split
  case isTrue none =>
    rw [none]
    rfl
  split
  case isTrue millis =>
    have value : 10 ^ (9 - 3) * (nano / 1000000) = nano := by omega
    rw [List.cons_append, read 3 _ (by decide) (by omega) (by decide), value]
  split
  case isTrue micros =>
    have value : 10 ^ (9 - 6) * (nano / 1000) = nano := by omega
    rw [List.cons_append, read 6 _ (by decide) (by omega) (by decide), value]
  case isFalse =>
    rw [List.cons_append, read 9 _ (by decide) bound (by decide), Nat.sub_self, pow_zero,
      Nat.one_mul]

/-- A time that the calendar has. A second of nanoseconds more belongs to the last second of a
minute alone. -/
structure Valid (t : Instant) : Prop where
  year : isYear t.date.year = true
  nano : t.nano < 1000000000 ∨ t.nano < 2000000000 ∧ t.secondOfDay % 60 = 59

theorem secondOfDay_lt (t : Instant) : t.secondOfDay < 86400 := by
  unfold secondOfDay
  omega

theorem second_eq (t : Instant) : t.date.toDay * 86400 +
    (t.hour * 3600 + t.minute * 60 + t.secondOfDay % 60 : Nat) = t.second := by
  have day : t.date.toDay = t.second / 86400 := toDay_ofDay _
  rw [day, hour, minute, secondOfDay]
  omega

theorem secondOfMinute_of_lt {t : Instant} (plain : t.nano < 1000000000) :
    t.secondOfMinute = t.secondOfDay % 60 := by
  unfold secondOfMinute
  omega

theorem ofLocal?_parts {t : Instant} (valid : t.Valid) :
    ofLocal? t.date t.hour t.minute t.secondOfMinute (t.nano % 1000000000) 0 = some t := by
  have listed : t.date.Listed := listed_ofDay _
  have day := t.secondOfDay_lt
  have hours : t.hour < 24 := by
    unfold hour
    omega
  have minutes : t.minute < 60 := by
    unfold minute
    omega
  have whole := t.second_eq
  have seconds : t.secondOfMinute ≤ 60 := by
    have := valid.nano
    unfold secondOfMinute
    omega
  have possible : (isYear t.date.year && 1 ≤ t.date.month && t.date.month ≤ 12 && 1 ≤ t.date.day &&
      t.date.day ≤ daysInMonth t.date.year t.date.month && t.hour < 24 && t.minute < 60 &&
      t.secondOfMinute ≤ 60 && (0 : Int).natAbs < 86400) = true := by
    simp [valid.year, listed.month, listed.day, hours, minutes, seconds]
  rw [ofLocal?, if_pos possible]
  have same : (if t.secondOfMinute = 60 then
      (⟨t.date.toDay * 86400 + (t.hour * 3600 + t.minute * 60 + 59 : Nat) - 0,
        t.nano % 1000000000 + 1000000000⟩ : Instant)
      else ⟨t.date.toDay * 86400 + (t.hour * 3600 + t.minute * 60 + t.secondOfMinute : Nat) - 0,
        t.nano % 1000000000⟩) = t := by
    by_cases plain : t.nano < 1000000000
    · have second := secondOfMinute_of_lt plain
      have other : t.secondOfMinute ≠ 60 := by omega
      rw [if_neg other, second, whole, Int.sub_zero, Nat.mod_eq_of_lt plain]
    · obtain ⟨leap, last⟩ := valid.nano.resolve_left plain
      have second : t.secondOfMinute = 60 := by
        unfold secondOfMinute
        omega
      have nano : t.nano % 1000000000 + 1000000000 = t.nano := by omega
      rw [last] at whole
      rw [if_pos second, whole, Int.sub_zero, nano]
  rw [same]
  exact if_pos valid.year

theorem read?_text {t : Instant} (valid : t.Valid) : read? t.text = some t := by
  have text : t.text.toList = yearText t.date.year ++ '-' :: (padded 2 t.date.month ++
      '-' :: (padded 2 t.date.day ++ 'T' :: (padded 2 t.hour ++ ':' :: (padded 2 t.minute ++
        ':' :: (padded 2 t.secondOfMinute ++ (t.fractionText ++ ['Z'])))))) := by
    simp [text, dateText, timeText]
  have year (rest : List Char) : year? (skip (yearText t.date.year ++ '-' :: rest)) =
      some (t.date.year, '-' :: rest) :=
    year?_yearText t.date.year (fun c dash => by
      cases dash
      rfl)
  have part {n : Nat} (fits : n < 100) (rest : List Char) :
      part? (padded 2 n ++ rest) = some (n, rest) :=
    (spells_padded 2 n).part?_append (length_padded (by decide) fits)
  have dash (s : List Char) : mark? '-' ('-' :: s) = some s := rfl
  have colon (s : List Char) : mark? ':' (':' :: s) = some s := rfl
  have zone : offset? (skip ['Z']) = some (0, []) := by decide
  obtain ⟨⟨_, month⟩, _, day⟩ : t.date.Listed := listed_ofDay _
  have long : daysInMonth t.date.year t.date.month ≤ 31 := by
    unfold daysInMonth
    split
    · split <;> decide
    · split <;> decide
  have seconds := t.secondOfDay_lt
  have nano := valid.nano
  have hour : t.hour < 100 := by
    unfold Instant.hour
    omega
  have minute : t.minute < 100 := by
    unfold Instant.minute
    omega
  have second : t.secondOfMinute < 100 := by
    unfold secondOfMinute
    omega
  rw [read?, text]
  refine Option.bind_eq_some_iff.mpr ⟨_, year _, ?_⟩
  refine Option.bind_eq_some_iff.mpr ⟨_, dash _, ?_⟩
  refine Option.bind_eq_some_iff.mpr ⟨_, part (by omega) _, ?_⟩
  refine Option.bind_eq_some_iff.mpr ⟨_, dash _, ?_⟩
  refine Option.bind_eq_some_iff.mpr ⟨_, part (by omega) _, ?_⟩
  refine Option.bind_eq_some_iff.mpr ⟨_, part hour _, ?_⟩
  refine Option.bind_eq_some_iff.mpr ⟨_, colon _, ?_⟩
  refine Option.bind_eq_some_iff.mpr ⟨_, part minute _, ?_⟩
  refine Option.bind_eq_some_iff.mpr ⟨_, colon _, ?_⟩
  refine Option.bind_eq_some_iff.mpr ⟨_, part second _, ?_⟩
  refine Option.bind_eq_some_iff.mpr ⟨_, t.fraction?_fractionText, ?_⟩
  refine Option.bind_eq_some_iff.mpr ⟨_, zone, ?_⟩
  exact ofLocal?_parts valid

/-! ### What is read -/

theorem decimalValue_lt {digits : List Char} (decimal : ∀ c ∈ digits, Text.isDecimal c = true) :
    Text.decimalValue digits < 10 ^ digits.length := by
  induction digits using List.reverseRecOn with
  | nil => decide
  | append_singleton digits c ih =>
    have bound := ih (fun c member => decimal c (List.mem_append_left _ member))
    have digit := decimal c (List.mem_append_right _ List.mem_cons_self)
    simp only [Text.isDecimal, Bool.and_eq_true, decide_eq_true_eq, Char.le_def,
      UInt32.le_iff_toNat_le] at digit
    have high : c.toNat ≤ 57 := digit.2
    have zero : '0'.toNat = 48 := rfl
    simp only [Text.decimalValue, Nat.ofDigitChars_append, Nat.ofDigitChars_cons,
      Nat.ofDigitChars_nil, List.length_append, List.length_singleton, pow_succ] at bound ⊢
    omega

theorem fraction?_lt {s rest : List Char} {nano : Nat} (read : fraction? s = some (nano, rest)) :
    nano < 1000000000 := by
  unfold fraction? at read
  split at read
  case h_1 s =>
    dsimp only at read
    split at read
    · cases read
    · cases read
      generalize taken : (s.take 9).takeWhile Text.isDecimal = digits
      have decimal : ∀ c ∈ digits, Text.isDecimal c = true := by
        rw [← List.all_eq_true, ← taken]
        exact List.all_takeWhile
      have short : digits.length ≤ 9 := by
        have inside := (List.takeWhile_sublist (p := Text.isDecimal) (l := s.take 9)).length_le
        rw [taken, List.length_take] at inside
        omega
      have filled : ∀ c ∈ digits ++ List.replicate (9 - digits.length) '0',
          Text.isDecimal c = true := by
        intro c member
        rcases List.mem_append.mp member with digit | zero
        · exact decimal c digit
        · rw [(List.mem_replicate.mp zero).2]
          rfl
      have bound := decimalValue_lt filled
      rw [List.length_append, List.length_replicate, Nat.add_sub_cancel' short] at bound
      exact bound
  · cases read
    decide

theorem offset?_minutes {s rest : List Char} {offset : Int}
    (read : offset? s = some (offset, rest)) : offset % 60 = 0 := by
  have magnitude {s rest : List Char} {n : Nat} (read : offsetMagnitude? s = some (n, rest)) :
      n % 60 = 0 := by
    obtain ⟨⟨hours, _⟩, _, read⟩ := Option.bind_eq_some_iff.mp read
    obtain ⟨⟨minutes, _⟩, _, read⟩ := Option.bind_eq_some_iff.mp read
    cases read
    omega
  unfold offset? at read
  split at read
  · cases read
    rfl
  split at read
  · cases read
  split at read
  · cases read
    rfl
  split at read
  · obtain ⟨⟨n, _⟩, found, same⟩ := Option.map_eq_some_iff.mp read
    cases same
    have := magnitude found
    omega
  split at read
  · obtain ⟨⟨n, _⟩, found, same⟩ := Option.map_eq_some_iff.mp read
    cases same
    have := magnitude found
    omega
  · cases read

theorem valid_of_ofLocal? {date : Date} {hour minute second nano : Nat} {offset : Int} {t : Instant}
    (fraction : nano < 1000000000) (minutes : offset % 60 = 0)
    (made : ofLocal? date hour minute second nano offset = some t) : t.Valid := by
  unfold ofLocal? at made
  split at made
  case isFalse => cases made
  dsimp only at made
  split at made
  -- a leap second is the last second of its minute
  · split at made
    case isFalse => cases made
    case isTrue year =>
      cases made
      refine ⟨year, .inr ⟨?_, ?_⟩⟩
      · dsimp only
        omega
      · unfold secondOfDay
        dsimp only
        omega
  · split at made
    case isFalse => cases made
    case isTrue year =>
      cases made
      exact ⟨year, .inl fraction⟩

theorem valid_of_read? {text : String} {t : Instant} (read : read? text = some t) : t.Valid := by
  iterate 5 obtain ⟨_, _, read⟩ := Option.bind_eq_some_iff.mp read
  dsimp only at read
  split at read
  · split at read
    · iterate 6 obtain ⟨_, _, read⟩ := Option.bind_eq_some_iff.mp read
      obtain ⟨⟨nano, _⟩, fraction, read⟩ := Option.bind_eq_some_iff.mp read
      obtain ⟨⟨offset, _⟩, zone, read⟩ := Option.bind_eq_some_iff.mp read
      dsimp only at read
      split at read
      · exact valid_of_ofLocal? (fraction?_lt fraction) (offset?_minutes zone) read
      · cases read
    · cases read
  · cases read

end SymbolAtlas.Instant
