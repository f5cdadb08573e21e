import SymbolAtlas.Proofs.JsonRoundTrip
import SymbolAtlas.Proofs.StoreSoundness
import SymbolAtlas.Settings.Basic

/-! A text is never both settings and a store. A store is an array or an object, so its text starts
with a bracket after some blanks; settings have nothing that starts so. A store that stands where
the settings are looked for is therefore no settings, and settings are never taken for a store. -/
namespace SymbolAtlas

/-- A bracket comes after some blanks, as far as there are any. -/
def Opens (s : List Char) : Prop :=
  (s.dropWhile Json.isSpace).head? = some '[' ∨ (s.dropWhile Json.isSpace).head? = some '\x7b'

theorem opens_cons_of_space {c : Char} {s : List Char} (space : Json.isSpace c = true) :
    Opens (c :: s) ↔ Opens s := by
  simp [Opens, space]

theorem opens_cons_of_not_space {c : Char} {s : List Char} (other : Json.isSpace c = false) :
    Opens (c :: s) ↔ c = '[' ∨ c = '\x7b' := by
  simp [Opens, other]

namespace Json

theorem run_done {value other : Json} {s : List Char}
    (read : run ⟨[], .done value⟩ s = some other) : other = value := by
  induction s with
  | nil =>
    rw [run] at read
    cases read
    rfl
  | cons c s ih =>
    rw [run] at read
    split at read
    · exact ih read
    · split at read <;> cases read

theorem fields?_of_scalar {c : Char} {s rest : List Char} {value : Json} (keys : List String)
    (read : scalar? c s = some (value, rest)) : value.fields? keys = none := by
  have number {signed : Bool} {s : List Char} (read : magnitude? signed s = some (value, rest)) :
      value.fields? keys = none := by
    unfold magnitude? at read
    dsimp only at read
    split at read
    · cases read
    · obtain ⟨⟨_, _⟩, _, read⟩ := Option.bind_eq_some_iff.mp read
      obtain ⟨⟨_, _⟩, _, read⟩ := Option.bind_eq_some_iff.mp read
      dsimp only at read
      split at read <;>
      · cases read
        rfl
  have word {letters s : List Char} {v : Json} (plain : v.fields? keys = none)
      (read : word? letters v s = some (value, rest)) : value.fields? keys = none := by
    obtain ⟨_, _, same⟩ := Option.map_eq_some_iff.mp read
    cases same
    exact plain
  unfold scalar? at read
  split at read
  · obtain ⟨_, _, same⟩ := Option.map_eq_some_iff.mp read
    cases same
    rfl
  split at read
  · exact word rfl read
  split at read
  · exact word rfl read
  split at read
  · exact word rfl read
  split at read
  · exact number read
  split at read
  · exact number read
  · cases read

theorem opens_of_fields? {s : List Char} {value : Json} {keys : List String}
    {fields : List (Option Json)} (read : run .start s = some value)
    (found : value.fields? keys = some fields) : Opens s := by
  induction s with
  | nil =>
    rw [run] at read
    cases read
  | cons c s ih =>
    rw [run] at read
    split at read
    case isTrue space => exact (opens_cons_of_space space).mpr (ih read)
    case isFalse other =>
      rw [Bool.not_eq_true] at other
      rw [opens_cons_of_not_space other]
      split at read
      · cases read
      case h_2 token rest taken =>
        unfold token? at taken
        split at taken
        case h_1 => exact .inl rfl
        case h_3 => exact .inr rfl
        case h_7 =>
          obtain ⟨⟨v, r⟩, scalar, same⟩ := Option.map_eq_some_iff.mp taken
          cases same
          rw [run_done read, fields?_of_scalar keys scalar] at found
          cases found
        all_goals
          cases taken
          cases read

end Json

theorem Store.opens_of_parse {text : String} {s : Store} (read : parse text = .ok s) :
    Opens text.toList := by
  obtain ⟨value, parsed, decoded, _⟩ := parse_eq_ok_iff.mp read
  obtain ⟨fields, found, _⟩ := Option.bind_eq_some_iff.mp decoded
  exact Json.opens_of_fields? parsed found

namespace Settings

theorem tokens?_space {c : Char} (space : isSpace c = true) (s : List Char) :
    tokens? (c :: s) = tokens? s := by
  rw [tokens?, if_pos space]

theorem tokens?_token {c : Char} (space : isSpace c = false) (comment : c ≠ '#') (s : List Char) :
    tokens? (c :: s) = (token? c s).bind (fun r => (tokens? r.2).map (r.1 :: ·)) := by
  rw [tokens?, if_neg (by simp [space]), if_neg comment]
  split
  case h_1 none => rw [none, Option.bind_none]
  case h_2 found => rw [found, Option.bind_some]

/-- Where a key may stand, blanks and line ends lead nowhere, and a bracket is refused. -/
theorem refused_of_opens {s : List Char} (opens : Opens s) :
    (tokens? (unifyLineEnds s)).bind (fun tokens => tokens.foldlM Machine.step .start) = none := by
  have lineEnd (s : List Char) :
      (tokens? ('\n' :: s)).bind (fun tokens => tokens.foldlM Machine.step .start) =
        (tokens? s).bind (fun tokens => tokens.foldlM Machine.step .start) := by
    rw [tokens?_token rfl (by decide)]
    change ((tokens? s).map (.lineEnd :: ·)).bind _ = _
    cases tokens? s <;> rfl
  fun_induction unifyLineEnds s with
  | case1 => simp [Opens] at opens
  | case2 rest ih =>
    rw [opens_cons_of_space rfl, opens_cons_of_space rfl] at opens
    rw [lineEnd, ih opens]
  | case3 c rest _ ih =>
    cases space : Json.isSpace c with
    | false =>
      rcases (opens_cons_of_not_space space).mp opens with rfl | rfl
      · rw [tokens?_token rfl (by decide)]
        change ((tokens? (unifyLineEnds rest)).map (.opening :: ·)).bind _ = none
        cases tokens? (unifyLineEnds rest) <;> rfl
      · rw [tokens?_token rfl (by decide)]
        rfl
    | true =>
      have ih := ih ((opens_cons_of_space space).mp opens)
      simp only [Json.isSpace, Bool.or_eq_true, beq_iff_eq] at space
      rcases space with ((rfl | rfl) | rfl) | rfl
      · rw [tokens?_space rfl, ih]
      · rw [tokens?_space rfl, ih]
      · rw [lineEnd, ih]
      · rw [tokens?_token rfl (by decide)]
        rfl

theorem draft?_of_opens {text : String} (opens : Opens text.toList) : draft? text = none := by
  have unmarked : dropMark text.toList = text.toList := by
    unfold dropMark
    split
    case h_1 rest marked =>
      rw [marked, opens_cons_of_not_space rfl] at opens
      rcases opens with same | same <;> cases same
    case h_2 => rfl
  have refused := refused_of_opens opens
  unfold draft?
  rw [unmarked]
  cases read : tokens? (unifyLineEnds text.toList) with
  | none => rfl
  | some tokens =>
    rw [read, Option.bind_some] at refused
    change ((tokens.foldlM Machine.step .start).bind _) = none
    rw [refused]
    rfl

theorem not_parse_of_parse {root text : String} {settings : Settings}
    (read : parse root text = .ok settings) (s : Store) : Store.parse text ≠ .ok s := by
  intro stored
  rw [parse, draft?_of_opens (Store.opens_of_parse stored)] at read
  cases read

end Settings

end SymbolAtlas
