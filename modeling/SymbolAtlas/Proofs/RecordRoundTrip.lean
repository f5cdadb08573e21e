import Mathlib.Data.List.Forall2
import SymbolAtlas.Store.Document

/-! Records as they come back from their own JSON values. A record comes back as it was when its ids
are words of 64 bits; a time comes back as its text is read. Nothing else is lost or refused: every
text, every omitted detail, and every number of a symbol. -/
namespace SymbolAtlas

namespace Json

def valuesAt (key : String) (members : List (String × Json)) : List Json :=
  (members.filter (fun m => m.1 == key)).map (·.2)

@[simp] theorem valuesAt_nil (key : String) : valuesAt key [] = [] := rfl

@[simp] theorem valuesAt_cons (key : String) (m : String × Json) (members : List (String × Json)) :
    valuesAt key (m :: members) =
      if m.1 = key then m.2 :: valuesAt key members else valuesAt key members := by
  by_cases same : m.1 = key <;> simp [valuesAt, same]

@[simp] theorem valuesAt_append (key : String) (xs ys : List (String × Json)) :
    valuesAt key (xs ++ ys) = valuesAt key xs ++ valuesAt key ys := by
  simp [valuesAt]

@[simp] theorem valuesAt_detail (key other : String) (encode : α → Json) (value : Option α) :
    valuesAt key (MemberRecord.detail other encode value) =
      if other = key then (value.map encode).toList else [] := by
  cases value with
  | none => simp [MemberRecord.detail]
  | some a => exact valuesAt_cons key (other, encode a) []

theorem field?_record (key : String) (members : List (String × Json)) {value : Option Json}
    (found : valuesAt key members = value.toList) :
    field? (members.map (fun m => (some m.1, m.2))) key = some value := by
  have same : (members.map (fun m => ((some m.1, m.2) : Literal × Json))).filter
      (fun m => m.1 == some key) =
        (members.filter (fun m => m.1 == key)).map (fun m => (some m.1, m.2)) := by
    rw [List.filter_map]
    congr 1
  rw [valuesAt] at found
  rw [field?, same]
  generalize members.filter (fun m => m.1 == key) = alike at found
  rcases alike with _ | ⟨m, _ | ⟨n, rest⟩⟩ <;> cases value <;> simp_all

theorem fields?_record {keys : List String} {members : List (String × Json)}
    {values : List (Option Json)}
    (found : List.Forall₂ (fun key value => valuesAt key members = value.toList) keys values) :
    (record members).fields? keys = some values := by
  have named : (members.map (fun m => ((some m.1, m.2) : Literal × Json))).any
      (fun m => m.1.isNone) = false := by
    simp
  rw [record, fields?, named]
  simp only [Bool.false_eq_true, ↓reduceIte]
  induction found with
  | nil => rfl
  | cons first _ ih =>
    rw [List.mapM_cons, field?_record _ _ first, ih]
    rfl

@[simp] theorem text?_text (s : String) : (text s).text? = some s := rfl

@[simp] theorem id?_natural {n m : Nat} : id? (.natural n) = some m ↔ n < UInt64.size ∧ n = m := by
  simp [id?]

theorem optional_some {decode : Json → Option α} {value : Json} (solid : value ≠ .null) :
    optional decode (some value) = (decode value).map some := by
  cases value <;> first | rfl | exact absurd rfl solid

theorem optional_detail {decode : Json → Option α} {encode : α → Json}
    (solid : ∀ a, encode a ≠ .null) (inverse : ∀ a, decode (encode a) = some a)
    (value : Option α) : optional decode (value.map encode) = some value := by
  cases value with
  | none => rfl
  | some a => rw [Option.map_some, optional_some (solid a), inverse, Option.map_some]

theorem optional_natural {value found : Option Nat} :
    optional id? (value.map .natural) = some found ↔
      (∀ n ∈ value, n < UInt64.size) ∧ value = found := by
  cases value <;> simp [optional, id?]

/-- A number that may be null, which is never left out. -/
theorem optional_ofOption {value found : Option Nat} :
    optional id? (some (.ofOption .natural value)) = some found ↔
      (∀ n ∈ value, n < UInt64.size) ∧ value = found := by
  cases value <;> simp [optional, id?, ofOption]

end Json

namespace VersionRecord

theorem ofJson?_toJson {v w : VersionRecord} :
    ofJson? v.toJson = some w ↔
      ∃ imported, Instant.read? v.imported.text = some imported ∧ { v with imported } = w := by
  have fields : v.toJson.fields? ["digest", "imported_at", "latest", "version"] =
      some [some (.text v.digest), some (.text v.imported.text), some (.bool v.latest),
        some (.text v.version)] :=
    Json.fields?_record (by simp)
  rw [ofJson?, fields, Option.bind_eq_bind, Option.bind_some]
  dsimp only
  simp [Json.required, Json.bool?, Option.bind_eq_some_iff]

end VersionRecord

namespace ClassRecord

theorem ofJson?_toJson {c d : ClassRecord} :
    ofJson? c.toJson = some d ↔ c.id < UInt64.size ∧ c = d := by
  have fields : c.toJson.fields? ["id", "intermediate_name", "obfuscated_name", "version"] =
      some [some (.natural c.id), some (.text c.intermediate), some (.text c.obfuscated),
        some (.text c.version)] :=
    Json.fields?_record (by simp)
  rw [ofJson?, fields, Option.bind_eq_bind, Option.bind_some]
  dsimp only
  simp [Json.required, Option.bind_eq_some_iff]

end ClassRecord

theorem MemberKind.ofJson?_name (kind : MemberKind) : ofJson? (.text kind.name) = some kind :=
  ofName?_name kind

theorem SymbolId.ofJson?_toJson (id : SymbolId) : ofJson? id.toJson = some id := by
  cases id with
  | named name => rfl
  | numbered number => simp [toJson, ofJson?, Json.word64?, Json.id?, UInt64.toNat_lt_size]

theorem SymbolId.toJson_ne_null (id : SymbolId) : id.toJson ≠ .null := by
  cases id <;> simp [toJson, Json.text]

namespace MemberRecord

/-- Every number of the record is a word of 64 bits. -/
structure Addressable (m : MemberRecord) : Prop where
  id : m.id < UInt64.size
  index : ∀ i ∈ m.index, i < UInt64.size
  lastChange : ∀ change ∈ m.lastChange, change < UInt64.size
  owner : ∀ o ∈ m.owner, o < UInt64.size

theorem ofJson?_toJson {m n : MemberRecord} :
    ofJson? m.toJson = some n ↔ m.Addressable ∧ m = n := by
  have fields : m.toJson.fields? ["descriptor", "id", "index", "intermediate_name", "kind",
      "last_change", "locked", "obfuscated_name", "owner", "symbol_id", "type_name", "version"] =
      some [m.descriptor.map .text, some (.natural m.id), m.index.map .natural,
        some (.text m.key.name), some (.text m.key.kind.name),
        some (.ofOption .natural m.lastChange), some (.bool m.locked), some (.text m.obfuscated),
        some (.ofOption .natural m.owner), m.symbolId.map SymbolId.toJson, m.typeName.map .text,
        some (.text m.key.version)] :=
    Json.fields?_record (by simp)
  have descriptor := Json.optional_detail (by simp [Json.text]) Json.text?_text m.descriptor
  have typeName := Json.optional_detail (by simp [Json.text]) Json.text?_text m.typeName
  have symbolId :=
    Json.optional_detail SymbolId.toJson_ne_null SymbolId.ofJson?_toJson m.symbolId
  rw [ofJson?, fields, Option.bind_eq_bind, Option.bind_some]
  dsimp only
  simp only [Option.bind_eq_bind, Option.bind_some, Option.pure_def, Json.required,
    Json.text?_text, MemberKind.ofJson?_name, Json.bool?, descriptor, typeName, symbolId,
    Option.bind_eq_some_iff, Json.id?_natural, Json.optional_natural, Json.optional_ofOption,
    Option.some.injEq]
  constructor
  · rintro ⟨_, ⟨id, rfl⟩, _, ⟨index, rfl⟩, _, ⟨lastChange, rfl⟩, _, ⟨owner, rfl⟩, rfl⟩
    exact ⟨⟨id, index, lastChange, owner⟩, rfl⟩
  · rintro ⟨⟨id, index, lastChange, owner⟩, rfl⟩
    exact ⟨_, ⟨id, rfl⟩, _, ⟨index, rfl⟩, _, ⟨lastChange, rfl⟩, _, ⟨owner, rfl⟩, rfl⟩

end MemberRecord

namespace LedgerEntry

theorem ofJson?_toJson {e f : LedgerEntry} :
    ofJson? e.toJson = some f ↔ e.id < UInt64.size ∧
      ∃ recorded, Instant.read? e.recorded.text = some recorded ∧ { e with recorded } = f := by
  have fields : e.toJson.fields? ["changed_by", "created_at", "final_name", "id",
      "intermediate_name", "kind", "version"] =
      some [some (.text e.change.actor), some (.text e.recorded.text), some (.text e.change.final),
        some (.natural e.id), some (.text e.change.key.name), some (.text e.change.key.kind.name),
        some (.text e.change.key.version)] :=
    Json.fields?_record (by simp)
  rw [ofJson?, fields, Option.bind_eq_bind, Option.bind_some]
  dsimp only
  simp only [Option.bind_eq_bind, Option.bind_some, Option.pure_def, Json.required,
    Json.text?_text, MemberKind.ofJson?_name, Option.bind_eq_some_iff, Json.id?_natural,
    Option.some.injEq]
  constructor
  · rintro ⟨recorded, read, _, ⟨id, rfl⟩, rfl⟩
    exact ⟨id, recorded, read, rfl⟩
  · rintro ⟨id, recorded, read, rfl⟩
    exact ⟨recorded, read, _, ⟨id, rfl⟩, rfl⟩

end LedgerEntry

end SymbolAtlas
