/-! Tables in insertion order. A key keeps the place of its first insertion and the value of its
last; the entries are the only view, and every operation says what becomes of them. -/
namespace SymbolAtlas

structure Table (κ : Type) (α : Type) where
  entries : List (κ × α)
  deriving DecidableEq, Repr

namespace Table

variable {κ α : Type}

def empty : Table κ α := ⟨[]⟩

def keys (t : Table κ α) : List κ := t.entries.map Prod.fst

def values (t : Table κ α) : List α := t.entries.map Prod.snd

def size (t : Table κ α) : Nat := t.entries.length

@[simp] theorem entries_empty : (empty : Table κ α).entries = [] := rfl

variable [DecidableEq κ]

def valueAt? (key : κ) : List (κ × α) → Option α
  | [] => none
  | e :: rest => if e.1 = key then some e.2 else valueAt? key rest

def get? (t : Table κ α) (key : κ) : Option α := valueAt? key t.entries

def contains (t : Table κ α) (key : κ) : Bool := (t.get? key).isSome

/-- Changes the value of a key where it stands; other entries keep theirs. -/
def modify (t : Table κ α) (key : κ) (f : α → α) : Table κ α :=
  ⟨t.entries.map (fun e => if e.1 = key then (e.1, f e.2) else e)⟩

/-- Replaces the value of a known key in its place; a new key comes last. -/
def insert (t : Table κ α) (key : κ) (value : α) : Table κ α :=
  if t.contains key then t.modify key (fun _ => value)
  else ⟨t.entries ++ [(key, value)]⟩

def erase (t : Table κ α) (key : κ) : Table κ α :=
  ⟨t.entries.filter (fun e => e.1 ≠ key)⟩

/-- Adds one more value to those listed under a key. -/
def push (t : Table κ (List α)) (key : κ) (value : α) : Table κ (List α) :=
  t.insert key ((t.get? key).getD [] ++ [value])

@[simp] theorem get?_empty (key : κ) : (empty : Table κ α).get? key = none := rfl

theorem valueAt?_isSome_iff (key : κ) (entries : List (κ × α)) :
    (valueAt? key entries).isSome = true ↔ key ∈ entries.map Prod.fst := by
  induction entries with
  | nil => simp [valueAt?]
  | cons e rest ih =>
    by_cases h : e.1 = key
    · simp [valueAt?, h]
    · rw [valueAt?, if_neg h, ih, List.map_cons, List.mem_cons, eq_comm (a := key)]
      simp [h]

theorem contains_iff_mem_keys (t : Table κ α) (key : κ) :
    t.contains key = true ↔ key ∈ t.keys :=
  valueAt?_isSome_iff key t.entries

@[simp] theorem keys_modify (t : Table κ α) (key : κ) (f : α → α) :
    (t.modify key f).keys = t.keys := by
  simp only [keys, modify, List.map_map]
  apply List.map_congr_left
  intro e _
  simp only [Function.comp]
  split <;> rfl

theorem keys_insert (t : Table κ α) (key : κ) (value : α) :
    (t.insert key value).keys = if key ∈ t.keys then t.keys else t.keys ++ [key] := by
  by_cases h : t.contains key
  · rw [insert, if_pos h, keys_modify, if_pos ((contains_iff_mem_keys t key).mp h)]
  · rw [insert, if_neg h, if_neg (fun m => h ((contains_iff_mem_keys t key).mpr m))]
    simp [keys]

theorem get?_modify (t : Table κ α) (key k : κ) (f : α → α) :
    (t.modify key f).get? k = if k = key then (t.get? k).map f else t.get? k := by
  obtain ⟨entries⟩ := t
  simp only [modify, get?]
  induction entries with
  | nil => simp [valueAt?]
  | cons e rest ih =>
    rw [List.map_cons, valueAt?, valueAt?, ih]
    by_cases hk : e.1 = k
    · by_cases ha : e.1 = key
      · simp [ha, ha.symm.trans hk]
      · have : k ≠ key := fun eq => ha (hk.trans eq)
        simp [hk, this]
    · by_cases ha : e.1 = key
      · have : key ≠ k := fun eq => hk (ha.trans eq)
        simp [ha, this]
      · simp [ha, hk]

theorem valueAt?_append_new (entries : List (κ × α)) (key k : κ) (value : α)
    (absent : key ∉ entries.map Prod.fst) :
    valueAt? k (entries ++ [(key, value)]) =
      if k = key then some value else valueAt? k entries := by
  induction entries with
  | nil => simp [valueAt?, eq_comm]
  | cons e rest ih =>
    simp only [List.map_cons, List.mem_cons, not_or] at absent
    rw [List.cons_append, valueAt?, valueAt?, ih absent.2]
    by_cases hk : e.1 = k
    · have : k ≠ key := fun eq => absent.1 (hk.trans eq).symm
      simp [hk, this]
    · simp [hk]

theorem get?_insert (t : Table κ α) (key k : κ) (value : α) :
    (t.insert key value).get? k = if k = key then some value else t.get? k := by
  by_cases h : t.contains key
  · rw [insert, if_pos h, get?_modify]
    split
    · rename_i same
      subst same
      obtain ⟨v, hv⟩ := Option.isSome_iff_exists.mp h
      simp [hv]
    · rfl
  · rw [insert, if_neg h]
    exact valueAt?_append_new t.entries key k value
      (fun m => h ((contains_iff_mem_keys t key).mpr m))

theorem getD_push (t : Table κ (List α)) (key k : κ) (value : α) :
    ((t.push key value).get? k).getD [] =
      (t.get? k).getD [] ++ if key = k then [value] else [] := by
  rw [push, get?_insert]
  by_cases same : k = key
  · simp [same]
  · simp [same, Ne.symm same]

theorem get?_erase (t : Table κ α) (key k : κ) :
    (t.erase key).get? k = if k = key then none else t.get? k := by
  obtain ⟨entries⟩ := t
  simp only [erase, get?]
  induction entries with
  | nil => simp [valueAt?]
  | cons e rest ih =>
    by_cases ha : e.1 = key
    · rw [List.filter_cons_of_neg (by simp [ha]), ih, valueAt?]
      by_cases hk : k = key
      · simp [hk]
      · simp [hk, ha, Ne.symm hk]
    · rw [List.filter_cons_of_pos (by simp [ha]), valueAt?, valueAt?, ih]
      by_cases hk : k = key
      · simp [hk, ha]
      · simp [hk]

end Table

end SymbolAtlas
