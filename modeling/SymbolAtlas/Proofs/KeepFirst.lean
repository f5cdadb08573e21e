import Mathlib.Data.List.Induction

/-! Lists without what clashes with something before it. Graphs drop members in this way, and names
that are listed or carried over count by their first mention. When elements clash by a key, the
first element of each key stays, and taking first elements goes well with joining and filtering. -/
namespace SymbolAtlas

/-- What is kept of a list when every element goes that clashes with one kept before it. -/
def keepFirst (clash : α → α → Bool) (xs : List α) : List α :=
  xs.foldl (fun kept x => if kept.any (clash x) then kept else kept ++ [x]) []

theorem keepFirst_concat (clash : α → α → Bool) (xs : List α) (x : α) :
    keepFirst clash (xs ++ [x]) =
      if (keepFirst clash xs).any (clash x) then keepFirst clash xs
      else keepFirst clash xs ++ [x] := by
  simp [keepFirst]

theorem mem_of_mem_keepFirst {clash : α → α → Bool} {xs : List α} {x : α}
    (kept : x ∈ keepFirst clash xs) : x ∈ xs := by
  refine List.foldlRecOn (motive := fun kept => ∀ x ∈ kept, x ∈ xs) xs _ (by simp) ?_ x kept
  intro kept known next listed x member
  split at member
  · exact known x member
  · rcases List.mem_append.mp member with earlier | here
    · exact known x earlier
    · exact List.mem_singleton.mp here ▸ listed

section

variable {κ : Type} [DecidableEq κ] (key : α → κ)

def firsts (xs : List α) : List α := keepFirst (fun x y => key x = key y) xs

theorem mem_map_firsts_iff {xs : List α} {k : κ} :
    k ∈ (firsts key xs).map key ↔ k ∈ xs.map key := by
  induction xs using List.reverseRecOn with
  | nil => rfl
  | append_singleton xs x ih =>
    rw [firsts, keepFirst_concat, List.map_append, List.mem_append, ← ih]
    split
    case isTrue known =>
      obtain ⟨y, kept, same⟩ := List.any_eq_true.mp known
      have there : key x ∈ (firsts key xs).map key :=
        List.mem_map.mpr ⟨y, kept, (of_decide_eq_true same).symm⟩
      rw [List.map_singleton, List.mem_singleton]
      exact ⟨.inl, fun either => either.elim id (fun last => last ▸ there)⟩
    case isFalse => rw [List.map_append, List.mem_append, firsts]

theorem firsts_concat (xs : List α) (x : α) :
    firsts key (xs ++ [x]) =
      if key x ∈ xs.map key then firsts key xs else firsts key xs ++ [x] := by
  have known_iff : (firsts key xs).any (fun y => key x = key y) = true ↔ key x ∈ xs.map key := by
    rw [← mem_map_firsts_iff, List.any_eq_true, List.mem_map]
    simp only [decide_eq_true_eq, eq_comm (a := key x)]
  rw [firsts, keepFirst_concat]
  exact if_congr known_iff rfl rfl

theorem firsts_append (xs ys : List α) :
    firsts key (xs ++ ys) =
      firsts key xs ++ (firsts key ys).filter (fun y => key y ∉ xs.map key) := by
  induction ys using List.reverseRecOn with
  | nil => simp [firsts, keepFirst]
  | append_singleton ys y ih =>
    rw [← List.append_assoc, firsts_concat, firsts_concat, List.map_append, ih]
    by_cases before : key y ∈ xs.map key
    · have gone : [y].filter (fun y => key y ∉ xs.map key) = [] :=
        List.filter_eq_nil_iff.mpr (by simpa using before)
      rw [if_pos (List.mem_append_left _ before)]
      split
      · rfl
      · rw [List.filter_append, gone, List.append_nil]
    · have stays : [y].filter (fun y => key y ∉ xs.map key) = [y] :=
        List.filter_eq_self.mpr (by simpa using before)
      by_cases again : key y ∈ ys.map key
      · rw [if_pos (List.mem_append_right _ again), if_pos again]
      · rw [if_neg (fun either => (List.mem_append.mp either).elim before again), if_neg again,
          List.filter_append, stays, List.append_assoc]

theorem firsts_cons (x : α) (xs : List α) :
    firsts key (x :: xs) = x :: (firsts key xs).filter (fun y => key y ≠ key x) := by
  have first : firsts key [x] = [x] := rfl
  rw [← List.singleton_append, firsts_append, first]
  simp

theorem firsts_firsts (xs : List α) : firsts key (firsts key xs) = firsts key xs := by
  induction xs using List.reverseRecOn with
  | nil => rfl
  | append_singleton xs x ih =>
    rw [firsts_concat]
    split
    · exact ih
    case isFalse fresh => rw [firsts_concat, if_neg (mt (mem_map_firsts_iff key).mp fresh), ih]

theorem filter_firsts {p : α → Bool} (blind : ∀ x y, key x = key y → p x = p y) (xs : List α) :
    (firsts key xs).filter p = firsts key (xs.filter p) := by
  induction xs using List.reverseRecOn with
  | nil => rfl
  | append_singleton xs x ih =>
    rw [firsts_concat, List.filter_append]
    by_cases holds : p x = true
    · have known_iff : key x ∈ (xs.filter p).map key ↔ key x ∈ xs.map key := by
        simp only [List.mem_map, List.mem_filter]
        constructor
        · rintro ⟨y, ⟨listed, _⟩, same⟩
          exact ⟨y, listed, same⟩
        · rintro ⟨y, listed, same⟩
          exact ⟨y, ⟨listed, (blind y x same).trans holds⟩, same⟩
      have single : [x].filter p = [x] := by simp [holds]
      rw [single, firsts_concat, if_congr known_iff rfl rfl, ← ih]
      split
      · rfl
      · rw [List.filter_append, single]
    · have none : [x].filter p = [] := by simp [holds]
      rw [none, List.append_nil, ← ih]
      split
      · rfl
      · rw [List.filter_append, none, List.append_nil]

theorem firsts_map (f : β → α) (xs : List β) :
    firsts key (xs.map f) = (firsts (fun x => key (f x)) xs).map f := by
  induction xs using List.reverseRecOn with
  | nil => rfl
  | append_singleton xs x ih =>
    rw [List.map_append, List.map_singleton, firsts_concat, firsts_concat, ih, List.map_map,
      apply_ite (List.map f), List.map_append, List.map_singleton]
    rfl

theorem firsts_congr {key : α → κ} {κ' : Type} [DecidableEq κ'] {other : α → κ'}
    (same : ∀ x y, key x = key y ↔ other x = other y) (xs : List α) :
    firsts key xs = firsts other xs := by
  simp only [firsts, same]

theorem nodup_map_firsts (xs : List α) : ((firsts key xs).map key).Nodup := by
  induction xs using List.reverseRecOn with
  | nil => exact List.nodup_nil
  | append_singleton xs x ih =>
    rw [firsts_concat]
    split
    · exact ih
    case isFalse fresh =>
      rw [List.map_append, List.map_singleton, List.nodup_append]
      refine ⟨ih, by simp, fun k there l last same => fresh ?_⟩
      rw [← List.mem_singleton.mp last, ← same]
      exact (mem_map_firsts_iff key).mp there

/-- What is made of a key alone is made once of each key. -/
theorem firsts_filterMap {f : κ → Option α} (made : ∀ k x, f k = some x → key x = k)
    (ks : List κ) : firsts key (ks.filterMap f) = (firsts id ks).filterMap f := by
  induction ks using List.reverseRecOn with
  | nil => rfl
  | append_singleton ks k ih =>
    rw [List.filterMap_append, firsts_concat, List.map_id, id_eq]
    cases value : f k with
    | none =>
      have nothing : [k].filterMap f = [] := by simp [value]
      rw [nothing, List.append_nil, ih]
      split
      · rfl
      · rw [List.filterMap_append, nothing, List.append_nil]
    | some x =>
      have single : [k].filterMap f = [x] := by simp [value]
      have known_iff : key x ∈ (ks.filterMap f).map key ↔ k ∈ ks := by
        simp only [List.mem_map, List.mem_filterMap]
        constructor
        · rintro ⟨y, ⟨l, listed, value'⟩, same⟩
          rwa [← made k x value, ← same, made l y value']
        · exact fun listed => ⟨x, ⟨k, listed, value⟩, rfl⟩
      rw [single, firsts_concat, if_congr known_iff rfl rfl, ih]
      split
      · rfl
      · rw [List.filterMap_append, single]

theorem firsts_eq_zipIdx (xs : List α) :
    firsts key xs =
      (xs.zipIdx.filter
        (fun p : α × Nat => decide (∀ y ∈ xs.take p.2, key y ≠ key p.1))).map Prod.fst := by
  induction xs using List.reverseRecOn with
  | nil => rfl
  | append_singleton xs x ih =>
    have earlier : xs.zipIdx.filter
          (fun p : α × Nat => decide (∀ y ∈ (xs ++ [x]).take p.2, key y ≠ key p.1)) =
        xs.zipIdx.filter (fun p : α × Nat => decide (∀ y ∈ xs.take p.2, key y ≠ key p.1)) := by
      refine List.filter_congr (fun p listed => ?_)
      have inside : p.2 ≤ xs.length := by
        have := List.mk_mem_zipIdx_iff_getElem?.mp listed
        exact Nat.le_of_lt (List.getElem?_eq_some_iff.mp this).1
      rw [List.take_append_of_le_length inside]
    rw [firsts_concat, ih, List.zipIdx_append, List.filter_append, List.map_append, earlier]
    by_cases known : key x ∈ xs.map key
    · obtain ⟨y, listed, same⟩ := List.mem_map.mp known
      have repeated : ∃ y ∈ xs, key y = key x := ⟨y, listed, same⟩
      simp [known, repeated]
    · have fresh : ∀ y ∈ xs, ¬ key y = key x := fun y listed same =>
        known (List.mem_map.mpr ⟨y, listed, same⟩)
      simp [known, List.filter_cons, if_pos fresh]

theorem find?_reverse_of_nodup {xs : List α} (apart : (xs.map key).Nodup) (k : κ) :
    xs.reverse.find? (fun x => k = key x) = xs.find? (fun x => k = key x) := by
  induction xs with
  | nil => rfl
  | cons x xs ih =>
    obtain ⟨fresh, apart⟩ := List.nodup_cons.mp apart
    rw [List.reverse_cons, List.find?_append, ih apart]
    by_cases here : k = key x
    · have none : xs.find? (fun y => k = key y) = none := by
        refine List.find?_eq_none.mpr (fun y listed same => fresh ?_)
        rw [← here, of_decide_eq_true same]
        exact List.mem_map_of_mem listed
      simp [here ▸ none, here]
    · simp [here]

theorem eraseDups_eq_firsts (ks : List κ) : ks.eraseDups = firsts id ks := by
  induction ks using List.reverseRecOn with
  | nil => rfl
  | append_singleton ks k ih =>
    rw [List.eraseDups_append, firsts_concat, List.map_id, id_eq, ih]
    by_cases before : k ∈ ks
    · simp [before, List.removeAll]
    · simp [before, List.removeAll, List.eraseDups_cons]

theorem firsts_flatMap_firsts {ι : Type} (parts : ι → List α) (is : List ι) :
    firsts key (is.flatMap (fun i => firsts key (parts i))) = firsts key (is.flatMap parts) := by
  induction is with
  | nil => rfl
  | cons i is ih =>
    rw [List.flatMap_cons, List.flatMap_cons, firsts_append, firsts_append, firsts_firsts, ih]
    simp only [mem_map_firsts_iff]

end

end SymbolAtlas
