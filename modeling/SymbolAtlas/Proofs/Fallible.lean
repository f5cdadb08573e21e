import Mathlib.Data.List.Forall2

/-! Computations that may fail: when they succeed, and what a loop over them comes to. A loop that
makes a list stops at the first fault, and so answers with one result for each element or with the
fault of one of them; a loop that carries a state keeps what its steps keep. -/
namespace SymbolAtlas

theorem bind_eq_ok {x : Except ε α} {f : α → Except ε β} {b : β} :
    (x >>= f) = .ok b ↔ ∃ a, x = .ok a ∧ f a = .ok b := by
  cases x <;> simp [bind, Except.bind]

theorem map_eq_ok {x : Except ε α} {f : α → β} {b : β} :
    x.map f = .ok b ↔ ∃ a, x = .ok a ∧ f a = b := by
  cases x <;> simp [Except.map]

theorem map_eq_error {x : Except ε α} {f : α → β} {fault : ε} :
    x.map f = .error fault ↔ x = .error fault := by
  cases x <;> simp [Except.map]

theorem bind_eq_error {x : Except ε α} {f : α → Except ε β} {fault : ε} :
    (x >>= f) = .error fault ↔ x = .error fault ∨ ∃ a, x = .ok a ∧ f a = .error fault := by
  cases x <;> simp [bind, Except.bind]

theorem mapError_eq_error {x : Except ε α} {f : ε → ε'} {fault : ε'} :
    x.mapError f = .error fault ↔ ∃ cause, x = .error cause ∧ f cause = fault := by
  cases x <;> simp [Except.mapError]

theorem mapError_eq_ok {x : Except ε α} {f : ε → ε'} {a : α} :
    x.mapError f = .ok a ↔ x = .ok a := by
  cases x <;> simp [Except.mapError]

theorem mapError_id {x : Except ε α} : x.mapError id = x := by
  cases x <;> rfl

theorem error_of_map {x : Except ε α} {f : α → β} {fault : ε}
    (h : (x >>= fun a => pure (f a)) = .error fault) : x = .error fault := by
  cases x with
  | error other =>
    cases h
    rfl
  | ok a => cases h

theorem bind_pure_succeeds_iff {x : Except ε α} {f : α → β} :
    (∃ b, (x >>= fun a => pure (f a)) = .ok b) ↔ ∃ a, x = .ok a := by
  cases x <;> simp [bind, Except.bind, pure, Except.pure]

theorem origin_of_forall₂ {related : α → β → Prop} {xs : List α} {ys : List β}
    (pairs : List.Forall₂ related xs ys) {y : β} (member : y ∈ ys) : ∃ x ∈ xs, related x y := by
  induction pairs with
  | nil => cases member
  | cons first _ ih =>
    rcases List.mem_cons.mp member with rfl | member
    · exact ⟨_, List.mem_cons_self, first⟩
    · obtain ⟨x, hx, found⟩ := ih member
      exact ⟨x, List.mem_cons_of_mem _ hx, found⟩

theorem forall₂_concat {related : α → β → Prop} {xs : List α} {ys : List β}
    (pairs : List.Forall₂ related xs ys) {x : α} {y : β} (last : related x y) :
    List.Forall₂ related (xs ++ [x]) (ys ++ [y]) :=
  List.rel_append pairs (.cons last .nil)

theorem mapM_ok {f : α → Except ε β} {xs : List α} {ys : List β} (h : xs.mapM f = .ok ys) :
    List.Forall₂ (fun x y => f x = .ok y) xs ys := by
  induction xs generalizing ys with
  | nil =>
    cases h
    exact .nil
  | cons x xs ih =>
    rw [List.mapM_cons, bind_eq_ok] at h
    obtain ⟨y, first, h⟩ := h
    obtain ⟨others, rest, h⟩ := bind_eq_ok.mp h
    cases h
    exact .cons first (ih rest)

theorem mapM_of_forall₂ {f : α → Except ε β} {xs : List α} {ys : List β}
    (pairs : List.Forall₂ (fun x y => f x = .ok y) xs ys) : xs.mapM f = .ok ys := by
  induction pairs with
  | nil => rfl
  | cons first _ ih =>
    rw [List.mapM_cons, first, ih]
    rfl

theorem mapM_error {f : α → Except ε β} {xs : List α} {fault : ε} (h : xs.mapM f = .error fault) :
    ∃ x ∈ xs, f x = .error fault := by
  induction xs with
  | nil => cases h
  | cons x xs ih =>
    rw [List.mapM_cons] at h
    cases first : f x with
    | error other =>
      rw [first] at h
      cases h
      exact ⟨x, List.mem_cons_self, first⟩
    | ok y =>
      cases rest : xs.mapM f with
      | error other =>
        rw [first, rest] at h
        cases h
        obtain ⟨x, member, found⟩ := ih rest
        exact ⟨x, List.mem_cons_of_mem _ member, found⟩
      | ok others =>
        rw [first, rest] at h
        cases h

theorem eq_map_of_mapM {f : α → Except ε β} {h : α → β} {xs : List α} {ys : List β}
    (agree : ∀ x y, f x = .ok y → y = h x) (made : xs.mapM f = .ok ys) : ys = xs.map h := by
  have pairs := mapM_ok made
  clear made
  induction pairs with
  | nil => rfl
  | cons first _ ih => rw [List.map_cons, ← agree _ _ first, ← ih]

theorem exists_ok_of_mapM {f : α → Except ε β} {xs : List α} {ys : List β}
    (made : xs.mapM f = .ok ys) : ∀ x ∈ xs, ∃ y, f x = .ok y := by
  intro x member
  have pairs := mapM_ok made
  clear made
  induction pairs with
  | nil => cases member
  | cons first _ ih =>
    rcases List.mem_cons.mp member with rfl | member
    · exact ⟨_, first⟩
    · exact ih member

theorem mapM_succeeds_iff {f : α → Except ε β} {xs : List α} :
    (∃ ys, xs.mapM f = .ok ys) ↔ ∀ x ∈ xs, ∃ y, f x = .ok y := by
  constructor
  · rintro ⟨ys, made⟩
    exact exists_ok_of_mapM made
  · intro each
    cases made : xs.mapM f with
    | ok ys => exact ⟨ys, rfl⟩
    | error fault =>
      obtain ⟨x, member, refused⟩ := mapM_error made
      obtain ⟨y, accepted⟩ := each x member
      cases accepted.symm.trans refused

/-- What holds before anything is read, and holds on with every element that is taken, holds of all
that was read. -/
theorem related_of_foldlM (related : List α → σ → Prop) {f : σ → α → Except ε σ}
    (step : ∀ done s a t, related done s → f s a = .ok t → related (done ++ [a]) t)
    (done : List α) {xs : List α} {s t : σ} (initial : related done s)
    (ended : xs.foldlM f s = .ok t) : related (done ++ xs) t := by
  induction xs generalizing done s with
  | nil =>
    cases ended
    rwa [List.append_nil]
  | cons a xs ih =>
    rw [List.foldlM_cons] at ended
    obtain ⟨next, taken, ended⟩ := bind_eq_ok.mp ended
    have rest := ih (done ++ [a]) (step done s a next initial taken) ended
    rwa [List.append_assoc] at rest

theorem invariant_of_foldlM (property : σ → Prop) {f : σ → α → Except ε σ}
    (preserved : ∀ s a t, property s → f s a = .ok t → property t) {xs : List α} {s t : σ}
    (initial : property s) (ended : xs.foldlM f s = .ok t) : property t :=
  related_of_foldlM (fun _ => property) (fun _ => preserved) [] initial ended

theorem foldlM_error {f : σ → α → Except ε σ} {xs : List α} {s : σ} {fault : ε}
    (stopped : xs.foldlM f s = .error fault) : ∃ x ∈ xs, ∃ t, f t x = .error fault := by
  induction xs generalizing s with
  | nil => cases stopped
  | cons x xs ih =>
    rw [List.foldlM_cons] at stopped
    rcases bind_eq_error.mp stopped with here | ⟨next, _, later⟩
    · exact ⟨x, List.mem_cons_self, s, here⟩
    · obtain ⟨y, member, refused⟩ := ih later
      exact ⟨y, List.mem_cons_of_mem _ member, refused⟩

end SymbolAtlas
